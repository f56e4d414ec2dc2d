import Quantive.Backtests.Columns
import Quantive.ReadCommitted.Locking
import Quantive.Strategies.Catalog

/-!
# The persistence of backtest results

`services/backtest_results.py`, and the catalog and the registry whose rows it reads, as sessions over
their tables. `replies` is not a table: it records what the callers of `persist` got.
-/

namespace Quantive.Backtests
open Quantive.ReadCommitted Prog
open Strategies (AssetRow CanonicalStrategyDefinition CaseMapping StrategyDefinitionInput
  lockedAssetSnapshots referencedAssetIds)

/-- A row of `strategy_versions`. -/
structure StrategyVersionRow where
  id : Fin (2 ^ 128)
  strategyId : Fin (2 ^ 128)
  versionNumber : ℕ
  definitionHash : String
  canonicalDefinition : Json

/-- `result` and `reference` are a BacktestResultError, `definition` an exception of the catalog. -/
inductive BacktestFailure where
  | result (message : String)
  | reference (error : ReferenceError)
  | conflict (message : String)
  | definition (message : String)
  | database (error : ColumnError)
  | unavailable
  deriving DecidableEq

/-- What a call of `persist` came to. -/
structure Reply where
  input : BacktestResultInput
  outcome : Except BacktestFailure (BacktestResult ℚ)

structure BacktestDatabase where
  assets : ℕ → Option AssetRow := fun _ => none
  versions : List StrategyVersionRow := []
  results : List (BacktestResult ℚ) := []
  trades : List (String × StoredTrade) := []
  signals : List (String × StoredSignal) := []
  replies : List Reply := []

inductive BacktestWrite where
  | putAsset (id : ℕ) (row : AssetRow)
  | addVersion (row : StrategyVersionRow)
  | addRows (rows : ResultRows)
  | note (reply : Reply)

namespace BacktestDatabase

def version (d : BacktestDatabase) (id : Fin (2 ^ 128)) : Option StrategyVersionRow :=
  d.versions.find? fun v => v.id = id

def result (d : BacktestDatabase) (runId : String) : Option (BacktestResult ℚ) :=
  d.results.find? fun row => row.runId = runId

def references (d : BacktestDatabase) : References where
  asset id := 0 ≤ id && (d.assets id.toNat).isSome
  version id strategyId := d.versions.any fun v => v.id = id && v.strategyId = strategyId
  recorded runId := (d.result runId).isSome

/-- A result with the trades and the signals of its run. -/
def rowsOf (d : BacktestDatabase) (row : BacktestResult ℚ) : ResultRows where
  result := row
  trades := (d.trades.filter fun t => t.1 = row.runId).map Prod.snd
  signals := (d.signals.filter fun s => s.1 = row.runId).map Prod.snd

def apply : BacktestWrite → BacktestDatabase → BacktestDatabase
  | .putAsset id row, d => { d with assets := Function.update d.assets id (some row) }
  | .addVersion row, d => { d with versions := d.versions ++ [row] }
  | .addRows rows, d => { d with
    results := d.results ++ [rows.result]
    trades := d.trades ++ rows.trades.map fun t => (rows.result.runId, t)
    signals := d.signals ++ rows.signals.map fun s => (rows.result.runId, s) }
  | .note reply, d => { d with replies := d.replies ++ [reply] }

/-- `_load_strategy_snapshot` -/
def loadStrategySnapshot (U : CaseMapping) (d : BacktestDatabase) (strategyVersionId : Fin (2 ^ 128)) :
    Except String BacktestStrategySnapshot :=
  match d.version strategyVersionId with
  | none => .error s!"strategy version {uuidText strategyVersionId} not found"
  | some version =>
    match CanonicalStrategyDefinition.modelValidate U version.canonicalDefinition with
    | none => .error "stored strategy definition is invalid"
    | some definition =>
      if definitionHash definition ≠ version.definitionHash then
        .error "stored strategy definition does not match its definition hash"
      else .ok
        { strategyId := version.strategyId, strategyVersionId := version.id
          strategyVersionNumber := version.versionNumber
          strategyDefinitionHash := version.definitionHash, definition := definition }

end BacktestDatabase

instance : Store BacktestDatabase BacktestWrite := ⟨BacktestDatabase.apply⟩

/-- The locks of rows, and of keys that a transaction inserts. -/
inductive BacktestLock where
  | asset (id : ℕ)
  | strategy (id : Fin (2 ^ 128))
  | version (id : Fin (2 ^ 128))
  | run (runId : String)
  deriving DecidableEq

/-- Whether the database fails. -/
inductive BacktestQuestion where
  | fault

abbrev BacktestAnswer : BacktestQuestion → Type
  | .fault => Bool

abbrev BacktestTask := Prog BacktestDatabase BacktestWrite BacktestLock BacktestAnswer BacktestFailure

namespace BacktestTask

/-- `async with self.db.begin()`: the database may fail before the transaction has an effect, and
its commit may take effect and still raise. -/
def inTransaction {α : Type} (body : BacktestTask α) : BacktestTask α := do
  if ← query BacktestQuestion.fault then raise .unavailable
  else
    let result ← transaction body
    if ← query BacktestQuestion.fault then raise .unavailable
    else pure result

end BacktestTask
open BacktestTask

/-! ### The service -/

/-- `_existing_run` -/
def existingRun (runId : String) : BacktestTask (Option (BacktestResult ℚ)) :=
  lockMatching (.run runId) fun d => d.result runId

/-- A persisted result of the run, if it is the same. -/
def confirm (r : CanonicalBacktestResult) (existing : BacktestResult ℚ) :
    BacktestTask (BacktestResult ℚ) :=
  if existing.resultHash ≠ r.resultHash then
    raise (.conflict "deterministic run inputs already have a different persisted result")
  else pure existing

/-- `_add_result_rows` and the flush behind its savepoint. An INSERT that fails keeps no lock, as the
savepoint is rolled back; one that may succeed waits for a transaction that inserts its key. -/
def addResultRows (r : CanonicalBacktestResult) : BacktestTask (BacktestResult ℚ) := do
  let snapshot ← view
  match insertRows snapshot.references r with
  | .error e => raise (.database e)
  | .ok _ =>
    acquire (.run r.runId)
    let d ← view
    match insertRows d.references r with
    | .error e => raise (.database e)
    | .ok rows =>
      emit (.addRows rows)
      pure rows.result

/-- The end of `persist`: the run is found, inserted, or found behind a failed INSERT. -/
def persistResult (r : CanonicalBacktestResult) : BacktestTask (BacktestResult ℚ) := do
  match ← existingRun r.runId with
  | some existing => confirm r existing
  | none =>
    match ← (addResultRows r).attempt with
    | .ok result => pure result
    | .error (.database .integrity) =>
      match ← existingRun r.runId with
      | some raced => confirm r raced
      | none => raise (.database .integrity)
    | .error e => raise e

/-- `persist` -/
def persist (U : CaseMapping) (resultInput : BacktestResultInput) : BacktestTask (BacktestResult ℚ) :=
  inTransaction do
    let d ← view
    match d.loadStrategySnapshot U resultInput.fields.strategyVersionId with
    | .error message => raise (.result message)
    | .ok snapshot =>
      match validateForensicReferences ⟨resultInput, snapshot⟩ with
      | .error e => raise (.reference e)
      | .ok () => persistResult ⟨resultInput, snapshot⟩

/-- An evaluator submits a result. -/
def submit (U : CaseMapping) (submitted : SubmittedResult) : BacktestTask Unit :=
  match BacktestResultInput.validate submitted with
  | .error _ => pure ()
  | .ok resultInput => do
    let outcome ← (persist U resultInput).attempt
    transaction (emit (.note ⟨resultInput, outcome⟩))

/-! ### The catalog and the registry -/

/-- `create_version` of a strategy that is there; `versionId` is the uuid of the row. -/
def createVersion (U : CaseMapping) (strategyId versionId : Fin (2 ^ 128))
    (definition : StrategyDefinitionInput) : BacktestTask Unit := inTransaction do
  acquire (.strategy strategyId)
  forEach (fun id => acquire (.asset id)) (referencedAssetIds definition)
  let registry ← view
  match lockedAssetSnapshots U registry.assets (referencedAssetIds definition) with
  | .error message => raise (.definition message)
  | .ok assets =>
    match CanonicalStrategyDefinition.fromInput definition assets with
    | .error message => raise (.definition message)
    | .ok canonicalDefinition =>
      let d ← view
      let versions := d.versions.filter fun v => v.strategyId = strategyId
      if versions.any fun v => v.definitionHash = definitionHash canonicalDefinition then pure ()
      else
        let versionNumber := (versions.map (·.versionNumber)).max?.getD 0 + 1
        if ¬ (canonicalDefinition.canonicalPayload.storable = true ∧ versionNumber < 2 ^ 31) then
          raise (.database .data)
        else
          acquire (.version versionId)
          let d ← view
          if (d.version versionId).isSome then raise (.database .integrity)
          else emit (.addVersion
            { id := versionId, strategyId, versionNumber
              definitionHash := definitionHash canonicalDefinition
              canonicalDefinition := canonicalDefinition.canonicalPayload.reread })

/-- An asset is registered or changes; none is ever deleted. -/
def putAsset (id : ℕ) (row : AssetRow) : BacktestTask Unit := inTransaction do
  acquire (.asset id)
  emit (.putAsset id row)

/-! ### The system -/

inductive BacktestProgram (U : CaseMapping) : ℕ → BacktestTask Unit → Prop
  | submit (n : ℕ) (submitted : SubmittedResult) : BacktestProgram U n (submit U submitted)
  | createVersion (n : ℕ) (strategyId versionId : Fin (2 ^ 128)) (definition : StrategyDefinitionInput) :
      BacktestProgram U n (createVersion U strategyId versionId definition)
  | putAsset (n id : ℕ) (row : AssetRow) : BacktestProgram U n (putAsset id row)

/-- Sessions on empty tables; the database may fail at any time. -/
def backtests (U : CaseMapping) :
    System ℕ BacktestDatabase BacktestWrite BacktestLock BacktestAnswer BacktestFailure where
  oracle _ _ := True
  programs := BacktestProgram U
  init d := d = {}

end Quantive.Backtests
