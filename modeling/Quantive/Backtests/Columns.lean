import Quantive.Backtests.Payloads
import Quantive.Json.Stored

/-!
# Backtest rows

The tables of `models/backtest.py`: their columns with the values these can hold, and their CHECK and
FOREIGN KEY constraints, as an INSERT meets them.
-/

namespace Quantive.Backtests
open LiveStrategy (SignalDirection StrategyEventType)
open Strategies (JsonObject CanonicalStrategyDefinition)

/-- A value that its column cannot hold, or a constraint that does not hold. -/
inductive ColumnError where
  | data
  | integrity
  deriving DecidableEq

def ensure (holds : Prop) [Decidable holds] (e : ColumnError) : Except ColumnError Unit :=
  if holds then .ok () else .error e

/-! ### Columns -/

/-- `INTEGER` -/
def integerColumn (n : ℤ) : Except ColumnError ℤ := do
  ensure (-2 ^ 31 ≤ n ∧ n < 2 ^ 31) .data
  pure n

/-- `VARCHAR(maxLength)` -/
def textColumn (maxLength : ℕ) (s : String) : Except ColumnError String := do
  ensure (Json.storableText s = true ∧ s.length ≤ maxLength) .data
  pure s

/-- The last place of `NUMERIC(_, scale)`, a half away from zero. -/
def roundPlaces (scale : ℕ) (q : ℚ) : ℤ :=
  if 0 ≤ q then ⌊q * 10 ^ scale + 1 / 2⌋ else -⌊-q * 10 ^ scale + 1 / 2⌋

/-- `NUMERIC(24, scale)` -/
def numericColumn (scale : ℕ) (d : Dec) : Except ColumnError ℚ := do
  let units := roundPlaces scale d.value
  ensure (|units| < 10 ^ 24) .data
  pure (units / 10 ^ scale)

def amountColumn := numericColumn 8
def ratioColumn := numericColumn 12

/-- `JSONB` -/
def jsonColumn (j : Json) : Except ColumnError Json := do
  ensure (j.storable = true) .data
  pure j.reread

def nullable {α β : Type} (column : α → Except ColumnError β) :
    Option α → Except ColumnError (Option β)
  | none => .ok none
  | some a => (column a).map some

/-- What keys are checked against: the assets, the versions with their strategies, and the runs that are
there. -/
structure References where
  asset : ℤ → Bool
  version : Fin (2 ^ 128) → Fin (2 ^ 128) → Bool
  recorded : String → Bool

/-- An INSERT: its columns take their values, of which the constraints hold. -/
def insertRow {α : Type} (columns : Except ColumnError α) (constraints : α → Prop)
    [DecidablePred constraints] : Except ColumnError α := do
  let row ← columns
  ensure (constraints row) .integrity
  pure row

/-! ### Rows -/

/-- A row of `backtest_results`. -/
structure BacktestResult (Amount : Type) where
  runId : String
  strategyId : Fin (2 ^ 128)
  strategyVersionId : Fin (2 ^ 128)
  strategyVersionNumber : ℤ
  strategyDefinitionHash : String
  «universe» : Json
  benchmark : Option Json
  timeframe : String
  parameters : Json
  executionAssumptions : Json
  data : BacktestDataReference
  startTime : ℤ
  endTime : ℤ
  initialCapital : Amount
  finalEquity : Amount
  metrics : BacktestMetrics Amount
  evaluatorId : String
  evaluatorRevision : String
  randomSeed : Option ℤ
  reproducibilityMetadata : Json
  resultHash : String
  generatedAt : ℤ

/-- `hashlib.sha256(text.encode("utf-8")).hexdigest()` -/
def hexdigest (text : String) : String := String.ofList (hexDigits 64 (Sha256.sha256 (Sha256.utf8 text)))

/-- `CanonicalStrategyDefinition.definition_hash` -/
def definitionHash (d : CanonicalStrategyDefinition) : String := hexdigest d.canonicalJson

/-- `_build_result_model` -/
def buildResultModel (r : CanonicalBacktestResult) (runId resultHash : String) : BacktestResult Dec :=
  let resultInput := r.input.fields
  let strategy := r.strategy
  let definition := strategy.definition
  { runId := runId
    strategyId := strategy.strategyId
    strategyVersionId := strategy.strategyVersionId
    strategyVersionNumber := strategy.strategyVersionNumber
    strategyDefinitionHash := strategy.strategyDefinitionHash
    «universe» := .arr (definition.universe.map (·.modelDump))
    benchmark := definition.benchmark.map (·.modelDump)
    timeframe := definition.timeframe.value
    parameters := definition.parameters.modelDump
    executionAssumptions := definition.execution.modelDump
    data := resultInput.data
    startTime := resultInput.startTime
    endTime := resultInput.endTime
    initialCapital := resultInput.initialCapital
    finalEquity := resultInput.finalEquity
    metrics := resultInput.metrics
    evaluatorId := resultInput.reproducibility.evaluatorId
    evaluatorRevision := resultInput.reproducibility.evaluatorRevision
    randomSeed := resultInput.reproducibility.randomSeed
    reproducibilityMetadata := resultInput.reproducibility.modelDump
    resultHash := resultHash
    generatedAt := resultInput.generatedAt }

/-- `^[0-9a-f]{64}$` -/
def IsHexDigest (s : String) : Prop := s.length = 64 ∧ ∀ c ∈ s.toList, c.isDigit ∨ 'a' ≤ c ∧ c ≤ 'f'

instance (s : String) : Decidable (IsHexDigest s) :=
  have : Decidable (∀ c ∈ s.toList, c.isDigit ∨ 'a' ≤ c ∧ c ≤ 'f') := List.decidableBAll _ _
  inferInstanceAs (Decidable (_ ∧ _))

def BacktestDataReference.columns (r : BacktestDataReference) : Except ColumnError BacktestDataReference := do
  let source ← textColumn 128 r.source
  let version ← textColumn 256 r.version
  let coverageFingerprint ← nullable (textColumn 256) r.coverageFingerprint
  pure { source, version, coverageFingerprint }

def BacktestMetrics.columns (m : BacktestMetrics Dec) : Except ColumnError (BacktestMetrics ℚ) := do
  let totalReturn ← nullable ratioColumn m.totalReturn
  let maxDrawdown ← nullable ratioColumn m.maxDrawdown
  let annualizedVolatility ← nullable ratioColumn m.annualizedVolatility
  let sharpeRatio ← nullable ratioColumn m.sharpeRatio
  let sortinoRatio ← nullable ratioColumn m.sortinoRatio
  let calmarRatio ← nullable ratioColumn m.calmarRatio
  let valueAtRisk ← nullable ratioColumn m.valueAtRisk
  let exposure ← ratioColumn m.exposure
  let benchmarkReturn ← nullable ratioColumn m.benchmarkReturn
  let benchmarkExcessReturn ← nullable ratioColumn m.benchmarkExcessReturn
  let tradeCount ← integerColumn m.tradeCount
  let winningTradeCount ← integerColumn m.winningTradeCount
  let losingTradeCount ← integerColumn m.losingTradeCount
  let breakevenTradeCount ← integerColumn m.breakevenTradeCount
  let feesPaid ← amountColumn m.feesPaid
  let slippagePaid ← amountColumn m.slippagePaid
  pure { totalReturn, maxDrawdown, annualizedVolatility, sharpeRatio, sortinoRatio, calmarRatio,
         valueAtRisk, exposure, benchmarkReturn, benchmarkExcessReturn, tradeCount,
         winningTradeCount, losingTradeCount, breakevenTradeCount, feesPaid, slippagePaid }

/-- The CHECK constraints of `backtest_results`. -/
def BacktestResult.Checks (row : BacktestResult ℚ) : Prop :=
  IsHexDigest row.runId ∧ IsHexDigest row.resultHash ∧ row.startTime < row.endTime ∧
    0 < row.initialCapital ∧ 0 < row.finalEquity ∧
    (0 ≤ row.metrics.exposure ∧ row.metrics.exposure ≤ 1) ∧
    (∀ q ∈ row.metrics.maxDrawdown, 0 ≤ q ∧ q ≤ 1) ∧
    (0 ≤ row.metrics.tradeCount ∧ 0 ≤ row.metrics.winningTradeCount ∧
      0 ≤ row.metrics.losingTradeCount ∧ 0 ≤ row.metrics.breakevenTradeCount) ∧
    row.metrics.winningTradeCount + row.metrics.losingTradeCount + row.metrics.breakevenTradeCount =
      row.metrics.tradeCount ∧
    0 ≤ row.metrics.feesPaid ∧ 0 ≤ row.metrics.slippagePaid

instance (row : BacktestResult ℚ) : Decidable row.Checks := by
  unfold BacktestResult.Checks; infer_instance

def BacktestResult.columns (row : BacktestResult Dec) : Except ColumnError (BacktestResult ℚ) := do
  let runId ← textColumn 64 row.runId
  let strategyVersionNumber ← integerColumn row.strategyVersionNumber
  let strategyDefinitionHash ← textColumn 64 row.strategyDefinitionHash
  let «universe» ← jsonColumn row.universe
  let benchmark ← nullable jsonColumn row.benchmark
  let timeframe ← textColumn 16 row.timeframe
  let parameters ← jsonColumn row.parameters
  let executionAssumptions ← jsonColumn row.executionAssumptions
  let data ← row.data.columns
  let initialCapital ← amountColumn row.initialCapital
  let finalEquity ← amountColumn row.finalEquity
  let metrics ← row.metrics.columns
  let evaluatorId ← textColumn 128 row.evaluatorId
  let evaluatorRevision ← textColumn 256 row.evaluatorRevision
  let randomSeed ← nullable integerColumn row.randomSeed
  let reproducibilityMetadata ← jsonColumn row.reproducibilityMetadata
  let resultHash ← textColumn 64 row.resultHash
  pure { row with runId, strategyVersionNumber, strategyDefinitionHash, «universe», benchmark, timeframe,
                  parameters, executionAssumptions, data, initialCapital, finalEquity, metrics,
                  evaluatorId, evaluatorRevision, randomSeed, reproducibilityMetadata, resultHash }

/-- The primary key and the foreign key of `backtest_results`. -/
def BacktestResult.Keys (refs : References) (row : BacktestResult ℚ) : Prop :=
  refs.recorded row.runId = false ∧ refs.version row.strategyVersionId row.strategyId = true

instance (refs : References) (row : BacktestResult ℚ) : Decidable (row.Keys refs) :=
  inferInstanceAs (Decidable (_ ∧ _))

def BacktestResult.insert (refs : References) (row : BacktestResult Dec) :
    Except ColumnError (BacktestResult ℚ) :=
  insertRow row.columns fun stored => stored.Checks ∧ stored.Keys refs

abbrev StoredTrade := BacktestTrade ℚ ℤ Json
abbrev StoredSignal := BacktestSignal ℤ Json

/-- The CHECK constraints of `backtest_trades`. -/
def StoredTrade.Checks (t : StoredTrade) : Prop :=
  0 < t.sequence ∧ t.direction ≠ .flat ∧ t.entryTime ≤ t.exitTime ∧
    (0 < t.entryPrice ∧ 0 < t.exitPrice ∧ 0 < t.quantity) ∧ 0 ≤ t.feesPaid ∧ 0 ≤ t.slippagePaid

instance (t : StoredTrade) : Decidable t.Checks := by unfold StoredTrade.Checks; infer_instance

def Trade.columns (t : Trade) : Except ColumnError StoredTrade := do
  let sequence ← integerColumn t.sequence
  let assetId ← integerColumn t.assetId
  let entryPrice ← amountColumn t.entryPrice
  let exitPrice ← amountColumn t.exitPrice
  let quantity ← amountColumn t.quantity
  let grossPnl ← amountColumn t.grossPnl
  let netPnl ← amountColumn t.netPnl
  let feesPaid ← amountColumn t.feesPaid
  let slippagePaid ← amountColumn t.slippagePaid
  let entrySignalId ← nullable (textColumn 64) t.entrySignalId
  let exitSignalId ← nullable (textColumn 64) t.exitSignalId
  let metadata ← jsonColumn t.metadata.modelDump
  pure { sequence, assetId, direction := t.direction, entryTime := t.entryTime, exitTime := t.exitTime,
         entryPrice, exitPrice, quantity, grossPnl, netPnl, feesPaid, slippagePaid, entrySignalId,
         exitSignalId, metadata }

def Trade.insert (refs : References) (t : Trade) : Except ColumnError StoredTrade :=
  insertRow (Trade.columns t) fun stored => stored.Checks ∧ refs.asset stored.assetId = true

/-- The CHECK constraints of `backtest_signals`; the enumerations are the types of their columns. -/
def StoredSignal.Checks (s : StoredSignal) : Prop := 0 < s.sequence ∧ s.eventTime ≤ s.observedAt

instance (s : StoredSignal) : Decidable s.Checks := by unfold StoredSignal.Checks; infer_instance

def Signal.columns (s : Signal) : Except ColumnError StoredSignal := do
  let sequence ← integerColumn s.sequence
  let assetId ← integerColumn s.assetId
  let signalId ← nullable (textColumn 64) s.signalId
  let payload ← jsonColumn s.payload.modelDump
  pure { sequence, assetId, eventType := s.eventType, eventTime := s.eventTime, observedAt := s.observedAt,
         signalId, positionState := s.positionState, payload }

def Signal.insert (refs : References) (s : Signal) : Except ColumnError StoredSignal :=
  insertRow (Signal.columns s) fun stored => stored.Checks ∧ refs.asset stored.assetId = true

def insertEach {α β : Type} (insert : α → Except ColumnError β) : List α → Except ColumnError (List β)
  | [] => .ok []
  | a :: rest => do
    let b ← insert a
    let others ← insertEach insert rest
    pure (b :: others)

/-- The rows of a run. -/
structure ResultRows where
  result : BacktestResult ℚ
  trades : List StoredTrade
  signals : List StoredSignal

/-- `_add_result_rows` and the flush: the result first, then its trades and signals in the order of
their sequences, which are their keys in the run. -/
def insertRows (refs : References) (r : CanonicalBacktestResult) : Except ColumnError ResultRows := do
  let result ← (buildResultModel r r.runId r.resultHash).insert refs
  let trades ← insertEach (Trade.insert refs)
    (r.input.fields.trades.insertionSort fun t u => t.sequence ≤ u.sequence)
  ensure (trades.map (·.sequence)).Nodup .integrity
  let signals ← insertEach (Signal.insert refs)
    (r.input.fields.signals.insertionSort fun s t => s.sequence ≤ t.sequence)
  ensure (signals.map (·.sequence)).Nodup .integrity
  pure { result, trades, signals }

/-! ### References of a result to its strategy -/

inductive ReferenceError where
  | tradeOutsideUniverse (sequence : ℤ)
  | tradeUnknownSignal (sequence : ℤ) (signalId : String)
  | signalOutsideUniverse (sequence : ℤ)
  | signalUnknownSignal (sequence : ℤ) (signalId : String)
  deriving DecidableEq

/-- A loop that raises. -/
def checkEach {α : Type} (check : α → Except ReferenceError Unit) : List α → Except ReferenceError Unit
  | [] => .ok ()
  | a :: rest => do
    check a
    checkEach check rest

/-- `_validate_forensic_references` -/
def validateForensicReferences (r : CanonicalBacktestResult) : Except ReferenceError Unit := do
  let definition := r.strategy.definition
  let universeAssetIds := definition.universe.map fun instrument => (instrument.assetId : ℤ)
  let signalIds := definition.signals.map (·.signalId)
  let known := fun (e : String → ReferenceError) (signalId : String) =>
    if signalId ∈ signalIds then .ok () else .error (e signalId)
  checkEach (fun trade => do
    if trade.assetId ∈ universeAssetIds then
      checkEach (known (.tradeUnknownSignal trade.sequence))
        (trade.entrySignalId.toList ++ trade.exitSignalId.toList)
    else .error (.tradeOutsideUniverse trade.sequence)) r.input.fields.trades
  checkEach (fun signal => do
    if signal.assetId ∈ universeAssetIds then
      checkEach (known (.signalUnknownSignal signal.sequence)) signal.signalId.toList
    else .error (.signalOutsideUniverse signal.sequence)) r.input.fields.signals

end Quantive.Backtests
