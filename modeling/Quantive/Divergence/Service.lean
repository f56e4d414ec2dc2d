import Quantive.Divergence.Compare
import Quantive.LiveStrategy.Service

/-!
# The comparison service

`services/strategy_comparison.py`: the queries for the evidence of a window and `_build_input`.
A uuid is the number of its 128 bits; rows come in any order, as a table has them.
-/

namespace Quantive.Divergence

open LiveStrategy (PositionState StrategyEventType LiveEvaluationStatus)

/-! ### Rows -/

structure ActivationRow where
  id : ℕ
  identity : StrategyVersionIdentity
  configurationHash : String

structure BacktestResult where
  runId : String
  identity : StrategyVersionIdentity
  resultHash : String
  dataSource : String
  dataVersion : String
  dataCoverageFingerprint : Option String
  startTime : ℤ
  endTime : ℤ
  totalReturn : Option ℚ
  maxDrawdown : Option ℚ
  annualizedVolatility : Option ℚ
  tradeCount : ℕ
  winningTradeCount : ℕ
  benchmarkReturn : Option ℚ

structure BacktestSignalRecord where
  runId : String
  sequence : ℕ
  assetId : ℕ
  eventType : StrategyEventType
  eventTime : ℤ
  signalId : Option String
  positionState : Option PositionState

structure BacktestTrade where
  runId : String
  sequence : ℕ
  assetId : ℕ
  direction : ExecutionDirection
  entryTime : ℤ
  exitTime : ℤ
  entryPrice : ℚ
  exitPrice : ℚ
  quantity : ℚ
  entrySignalId : Option String
  exitSignalId : Option String

structure LiveEventRow where
  id : ℕ
  activationId : ℕ
  assetId : ℕ
  eventType : StrategyEventType
  eventTime : ℤ
  signalId : String
  positionState : PositionState

structure ObservationRow where
  id : ℕ
  activationId : ℕ
  assetId : ℕ
  candleTimestamp : ℤ
  evaluationAttempt : ℕ
  status : LiveEvaluationStatus
  errorCode : Option String
  errorMessage : Option String

structure StateRow where
  activationId : ℕ
  assetId : ℕ
  lastCandleTimestamp : Option ℤ

structure ComparisonRows where
  backtestSignals : List BacktestSignalRecord := []
  backtestTrades : List BacktestTrade := []
  liveEvents : List LiveEventRow := []
  observations : List ObservationRow := []
  states : List StateRow := []

structure ComparisonSupplement where
  policy : ComparisonPolicy
  windowStart : ℤ
  windowEnd : ℤ
  observedComplete : Bool := false
  expectedConfigurationHash : Option String := none
  referenceCandles : List CandlePoint := []
  observedCandles : List CandlePoint := []
  observedExecutions : List ExecutionPoint := []
  observedPositions : List PositionPoint := []
  observedPerformance : Option PerformancePoint := none
  observedSource : Document := []
  validWindow : windowStart < windowEnd := by decide

/-- What `_build_input` may raise: the limit of `_bounded_rows` or a pydantic error. -/
inductive BuildError where
  | tooManyRecords (limit : ℕ)
  | validation
  deriving DecidableEq, Repr

/-! ### Texts -/

def hexadecimal (width n : ℕ) : List Char := (Nat.toDigits 16 n).leftpad width '0'

/-- `str(uuid)` -/
def uuidText (n : ℕ) : String :=
  let h := hexadecimal 32 n
  String.ofList (h.take 8 ++ '-' :: (h.drop 8).take 4 ++ '-' :: (h.drop 12).take 4 ++
    '-' :: (h.drop 16).take 4 ++ '-' :: h.drop 20)

def unicodeEscape (n : ℕ) : List Char := '\\' :: 'u' :: hexadecimal 4 n

/-- A character as `json.dumps` writes it. -/
def jsonChar (c : Char) : List Char :=
  if c = '"' then ['\\', '"']
  else if c = '\\' then ['\\', '\\']
  else if c = '\n' then ['\\', 'n']
  else if c = '\r' then ['\\', 'r']
  else if c = '\t' then ['\\', 't']
  else if c.toNat = 8 then ['\\', 'b']
  else if c.toNat = 12 then ['\\', 'f']
  else if 32 ≤ c.toNat ∧ c.toNat < 127 then [c]
  else if c.toNat < 65536 then unicodeEscape c.toNat
  else
    let n := c.toNat - 65536
    unicodeEscape (55296 + n / 1024) ++ unicodeEscape (56320 + n % 1024)

def jsonString (s : String) : String := String.ofList ('"' :: s.toList.flatMap jsonChar ++ ['"'])

def jsonOptional : Option String → String
  | some s => jsonString s
  | none => "null"

/-- `LiveEvaluationStatus.value` -/
def statusValue : LiveEvaluationStatus → String
  | .evaluated => "evaluated"
  | .duplicate => "duplicate"
  | .outOfOrder => "out_of_order"
  | .gapDetected => "gap_detected"
  | .invalid => "invalid"
  | .error => "error"

/-! ### Queries -/

section
variable (limit : ℕ) (rows : ComparisonRows) (supplement : ComparisonSupplement)

/-- `_bounded_rows` -/
def boundedRows {α : Type} (records : List α) : Except BuildError (List α) :=
  if limit < records.length then .error (.tooManyRecords limit) else .ok records

def ComparisonSupplement.contains (t : ℤ) : Bool :=
  supplement.windowStart ≤ t && t ≤ supplement.windowEnd

/-- A pydantic model of values that may not pass its checks. -/
def validated {α : Type} {p : Prop} [Decidable p] (build : p → α) : Except BuildError α :=
  if h : p then .ok (build h) else .error .validation

def signalPoint (assetId : ℕ) (eventType : StrategyEventType) (eventTime : ℤ)
    (signalId : Option String) (positionState : Option PositionState) (sourceId : String) :
    Except BuildError SignalPoint :=
  validated fun valid =>
    { assetId, eventType, eventTime, signalId, positionState, sourceId := some sourceId, valid }

/-- The rows of `_backtest_signals`. -/
def backtestSignalRows (runId : String) : List BacktestSignalRecord :=
  (rows.backtestSignals.filter fun r => r.runId = runId && supplement.contains r.eventTime).insertionSort
    fun r s => r.eventTime < s.eventTime ∨ r.eventTime = s.eventTime ∧ r.sequence ≤ s.sequence

def backtestSignal (runId : String) (r : BacktestSignalRecord) : Except BuildError SignalPoint :=
  signalPoint r.assetId r.eventType r.eventTime r.signalId r.positionState
    ("backtest:" ++ runId ++ ":" ++ toString r.sequence)

/-- `_backtest_signals` -/
def backtestSignals (runId : String) : Except BuildError (List SignalPoint) := do
  let records ← boundedRows limit (backtestSignalRows rows supplement runId)
  records.mapM (backtestSignal runId)

/-- The rows of `_live_events`. -/
def liveEventRows (activationId : ℕ) : List LiveEventRow :=
  (rows.liveEvents.filter fun r =>
      r.activationId = activationId && supplement.contains r.eventTime).insertionSort
    fun r s => r.eventTime < s.eventTime ∨ r.eventTime = s.eventTime ∧ r.id ≤ s.id

def liveEvent (r : LiveEventRow) : Except BuildError SignalPoint :=
  signalPoint r.assetId r.eventType r.eventTime (some r.signalId) (some r.positionState)
    ("live-event:" ++ uuidText r.id)

/-- `_live_events` -/
def liveEvents (activationId : ℕ) : Except BuildError (List SignalPoint) := do
  let records ← boundedRows limit (liveEventRows rows supplement activationId)
  records.mapM liveEvent

/-- The observations of the window that are the latest attempts at their candles. -/
def latestObservations (activationId : ℕ) : List ObservationRow :=
  let window := rows.observations.filter fun o =>
    o.activationId = activationId && supplement.contains o.candleTimestamp
  window.filter fun o => window.all fun o' =>
    !(o'.assetId = o.assetId && o'.candleTimestamp = o.candleTimestamp) ||
      o'.evaluationAttempt ≤ o.evaluationAttempt

/-- `_live_observations` -/
def liveObservations (activationId : ℕ) : Except BuildError (List ObservationRow) :=
  boundedRows limit (((latestObservations rows supplement activationId).filter
      fun o => o.status ≠ .evaluated).insertionSort fun o o' =>
    o.candleTimestamp < o'.candleTimestamp ∨ o.candleTimestamp = o'.candleTimestamp ∧ o.id ≤ o'.id)

/-- A price or amount as the models normalize it. -/
def normalized (q : ℚ) : Except BuildError ℚ :=
  match Decimal.fix q with
  | some d => .ok d
  | none => .error .validation

def executionPoint (assetId : ℕ) (side : ExecutionSide) (direction : ExecutionDirection)
    (executionTime : ℤ) (price quantity : ℚ) (signalId : Option String) (sourceId : String) :
    Except BuildError ExecutionPoint := do
  let price ← normalized price
  let quantity ← normalized quantity
  validated fun (h : (0 < assetId ∧ 0 < price ∧ 0 < quantity ∧ AtMost 64 signalId ∧
      AtMost 128 (some sourceId)) ∧ IsDecimal price ∧ IsDecimal quantity) =>
    { assetId, side, direction, executionTime, price, quantity, signalId, sourceId := some sourceId
      valid := ⟨h.1.1, h.1.2.1, h.1.2.2.1, (fun _ hq => by cases hq), (fun _ hq => by cases hq),
        h.1.2.2.2.1, h.1.2.2.2.2⟩
      decimals := ⟨h.2.1, h.2.2, (fun _ hq => by cases hq), (fun _ hq => by cases hq)⟩ }

def fillInWindow (t : ℤ) (point : Except BuildError ExecutionPoint) :
    Except BuildError (List ExecutionPoint) :=
  if supplement.contains t then point.map fun p => [p] else pure []

/-- The fills of one trade that lie in the window. -/
def tradeExecutions (runId : String) (t : BacktestTrade) : Except BuildError (List ExecutionPoint) := do
  let source := "backtest:" ++ runId ++ ":" ++ toString t.sequence
  let entry ← fillInWindow supplement t.entryTime (executionPoint t.assetId .entry t.direction
    t.entryTime t.entryPrice t.quantity t.entrySignalId (source ++ ":entry"))
  let exit ← fillInWindow supplement t.exitTime (executionPoint t.assetId .exit t.direction
    t.exitTime t.exitPrice t.quantity t.exitSignalId (source ++ ":exit"))
  pure (entry ++ exit)

/-- `_backtest_executions` -/
def backtestExecutions (runId : String) : Except BuildError (List ExecutionPoint) := do
  let records ← boundedRows limit ((rows.backtestTrades.filter fun t => t.runId = runId &&
    (supplement.contains t.entryTime || supplement.contains t.exitTime)).insertionSort
      fun t t' => t.sequence ≤ t'.sequence)
  let fills ← records.mapM (tradeExecutions supplement runId)
  pure fills.flatten

/-- `_canonical_observed_coverage_complete` -/
def canonicalObservedCoverageComplete (activationId : ℕ) : Bool :=
  let states := rows.states.filter fun s => s.activationId = activationId
  !states.isEmpty &&
    states.all (fun s => s.lastCandleTimestamp.any (supplement.windowEnd ≤ ·)) &&
    states.all fun s => (latestObservations rows supplement activationId).any fun o =>
      o.status = .evaluated && o.assetId = s.assetId

/-- `_issue_from_observation` -/
def issueFromObservation (o : ObservationRow) : Option DataIssue :=
  let observed : Document := [("asset_id", toString o.assetId),
    ("error_code", jsonOptional o.errorCode), ("error_message", jsonOptional o.errorMessage),
    ("observation_id", jsonString (uuidText o.id)), ("status", jsonString (statusValue o.status))]
  if o.status = .gapDetected then
    some { divergenceType := .marketDataMissingCandle, timestamp := o.candleTimestamp, observed
           explanation := "Live evaluator detected a missing canonical candle; comparison remains incomplete." }
  else if o.status = .invalid ∧ o.errorCode = some "timestamp_not_aligned" then
    some { divergenceType := .marketDataTimestampMismatch, timestamp := o.candleTimestamp, observed
           explanation := "Live evaluator rejected a canonical candle timestamp as misaligned." }
  else if o.status = .invalid ∨ o.status = .error then
    some { divergenceType := .evaluatorFailure, timestamp := o.candleTimestamp, observed
           explanation := "Live evaluator recorded an invalid/error outcome; no causal attribution is made." }
  else none

def normalizedOption : Option ℚ → Except BuildError (Option ℚ)
  | none => pure none
  | some q => (normalized q).map some

/-- `_reference_performance` -/
def referencePerformance (reference : BacktestResult) : Except BuildError PerformancePoint := do
  let totalReturn ← normalizedOption reference.totalReturn
  let maxDrawdown ← normalizedOption reference.maxDrawdown
  let annualizedVolatility ← normalizedOption reference.annualizedVolatility
  let benchmarkReturn ← normalizedOption reference.benchmarkReturn
  validated fun (h : ((∀ q ∈ maxDrawdown, 0 ≤ q) ∧ ∀ q ∈ annualizedVolatility, 0 ≤ q) ∧
      (∀ o ∈ [totalReturn, maxDrawdown, annualizedVolatility, benchmarkReturn], ∀ q ∈ o, IsDecimal q) ∧
      reference.winningTradeCount ≤ reference.tradeCount) =>
    { totalReturn, maxDrawdown, annualizedVolatility, benchmarkReturn
      tradeCount := some reference.tradeCount, winningTradeCount := some reference.winningTradeCount
      nonnegative := h.1
      decimals := h.2.1
      winning := fun w hw n hn => by
        rw [← Option.some.inj hw, ← Option.some.inj hn]
        exact h.2.2 }

/-- The metrics of the reference when the window is the whole backtest. -/
def windowPerformance (reference : BacktestResult) : Except BuildError (Option PerformancePoint) :=
  if supplement.windowStart = reference.startTime ∧ supplement.windowEnd = reference.endTime then
    (referencePerformance reference).map some
  else pure none

def expectedPosition (p : SignalPoint) : Option PositionPoint :=
  p.positionState.map fun state =>
    { assetId := p.assetId, timestamp := p.eventTime, positionState := state
      valid := ⟨p.valid.1, fun _ hq => by cases hq⟩ }

/-- The position that an entry or an exit of the live log leaves. -/
def observedPosition (p : SignalPoint) : Option PositionPoint :=
  if p.eventType = .entry ∨ p.eventType = .exit then expectedPosition p else none

/-- The validators of `ComparisonInput`. -/
def checked (input : ComparisonInput) : Except BuildError ComparisonInput :=
  if input.Accepted then .ok input else .error .validation

/-- `_build_input` -/
def buildInput (activation : ActivationRow) (reference : BacktestResult) :
    Except BuildError ComparisonInput := do
  let expectedSignals ← backtestSignals limit rows supplement reference.runId
  let observedSignals ← liveEvents limit rows supplement activation.id
  let observations ← liveObservations limit rows supplement activation.id
  let observedIssues := observations.filterMap issueFromObservation
  let observedComplete := supplement.observedComplete && observedIssues.isEmpty &&
    canonicalObservedCoverageComplete rows supplement activation.id
  let observedPositions := if supplement.observedPositions ≠ [] then supplement.observedPositions
    else observedSignals.filterMap observedPosition
  let expectedExecutions ← backtestExecutions limit rows supplement reference.runId
  let expectedPerformance ← windowPerformance supplement reference
  let input : ComparisonInput :=
    { strategy := activation.identity
      referenceStrategy := reference.identity
      policy := supplement.policy
      windowStart := supplement.windowStart
      windowEnd := supplement.windowEnd
      referenceSource := [("backtest_run_id", jsonString reference.runId),
        ("data_coverage_fingerprint", jsonOptional reference.dataCoverageFingerprint),
        ("data_source", jsonString reference.dataSource),
        ("data_version", jsonString reference.dataVersion),
        ("result_hash", jsonString reference.resultHash)]
      observedSource := ([("activation_id", jsonString (uuidText activation.id)),
          ("configuration_hash", jsonString activation.configurationHash)].filter fun m =>
            m.1 ∉ supplement.observedSource.map Prod.fst) ++ supplement.observedSource
      referenceComplete := false
      observedComplete
      expectedConfigurationHash := supplement.expectedConfigurationHash
      observedConfigurationHash := some activation.configurationHash
      expectedSignals
      observedSignals
      expectedCandles := supplement.referenceCandles
      observedCandles := supplement.observedCandles
      expectedExecutions
      observedExecutions := supplement.observedExecutions
      expectedPositions := expectedSignals.filterMap expectedPosition
      observedPositions
      expectedPerformance
      observedPerformance := supplement.observedPerformance
      observedDataIssues := observedIssues }
  checked input

end

end Quantive.Divergence
