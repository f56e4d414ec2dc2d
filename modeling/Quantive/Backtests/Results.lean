import Quantive.Backtests.Contracts
import Quantive.Clock
import Quantive.Sha256
import Quantive.Strategies.Contracts

/-!
# Backtest results

`backtests/contracts.py`: what an evaluator submits, its validation, and the two payloads whose
hashes identify a run and its result. A model has its values as parameters, `Amount` for a
`Decimal`, `Time` for a datetime and `Object` for a dict, since it is first submitted and then
validated. Of several errors the first one is shown.
-/

namespace Quantive.Backtests
open LiveStrategy (SignalDirection StrategyEventType)
open Strategies (PyKey PyValue JsonObject strip)

inductive InputError where
  /-- A `ValueError`, which pydantic collects. -/
  | value (message : String)
  /-- `decimal.Overflow` -/
  | decimalOverflow
  /-- The `OverflowError` of a date out of range. -/
  | dateOverflow
  deriving DecidableEq

/-- A check that raises `ValueError`. -/
def refuse (bad : Prop) [Decidable bad] (message : String) : Except InputError Unit :=
  if bad then .error (.value message) else .ok ()

/-- The first item that a loop raises on. -/
def refuseFirst {α : Type} (bad : α → Bool) (message : α → String) (items : List α) :
    Except InputError Unit :=
  match items.find? bad with
  | some item => .error (.value (message item))
  | none => .ok ()

/-! ### Submitted values -/

/-- `datetime.min` and `datetime.max`. -/
def firstInstant : ℤ := -719162 * day
def lastInstant : ℤ := 2932897 * day - 1

/-- A `datetime`: its wall clock, read as if it were UTC, and its `utcoffset()`. -/
structure PyDatetime where
  wallClock : ℤ
  utcoffset : Option ℤ := some 0
  inRange : firstInstant ≤ wallClock ∧ wallClock ≤ lastInstant := by decide
  withinDay : ∀ offset ∈ utcoffset, -day < offset ∧ offset < day := by decide

structure PyDict where
  fields : List (PyKey × PyValue) := []
  wellFormed : (PyValue.dict fields).WellFormed

/-! ### Fields -/

/-- `_normalize_utc`, `contracts.py:36-39`. -/
def normalizeUtc (fieldName : String) (value : PyDatetime) : Except InputError ℤ :=
  match value.utcoffset with
  | none => .error (.value (fieldName ++ " must be timezone-aware"))
  | some offset =>
    if firstInstant ≤ value.wallClock - offset ∧ value.wallClock - offset ≤ lastInstant then
      .ok (value.wallClock - offset)
    else .error .dateOverflow

/-- A constraint of `Field`. -/
inductive Bound where
  | gt (n : ℤ)
  | ge (n : ℤ)
  | le (n : ℤ)

def Bound.excludes (q : ℚ) : Bound → Bool
  | gt n => q ≤ n
  | ge n => q < n
  | le n => n < q

def Bound.message : Bound → String
  | gt n => "Input should be greater than " ++ toString n
  | ge n => "Input should be greater than or equal to " ++ toString n
  | le n => "Input should be less than or equal to " ++ toString n

def checkBounds (bounds : List Bound) (q : ℚ) : Except InputError Unit :=
  refuseFirst (·.excludes q) Bound.message bounds

/-- A `Decimal` field of `NUMERIC(24, decimalPlaces)`: its constraints, then its validator. -/
def decimalField (decimalPlaces : ℕ) (bounds : List Bound) (fieldName : String) :
    PyDecimal → Except InputError Dec
  | .nonFinite => .error (.value "Input should be a finite number")
  | .finite d => do
    checkBounds bounds d.value
    match normalizeDecimal (.finite d) fieldName 24 decimalPlaces with
    | .ok normalized => pure normalized
    | .error .overflow => throw .decimalOverflow
    | .error (.value message) => throw (.value message)

def ratioField := decimalField 12
def amountField := decimalField 8

def intField (bounds : List Bound) (n : ℤ) : Except InputError ℤ := do
  checkBounds bounds n
  pure n

def checkLength (maxLength : ℕ) (s : String) : Except InputError Unit := do
  refuse (s = "") "String should have at least 1 character"
  refuse (maxLength < s.length) ("String should have at most " ++ toString maxLength ++ " characters")

/-- `normalize_reference_text` and `normalize_evaluator_text`. -/
def textField (maxLength : ℕ) (blank : String) (s : String) : Except InputError String := do
  checkLength maxLength s
  refuse (strip s = "") blank
  pure (strip s)

/-- `normalize_signal_id` -/
def signalIdField (s : String) : Except InputError String := do
  checkLength 64 s
  pure (strip s)

def objectField (path : String) (o : PyDict) : Except InputError JsonObject :=
  match JsonObject.validate path o.fields o.wellFormed with
  | .ok object => .ok object
  | .error message => .error (.value message)

def optionalField {α β : Type} (field : α → Except InputError β) :
    Option α → Except InputError (Option β)
  | none => .ok none
  | some a => (field a).map some

/-- The items of a tuple. -/
def eachItem {α β : Type} (item : α → Except InputError β) : List α → Except InputError (List β)
  | [] => .ok []
  | a :: rest => do
    let b ← item a
    let others ← eachItem item rest
    pure (b :: others)

/-! ### Models -/

structure BacktestDataReference where
  source : String
  version : String
  coverageFingerprint : Option String := none
  deriving DecidableEq

def BacktestDataReference.validate (r : BacktestDataReference) :
    Except InputError BacktestDataReference := do
  let blank := "data reference fields cannot be blank"
  let source ← textField 128 blank r.source
  let version ← textField 256 blank r.version
  let coverageFingerprint ← optionalField (textField 256 blank) r.coverageFingerprint
  pure { source, version, coverageFingerprint }

structure ReproducibilityMetadata (Object : Type) where
  evaluatorId : String
  evaluatorRevision : String
  randomSeed : Option ℤ := none
  runtimeConfig : Object

def ReproducibilityMetadata.validate (r : ReproducibilityMetadata PyDict) :
    Except InputError (ReproducibilityMetadata JsonObject) := do
  let blank := "evaluator fields cannot be blank"
  let evaluatorId ← textField 128 blank r.evaluatorId
  let evaluatorRevision ← textField 256 blank r.evaluatorRevision
  let runtimeConfig ← objectField "reproducibility.runtime_config" r.runtimeConfig
  pure { evaluatorId, evaluatorRevision, randomSeed := r.randomSeed, runtimeConfig }

structure BacktestMetrics (Amount : Type) where
  totalReturn : Option Amount := none
  maxDrawdown : Option Amount := none
  annualizedVolatility : Option Amount := none
  sharpeRatio : Option Amount := none
  sortinoRatio : Option Amount := none
  calmarRatio : Option Amount := none
  valueAtRisk : Option Amount := none
  exposure : Amount
  benchmarkReturn : Option Amount := none
  benchmarkExcessReturn : Option Amount := none
  tradeCount : ℤ
  winningTradeCount : ℤ
  losingTradeCount : ℤ
  breakevenTradeCount : ℤ
  feesPaid : Amount
  slippagePaid : Amount

def BacktestMetrics.validate (m : BacktestMetrics PyDecimal) :
    Except InputError (BacktestMetrics Dec) := do
  let totalReturn ← optionalField (ratioField [] "total_return") m.totalReturn
  let maxDrawdown ← optionalField (ratioField [.ge 0, .le 1] "max_drawdown") m.maxDrawdown
  let annualizedVolatility ←
    optionalField (ratioField [.ge 0] "annualized_volatility") m.annualizedVolatility
  let sharpeRatio ← optionalField (ratioField [] "sharpe_ratio") m.sharpeRatio
  let sortinoRatio ← optionalField (ratioField [] "sortino_ratio") m.sortinoRatio
  let calmarRatio ← optionalField (ratioField [] "calmar_ratio") m.calmarRatio
  let valueAtRisk ← optionalField (ratioField [] "value_at_risk") m.valueAtRisk
  let exposure ← ratioField [.ge 0, .le 1] "exposure" m.exposure
  let benchmarkReturn ← optionalField (ratioField [] "benchmark_return") m.benchmarkReturn
  let benchmarkExcessReturn ←
    optionalField (ratioField [] "benchmark_excess_return") m.benchmarkExcessReturn
  let tradeCount ← intField [.ge 0] m.tradeCount
  let winningTradeCount ← intField [.ge 0] m.winningTradeCount
  let losingTradeCount ← intField [.ge 0] m.losingTradeCount
  let breakevenTradeCount ← intField [.ge 0] m.breakevenTradeCount
  let feesPaid ← amountField [.ge 0] "fees_paid" m.feesPaid
  let slippagePaid ← amountField [.ge 0] "slippage_paid" m.slippagePaid
  refuse (winningTradeCount + losingTradeCount + breakevenTradeCount ≠ tradeCount)
    "win/loss/breakeven counts must equal trade_count"
  pure { totalReturn, maxDrawdown, annualizedVolatility, sharpeRatio, sortinoRatio, calmarRatio,
         valueAtRisk, exposure, benchmarkReturn, benchmarkExcessReturn, tradeCount,
         winningTradeCount, losingTradeCount, breakevenTradeCount, feesPaid, slippagePaid }

structure BacktestTrade (Amount Time Object : Type) where
  sequence : ℤ
  assetId : ℤ
  direction : SignalDirection
  entryTime : Time
  exitTime : Time
  entryPrice : Amount
  exitPrice : Amount
  quantity : Amount
  grossPnl : Amount
  netPnl : Amount
  feesPaid : Amount
  slippagePaid : Amount
  entrySignalId : Option String := none
  exitSignalId : Option String := none
  metadata : Object

abbrev SubmittedTrade := BacktestTrade PyDecimal PyDatetime PyDict
abbrev Trade := BacktestTrade Dec ℤ JsonObject

def SubmittedTrade.validate (t : SubmittedTrade) : Except InputError Trade := do
  let sequence ← intField [.ge 1] t.sequence
  let assetId ← intField [.gt 0] t.assetId
  refuse (t.direction = .flat) "trades must have long or short direction"
  let entryTime ← normalizeUtc "entry_time" t.entryTime
  let exitTime ← normalizeUtc "exit_time" t.exitTime
  let entryPrice ← amountField [.gt 0] "entry_price" t.entryPrice
  let exitPrice ← amountField [.gt 0] "exit_price" t.exitPrice
  let quantity ← amountField [.gt 0] "quantity" t.quantity
  let grossPnl ← amountField [] "gross_pnl" t.grossPnl
  let netPnl ← amountField [] "net_pnl" t.netPnl
  let feesPaid ← amountField [.ge 0] "fees_paid" t.feesPaid
  let slippagePaid ← amountField [.ge 0] "slippage_paid" t.slippagePaid
  let entrySignalId ← optionalField signalIdField t.entrySignalId
  let exitSignalId ← optionalField signalIdField t.exitSignalId
  let metadata ← objectField "trade.metadata" t.metadata
  refuse (exitTime < entryTime) "exit_time cannot precede entry_time"
  pure { sequence, assetId, direction := t.direction, entryTime, exitTime, entryPrice, exitPrice,
         quantity, grossPnl, netPnl, feesPaid, slippagePaid, entrySignalId, exitSignalId, metadata }

structure BacktestSignal (Time Object : Type) where
  sequence : ℤ
  assetId : ℤ
  eventType : StrategyEventType
  eventTime : Time
  observedAt : Time
  signalId : Option String := none
  positionState : Option SignalDirection := none
  payload : Object

abbrev SubmittedSignal := BacktestSignal PyDatetime PyDict
abbrev Signal := BacktestSignal ℤ JsonObject

/-- `validate_signal_shape` -/
def Signal.validateShape (s : Signal) : Except InputError Unit := do
  refuse (s.observedAt < s.eventTime) "observed_at cannot precede event_time"
  refuse (s.eventType = .signal ∧ s.signalId = none) "signal events require signal_id"
  refuse (s.eventType = .entry ∧ (s.signalId = none ∨
      ¬ (s.positionState = some .long ∨ s.positionState = some .short)))
    "entry events require signal_id and long or short position_state"
  refuse (s.eventType = .exit ∧ s.positionState ≠ some .flat)
    "exit events require flat position_state"
  refuse (s.eventType = .position ∧ s.positionState = none) "position events require position_state"

def SubmittedSignal.validate (s : SubmittedSignal) : Except InputError Signal := do
  let sequence ← intField [.ge 1] s.sequence
  let assetId ← intField [.gt 0] s.assetId
  let eventTime ← normalizeUtc "event_time" s.eventTime
  let observedAt ← normalizeUtc "observed_at" s.observedAt
  let signalId ← optionalField signalIdField s.signalId
  let payload ← objectField "signal.payload" s.payload
  let signal : Signal := { sequence, assetId, eventType := s.eventType, eventTime, observedAt, signalId,
                           positionState := s.positionState, payload }
  signal.validateShape
  pure signal

/-! ### Results -/

/-- The fields of `BacktestResultInput`. -/
structure ResultFields (Amount Time Object : Type) where
  strategyVersionId : Fin (2 ^ 128)
  data : BacktestDataReference
  startTime : Time
  endTime : Time
  initialCapital : Amount
  finalEquity : Amount
  metrics : BacktestMetrics Amount
  trades : List (BacktestTrade Amount Time Object) := []
  signals : List (BacktestSignal Time Object) := []
  generatedAt : Time
  reproducibility : ReproducibilityMetadata Object

abbrev SubmittedResult := ResultFields PyDecimal PyDatetime PyDict

def maxBacktestTrades : ℕ := 10000
def maxBacktestSignals : ℕ := 20000

def checkItems (limit count : ℕ) : Except InputError Unit :=
  refuse (limit < count)
    ("Tuple should have at most " ++ toString limit ++ " items after validation")

def SubmittedResult.normalize (r : SubmittedResult) : Except InputError (ResultFields Dec ℤ JsonObject) := do
  let data ← r.data.validate
  let startTime ← normalizeUtc "start_time" r.startTime
  let endTime ← normalizeUtc "end_time" r.endTime
  let initialCapital ← amountField [.gt 0] "initial_capital" r.initialCapital
  let finalEquity ← amountField [.gt 0] "final_equity" r.finalEquity
  let metrics ← r.metrics.validate
  checkItems maxBacktestTrades r.trades.length
  let trades ← eachItem SubmittedTrade.validate r.trades
  checkItems maxBacktestSignals r.signals.length
  let signals ← eachItem SubmittedSignal.validate r.signals
  let generatedAt ← normalizeUtc "generated_at" r.generatedAt
  let reproducibility ← r.reproducibility.validate
  pure { strategyVersionId := r.strategyVersionId, data, startTime, endTime, initialCapital, finalEquity,
         metrics, trades, signals, generatedAt, reproducibility }

/-- `sum(…, Decimal("0"))`, every addition in the default context. -/
def decimalSum (amounts : List Dec) : Except InputError ℚ :=
  match amounts.foldlM (fun total amount => Decimal.fix (total + amount.value)) 0 with
  | some total => .ok total
  | none => .error .decimalOverflow

def feesOf (trades : List Trade) : List Dec := trades.map (·.feesPaid)
def slippageOf (trades : List Trade) : List Dec := trades.map (·.slippagePaid)

/-- The outcomes of the trades: winning, losing, breakeven. -/
def outcomes (trades : List Trade) : ℤ × ℤ × ℤ :=
  (trades.countP fun t => 0 < t.netPnl.value, trades.countP fun t => t.netPnl.value < 0,
    trades.countP fun t => t.netPnl.value = 0)

/-- `validate_result_consistency`, `contracts.py:305-346`. -/
def validateResultConsistency (r : ResultFields Dec ℤ JsonObject) : Except InputError Unit := do
  refuse (r.endTime ≤ r.startTime) "end_time must be after start_time"
  refuse (¬ (r.trades.map (·.sequence)).Nodup) "trade sequences must be unique within a result"
  refuse (¬ (r.signals.map (·.sequence)).Nodup) "signal sequences must be unique within a result"
  refuse (r.metrics.tradeCount ≠ r.trades.length)
    "trade_count must equal the number of persisted trades"
  refuseFirst (fun t => t.entryTime < r.startTime ∨ r.endTime < t.exitTime)
    (fun t => "trade " ++ toString t.sequence ++ " must be wholly contained in the backtest data window")
    r.trades
  refuseFirst (fun s => ¬ (r.startTime ≤ s.eventTime ∧ s.eventTime ≤ r.endTime))
    (fun s => "signal " ++ toString s.sequence ++
      " event_time must be contained in the backtest data window") r.signals
  let feesPaid ← decimalSum (feesOf r.trades)
  let slippagePaid ← decimalSum (slippageOf r.trades)
  refuse (r.metrics.feesPaid.value ≠ feesPaid) "fees_paid must equal the sum of persisted trade fees"
  refuse (r.metrics.slippagePaid.value ≠ slippagePaid)
    "slippage_paid must equal the sum of persisted trade slippage"
  refuse ((r.metrics.winningTradeCount, r.metrics.losingTradeCount, r.metrics.breakevenTradeCount) ≠
    outcomes r.trades) "win/loss statistics must match persisted trade net_pnl values"

/-- A validated result. -/
structure BacktestResultInput where
  fields : ResultFields Dec ℤ JsonObject
  consistent : validateResultConsistency fields = .ok ()

def BacktestResultInput.validate (r : SubmittedResult) : Except InputError BacktestResultInput := do
  let fields ← r.normalize
  match consistent : validateResultConsistency fields with
  | .ok () => pure ⟨fields, consistent⟩
  | .error e => throw e

end Quantive.Backtests
