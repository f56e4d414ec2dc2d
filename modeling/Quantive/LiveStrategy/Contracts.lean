import Mathlib.Algebra.Order.Ring.Rat
import Mathlib.Data.List.Sort
import Quantive.Clock

/-!
# Strategy contracts and the threshold evaluator

`strategies/contracts.py` and `live_strategies/contracts.py`: the definition a live
runtime is bound to, the candles it reads, and the evaluation of one candle. A value
the pydantic models reject cannot be built: their checks are fields.
-/

namespace Quantive.LiveStrategy

/-- What a Python expression may raise; only `ValueError` is caught by the evaluator. -/
inductive Raised where
  | valueError (message : String)
  | typeError (message : String)
  | overflowError (message : String)
  deriving DecidableEq, Repr

def Raised.message : Raised → String
  | valueError m => m
  | typeError m => m
  | overflowError m => m

/-- JSON as it is stored: its numbers are finite. -/
inductive Json where
  | null
  | bool (b : Bool)
  | int (n : ℤ)
  | float (x : ℚ)
  | str (s : String)
  | array (items : List Json)
  | object (fields : List (String × Json))

inductive StrategyTimeframe where
  | oneMinute | fiveMinutes | fifteenMinutes | oneHour | fourHours | oneDay
  deriving DecidableEq, Repr

/-- `_TIMEFRAME_INTERVALS`. -/
def StrategyTimeframe.interval : StrategyTimeframe → ℤ
  | oneMinute => minute
  | fiveMinutes => 5 * minute
  | fifteenMinutes => 15 * minute
  | oneHour => hour
  | fourHours => 4 * hour
  | oneDay => day

theorem StrategyTimeframe.interval_pos (f : StrategyTimeframe) : 0 < f.interval := by
  cases f <;> decide

inductive SignalRole where
  | entry | exit
  deriving DecidableEq, Repr

inductive SignalDirection where
  | long | short | flat
  deriving DecidableEq, Repr

inductive ExecutionTiming where
  | barClose | nextBarOpen
  deriving DecidableEq, Repr

inductive StrategyEventType where
  | signal | entry | exit | position
  deriving DecidableEq, Repr

inductive PositionState where
  | flat | long | short
  deriving DecidableEq, Repr

/-- `validate_role_direction` is the field `coherent`. -/
structure SignalDefinition where
  signalId : String
  role : SignalRole
  direction : SignalDirection
  priority : ℕ := 100
  definition : List (String × Json)
  coherent : role = .exit ↔ direction = .flat := by decide

inductive PositionMode where
  | longOnly | shortOnly | longShort
  deriving DecidableEq, Repr

structure PositionRules where
  mode : PositionMode
  maxOpenPositions : ℕ := 1
  allowReversal : Bool := false
  bounded : 1 ≤ maxOpenPositions ∧ maxOpenPositions ≤ 10000 := by decide

inductive ImplementationKind where
  | declarative | external
  deriving DecidableEq, Repr

structure StrategyImplementation where
  kind : ImplementationKind
  identifier : String
  revision : String
  deriving DecidableEq, Repr

/-- `universe` holds the asset ids of the instrument snapshots. -/
structure CanonicalStrategyDefinition where
  timeframe : StrategyTimeframe
  «universe» : List ℕ
  signals : List SignalDefinition
  position : PositionRules
  timing : ExecutionTiming
  implementation : StrategyImplementation
  nonempty : «universe» ≠ [] ∧ signals ≠ [] := by decide
  sorted : «universe».Pairwise (· < ·) := by decide
  ordered : signals.Pairwise fun s t =>
    s.priority < t.priority ∨ s.priority = t.priority ∧ s.signalId ≤ t.signalId := by decide

/-- `live_strategies/contracts.py:64-71`. -/
structure LiveStrategyConfiguration where
  evaluatorId : String := "threshold-v1"
  evaluatorRevision : String
  maxCandlesPerCycle : ℕ := 100
  supported : evaluatorId = "threshold-v1" := by rfl
  bounded : 1 ≤ maxCandlesPerCycle ∧ maxCandlesPerCycle ≤ 1000 := by decide

/-- A row of a candle table. -/
structure CandleRow where
  assetId : ℕ
  timestamp : ℤ
  «open» : ℚ
  high : ℚ
  low : ℚ
  close : ℚ
  volume : ℚ
  deriving DecidableEq

/-- The tolerance of `validate_ohlcv`, 1e-9. -/
def epsilon : ℚ := 1 / 1000000000

/-- The checks of the `LiveCandle` model. -/
def CandleRow.Valid (r : CandleRow) : Prop :=
  0 < r.assetId ∧ 0 < r.open ∧ 0 < r.high ∧ 0 < r.low ∧ 0 < r.close ∧ 0 ≤ r.volume ∧
    r.low - epsilon ≤ r.high ∧
    (r.low - epsilon ≤ r.open ∧ r.open ≤ r.high + epsilon) ∧
    (r.low - epsilon ≤ r.close ∧ r.close ≤ r.high + epsilon)

instance (r : CandleRow) : Decidable r.Valid := by
  unfold CandleRow.Valid; infer_instance

/-- A validated canonical candle. -/
structure LiveCandle extends CandleRow where
  valid : toCandleRow.Valid

/-- `LiveCandle.model_validate`; `none` is the `ValidationError`. -/
def LiveCandle.modelValidate (r : CandleRow) : Option LiveCandle :=
  if h : r.Valid then some ⟨r, h⟩ else none

structure GeneratedLiveEvent where
  eventType : StrategyEventType
  signalId : String
  positionState : PositionState
  deriving DecidableEq, Repr

inductive LiveEvaluationStatus where
  | evaluated | duplicate | outOfOrder | gapDetected | invalid | error
  deriving DecidableEq, Repr

/-- What `error_code` and `error_message` tell; both are present or both are absent. -/
inductive LiveError where
  | assetOutsideUniverse
  | timestampNotAligned (timeframe : StrategyTimeframe)
  | missingCandles (expected actual : ℤ)
  | invalidSignalDefinition (reason : String)
  | evaluationError (reason : String)
  deriving DecidableEq, Repr

def StrategyTimeframe.value : StrategyTimeframe → String
  | oneMinute => "1m"
  | fiveMinutes => "5m"
  | fifteenMinutes => "15m"
  | oneHour => "1h"
  | fourHours => "4h"
  | oneDay => "1d"

def LiveError.code : LiveError → String
  | assetOutsideUniverse => "asset_outside_universe"
  | timestampNotAligned _ => "timestamp_not_aligned"
  | missingCandles _ _ => "missing_candles"
  | invalidSignalDefinition _ => "invalid_signal_definition"
  | evaluationError _ => "evaluation_error"

/-- `isoformat` prints an instant as `datetime.isoformat` does. -/
def LiveError.message (isoformat : ℤ → String) : LiveError → String
  | assetOutsideUniverse => "canonical candle asset is not part of the strategy universe"
  | timestampNotAligned f =>
    "canonical candle timestamp is not aligned to the " ++ f.value ++ " bucket"
  | missingCandles e a =>
    "expected canonical candle at " ++ isoformat e ++ " before " ++ isoformat a
  | invalidSignalDefinition r => r
  | evaluationError r => r

structure LiveEvaluationOutcome where
  status : LiveEvaluationStatus
  positionBefore : PositionState
  positionAfter : PositionState
  signalId : Option String := none
  events : List GeneratedLiveEvent := []
  error : Option LiveError := none
  deriving DecidableEq, Repr

/-! ### The threshold conditions -/

inductive Operator where
  | gt | gte | lt | lte
  deriving DecidableEq, Repr

def Operator.parse : String → Option Operator
  | "gt" => some gt
  | "gte" => some gte
  | "lt" => some lt
  | "lte" => some lte
  | _ => none

def Operator.holds : Operator → ℚ → ℚ → Bool
  | gt, close, threshold => threshold < close
  | gte, close, threshold => threshold ≤ close
  | lt, close, threshold => close < threshold
  | lte, close, threshold => close ≤ threshold

/-- The nearest double to a natural number, ties to even. -/
def nearestFloat (n : ℕ) : ℕ :=
  let shift := n.log2 - 52
  let unit := 2 ^ shift
  let q := n / unit
  let r := n % unit
  (if unit < 2 * r ∨ unit = 2 * r ∧ q % 2 = 1 then q + 1 else q) * unit

/-- `float(n)` of a Python integer. -/
def floatOfInt (n : ℤ) : Except Raised ℚ :=
  let m := nearestFloat n.natAbs
  if 2 ^ 1024 ≤ m then .error (.overflowError "int too large to convert to float")
  else .ok (n.sign * m)

def Json.isHashable : Json → Bool
  | array _ => false
  | object _ => false
  | _ => true

def Json.typeName : Json → String
  | null => "NoneType"
  | bool _ => "bool"
  | int _ => "int"
  | float _ => "float"
  | str _ => "str"
  | array _ => "list"
  | object _ => "dict"

def conditionKeys : List String := ["kind", "operator", "threshold"]

/-- The operator of a condition. The membership test hashes it first. -/
def conditionOperator : Option Json → Except Raised Operator
  | some (.str name) =>
    match Operator.parse name with
    | some operator => .ok operator
    | none => .error (.valueError "threshold-v1 operator must be gt, gte, lt, or lte")
  | some value =>
    if value.isHashable then
      .error (.valueError "threshold-v1 operator must be gt, gte, lt, or lte")
    else
      .error (.typeError ("unhashable type: '" ++ value.typeName ++ "'"))
  | none => .error (.valueError "threshold-v1 operator must be gt, gte, lt, or lte")

/-- The threshold of a condition as a double. -/
def conditionThreshold : Option Json → Except Raised ℚ
  | some (.int n) => floatOfInt n
  | some (.float x) => .ok x
  | _ => .error (.valueError "threshold-v1 threshold must be numeric")

/-- `_threshold_condition`. -/
def thresholdCondition (definition : List (String × Json)) : Except Raised (Operator × ℚ) := do
  let keys := definition.map Prod.fst
  if !(keys.all (· ∈ conditionKeys) && conditionKeys.all (· ∈ keys)) then
    throw (.valueError "threshold-v1 signals require exactly kind, operator, and threshold")
  if !(definition.lookup "kind" matches some (.str "close_threshold")) then
    throw (.valueError "threshold-v1 only supports close_threshold signals")
  let operator ← conditionOperator (definition.lookup "operator")
  let threshold ← conditionThreshold (definition.lookup "threshold")
  if threshold ≤ 0 then
    throw (.valueError "threshold-v1 threshold must be finite and positive")
  pure (operator, threshold)

/-- `_matches_threshold`. -/
def matchesThreshold (definition : List (String × Json)) (close : ℚ) : Except Raised Bool := do
  let (operator, threshold) ← thresholdCondition definition
  pure (operator.holds close threshold)

/-- The generator of `evaluate_live_candle`: the first signal whose condition holds. A signal
behind it is not looked at. -/
def matchingSignal (close : ℚ) : List SignalDefinition → Except Raised (Option SignalDefinition)
  | [] => .ok none
  | s :: rest => do
    if ← matchesThreshold s.definition close then pure (some s) else matchingSignal close rest

/-- `_is_timeframe_aligned`. -/
def isTimeframeAligned (timestamp : ℤ) (timeframe : StrategyTimeframe) : Bool :=
  timestamp % timeframe.interval = 0

/-- `_position_from_direction`. -/
def positionFromDirection : SignalDirection → Except Raised PositionState
  | .long => .ok .long
  | .short => .ok .short
  | .flat => .error (.valueError "entry signal cannot target flat position")

/-- `validate_live_definition`, `live_strategies/contracts.py:162-180`. -/
def validateLiveDefinition (definition : CanonicalStrategyDefinition)
    (configuration : LiveStrategyConfiguration) : Except Raised Unit := do
  if configuration.evaluatorId ≠ "threshold-v1" then
    throw (.valueError ("unsupported live evaluator '" ++ configuration.evaluatorId ++ "'"))
  if definition.implementation.kind ≠ .declarative then
    throw (.valueError "live threshold evaluator requires a declarative strategy")
  if definition.implementation.identifier ≠ configuration.evaluatorId then
    throw (.valueError "strategy implementation identifier must match the live evaluator")
  if definition.implementation.revision ≠ configuration.evaluatorRevision then
    throw (.valueError "strategy implementation revision must match the live evaluator revision")
  if definition.timing ≠ .barClose then
    throw (.valueError "live threshold evaluator only supports bar_close execution timing")
  definition.signals.forM fun signal => do
    let _ ← thresholdCondition signal.definition

/-! ### One candle -/

/-- The events and the next position once a signal matched,
`live_strategies/contracts.py:254-309`. -/
def applySignal (definition : CanonicalStrategyDefinition) (signal : SignalDefinition)
    (positionState : PositionState) (canOpenPosition : Bool) :
    Except Raised (PositionState × List GeneratedLiveEvent) := do
  let fired : GeneratedLiveEvent := ⟨.signal, signal.signalId, positionState⟩
  if signal.role = .exit then
    if positionState ≠ .flat then
      pure (.flat, [fired, ⟨.exit, signal.signalId, .flat⟩])
    else
      pure (positionState, [fired])
  else if positionState = .flat && canOpenPosition then
    let selected ← positionFromDirection signal.direction
    pure (selected, [fired, ⟨.entry, signal.signalId, selected⟩])
  else
    let selected ← positionFromDirection signal.direction
    if positionState ≠ selected && definition.position.allowReversal then
      pure (selected,
        [fired, ⟨.exit, signal.signalId, .flat⟩, ⟨.entry, signal.signalId, selected⟩])
    else
      pure (positionState, [fired])

/-- The early returns on the asset and the timestamp, `live_strategies/contracts.py:191-231`;
`none` goes on to the signals. -/
def candleRejected (definition : CanonicalStrategyDefinition) (candle : LiveCandle)
    (lastCandleTimestamp : Option ℤ) : Option (LiveEvaluationStatus × Option LiveError) :=
  if candle.assetId ∉ definition.universe then
    some (.invalid, some .assetOutsideUniverse)
  else if !isTimeframeAligned candle.timestamp definition.timeframe then
    some (.invalid, some (.timestampNotAligned definition.timeframe))
  else
    match lastCandleTimestamp with
    | none => none
    | some last =>
      let expected := last + definition.timeframe.interval
      if candle.timestamp = last then some (.duplicate, none)
      else if candle.timestamp < last then some (.outOfOrder, none)
      else if expected < candle.timestamp then
        some (.gapDetected, some (.missingCandles expected candle.timestamp))
      else none

/-- `evaluate_live_candle`, `live_strategies/contracts.py:182-318`. -/
def evaluateLiveCandle (definition : CanonicalStrategyDefinition) (candle : LiveCandle)
    (positionState : PositionState) (lastCandleTimestamp : Option ℤ)
    (canOpenPosition : Bool := true) : Except Raised LiveEvaluationOutcome :=
  let unchanged (status : LiveEvaluationStatus) (error : Option LiveError) :
      LiveEvaluationOutcome :=
    { status, positionBefore := positionState, positionAfter := positionState, error }
  match candleRejected definition candle lastCandleTimestamp with
  | some (status, error) => .ok (unchanged status error)
  | none =>
    match matchingSignal candle.close definition.signals with
    | .error (.valueError reason) =>
      .ok (unchanged .invalid (some (.invalidSignalDefinition reason)))
    | .error other => .error other
    | .ok none => .ok (unchanged .evaluated none)
    | .ok (some signal) =>
      match applySignal definition signal positionState canOpenPosition with
      | .error raised => .error raised
      | .ok (positionAfter, events) =>
        .ok { status := .evaluated, positionBefore := positionState, positionAfter,
              signalId := some signal.signalId, events }

end Quantive.LiveStrategy
