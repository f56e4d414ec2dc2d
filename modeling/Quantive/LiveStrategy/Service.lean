import Mathlib.Data.List.MinMax
import Quantive.LiveStrategy.Contracts

/-!
# The live strategy service

`services/live_strategy.py` over the rows of one activation. A cycle runs in one
transaction of a session with `autoflush=False`: its SELECTs see the committed rows
(`stored`), its ORM objects (`work`) reach the database at the commit.
-/

namespace Quantive.LiveStrategy

inductive LiveStrategyActivationStatus where
  | active | deactivated | error
  deriving DecidableEq, Repr

inductive LiveStrategyHealth where
  | unknown | healthy | degraded | error | stopped
  deriving DecidableEq, Repr

/-- An immutable row of `strategy_versions`. -/
structure StrategyVersion where
  definition : CanonicalStrategyDefinition
  definitionHash : String

structure LiveStrategyActivation where
  strategyDefinitionHash : String
  configuration : LiveStrategyConfiguration
  status : LiveStrategyActivationStatus := .active
  health : LiveStrategyHealth := .unknown
  lastError : Option String := none
  activatedAt : ℤ
  deactivatedAt : Option ℤ := none
  lastEvaluatedAt : Option ℤ := none
  assetCursor : Option ℕ := none
  openPositionCount : ℤ := 0

structure LiveStrategyState where
  assetId : ℕ
  lastCandleTimestamp : Option ℤ := none
  lastObservedAt : Option ℤ := none
  positionState : PositionState := .flat
  positionChangedAt : Option ℤ := none
  health : LiveStrategyHealth := .unknown
  consecutiveErrors : ℕ := 0
  lastError : Option LiveError := none
  deriving DecidableEq

structure LiveStrategyObservation where
  assetId : ℕ
  candleTimestamp : ℤ
  evaluationAttempt : ℕ
  observedAt : ℤ
  status : LiveEvaluationStatus
  signalId : Option String
  positionBefore : PositionState
  positionAfter : PositionState
  evaluationLatencyMs : ℚ
  error : Option LiveError
  deriving DecidableEq

structure LiveStrategyEvent where
  assetId : ℕ
  candleTimestamp : ℤ
  eventTime : ℤ
  eventType : StrategyEventType
  signalId : String
  positionState : PositionState
  deriving DecidableEq

/-- The rows of one activation. Observations and events are in insertion order. -/
structure LiveRuntime where
  version : StrategyVersion
  activation : LiveStrategyActivation
  states : List LiveStrategyState
  observations : List LiveStrategyObservation := []
  events : List LiveStrategyEvent := []

namespace LiveRuntime

def definition (rt : LiveRuntime) : CanonicalStrategyDefinition := rt.version.definition

/-- The ORM objects of one asset are replaced by `state`. -/
def setState (rt : LiveRuntime) (state : LiveStrategyState) : LiveRuntime :=
  { rt with states := rt.states.map fun s => if s.assetId = state.assetId then state else s }

def setActivation (rt : LiveRuntime) (a : LiveStrategyActivation) : LiveRuntime :=
  { rt with activation := a }

@[simp] theorem setState_version (rt : LiveRuntime) (s : LiveStrategyState) :
    (rt.setState s).version = rt.version := rfl
@[simp] theorem setState_activation (rt : LiveRuntime) (s : LiveStrategyState) :
    (rt.setState s).activation = rt.activation := rfl
@[simp] theorem setState_observations (rt : LiveRuntime) (s : LiveStrategyState) :
    (rt.setState s).observations = rt.observations := rfl
@[simp] theorem setState_events (rt : LiveRuntime) (s : LiveStrategyState) :
    (rt.setState s).events = rt.events := rfl

/-- The check and unique constraints that the commit can meet:
`ck_live_activations_nonnegative_positions`, `uq_live_observations_activation_asset_candle`,
`uq_live_events_activation_asset_candle_event`. -/
def Constraints (rt : LiveRuntime) : Prop :=
  0 ≤ rt.activation.openPositionCount ∧
    (rt.observations.map fun o => (o.assetId, o.candleTimestamp, o.evaluationAttempt)).Nodup ∧
    (rt.events.map fun e => (e.assetId, e.candleTimestamp, e.eventType, e.signalId)).Nodup

instance (rt : LiveRuntime) : Decidable rt.Constraints := by
  unfold Constraints; infer_instance

end LiveRuntime

/-- `Settings.LIVE_STRATEGY_*`. -/
structure LiveSettings where
  maxAssetsPerCycle : ℕ := 100
  maxCandlesPerAssetCycle : ℕ := 100
  positive : 0 < maxAssetsPerCycle ∧ 0 < maxCandlesPerAssetCycle := by decide

/-- The clock at one evaluation: `observed_at` and the measured latency. -/
structure Reading where
  observedAt : ℤ
  latencyMs : ℚ

/-! ### Activation and deactivation -/

/-- The rows `activate` inserts, `live_strategy.py:79-109`. -/
def newRuntime (version : StrategyVersion) (configuration : LiveStrategyConfiguration) (now : ℤ) :
    LiveRuntime where
  version := version
  activation := { strategyDefinitionHash := version.definitionHash, configuration, activatedAt := now }
  states := version.definition.universe.map fun id => { assetId := id }

/-- `activate` where no active runtime of the binding exists. `digest` is `definition_hash`. -/
def activate (digest : CanonicalStrategyDefinition → String) (version : StrategyVersion)
    (configuration : LiveStrategyConfiguration) (now : ℤ) : Except Raised LiveRuntime := do
  if digest version.definition ≠ version.definitionHash then
    throw (.valueError "stored strategy definition does not match its definition hash")
  validateLiveDefinition version.definition configuration
  pure (newRuntime version configuration now)

/-- `deactivate`, `live_strategy.py:126-148`. -/
def deactivate (now : ℤ) (rt : LiveRuntime) : LiveRuntime :=
  if rt.activation.status ≠ .active then rt
  else
    { rt with
      activation := { rt.activation with
        status := .deactivated, health := .stopped, deactivatedAt := some now }
      states := rt.states.map fun s => { s with health := .stopped } }

/-! ### One evaluation -/

/-- `_refresh_activation_health`, `live_strategy.py:454-489`, over the committed rows. -/
def refreshActivationHealth (stored : List LiveStrategyState) (a : LiveStrategyActivation) :
    LiveStrategyActivation :=
  if stored = [] then { a with health := .unknown }
  else if stored.any (·.health = .error) then { a with health := .error }
  else if stored.any (·.health = .degraded) then { a with health := .degraded }
  else if stored.any (·.health = .unknown) || stored.any (·.lastCandleTimestamp = none) then
    { a with health := .unknown }
  else { a with health := .healthy, lastError := none }

/-- The last attempt at a candle: `ORDER BY evaluation_attempt DESC LIMIT 1`. -/
def lastAttempt (observations : List LiveStrategyObservation) (assetId : ℕ) (timestamp : ℤ) :
    Option LiveStrategyObservation :=
  (observations.filter fun o => o.assetId = assetId && o.candleTimestamp = timestamp).argmax
    (·.evaluationAttempt)

/-- `can_open_position` as `_evaluate_and_persist` passes it. -/
def canOpenPosition (definition : CanonicalStrategyDefinition) (a : LiveStrategyActivation)
    (state : LiveStrategyState) : Bool :=
  state.positionState ≠ .flat || a.openPositionCount < definition.position.maxOpenPositions

/-- The outcome of `_evaluate_and_persist`: whatever the evaluator raises becomes an error
outcome, `live_strategy.py:328-349`. -/
def evaluateGuarded (definition : CanonicalStrategyDefinition) (a : LiveStrategyActivation)
    (state : LiveStrategyState) (candle : LiveCandle) : LiveEvaluationOutcome :=
  match evaluateLiveCandle definition candle state.positionState state.lastCandleTimestamp
    (canOpenPosition definition a state) with
  | .ok outcome => outcome
  | .error raised =>
    { status := .error, positionBefore := state.positionState,
      positionAfter := state.positionState, error := some (.evaluationError raised.message) }

/-- The attempt number to record, or `none` when the candle was evaluated before or failed
before and fails again, `live_strategy.py:355-386`. -/
def nextAttempt (previous : Option LiveStrategyObservation) (status : LiveEvaluationStatus) :
    Option ℕ :=
  match previous with
  | none => some 1
  | some p =>
    if p.status = .evaluated then none
    else if status ≠ .evaluated then none
    else some (p.evaluationAttempt + 1)

def observationOf (candle : LiveCandle) (outcome : LiveEvaluationOutcome) (attempt : ℕ)
    (reading : Reading) : LiveStrategyObservation where
  assetId := candle.assetId
  candleTimestamp := candle.timestamp
  evaluationAttempt := attempt
  observedAt := reading.observedAt
  status := outcome.status
  signalId := outcome.signalId
  positionBefore := outcome.positionBefore
  positionAfter := outcome.positionAfter
  evaluationLatencyMs := reading.latencyMs
  error := outcome.error

def eventOf (candle : LiveCandle) (event : GeneratedLiveEvent) : LiveStrategyEvent where
  assetId := candle.assetId
  candleTimestamp := candle.timestamp
  eventTime := candle.timestamp
  eventType := event.eventType
  signalId := event.signalId
  positionState := event.positionState

/-- The asset state after a recorded outcome, `live_strategy.py:419-449`. -/
def recordState (outcome : LiveEvaluationOutcome) (candle : LiveCandle) (reading : Reading)
    (state : LiveStrategyState) : LiveStrategyState :=
  let observed := { state with lastObservedAt := some reading.observedAt }
  if outcome.status = .evaluated then
    let moved := if outcome.positionAfter ≠ outcome.positionBefore then
      { observed with positionState := outcome.positionAfter
                      positionChangedAt := some reading.observedAt }
      else observed
    { moved with lastCandleTimestamp := some candle.timestamp, health := .healthy
                 consecutiveErrors := 0, lastError := none }
  else
    { observed with
      health := if outcome.status = .gapDetected then .degraded else .error
      consecutiveErrors := state.consecutiveErrors + 1
      lastError := outcome.error }

/-- `activation.open_position_count` after an evaluated outcome, `live_strategy.py:425-433`. -/
def countPositions (outcome : LiveEvaluationOutcome) (count : ℤ) : ℤ :=
  if outcome.status = .evaluated ∧ outcome.positionAfter ≠ outcome.positionBefore then
    if outcome.positionBefore = .flat then count + 1
    else if outcome.positionAfter = .flat then count - 1
    else count
  else count

/-- The activation row after a recorded outcome. -/
def recordActivation (isoformat : ℤ → String) (stored : List LiveStrategyState)
    (outcome : LiveEvaluationOutcome) (reading : Reading) (a : LiveStrategyActivation) :
    LiveStrategyActivation :=
  let counted := { a with openPositionCount := countPositions outcome a.openPositionCount }
  if outcome.status = .evaluated then
    { refreshActivationHealth stored counted with lastEvaluatedAt := some reading.observedAt }
  else
    { counted with
      health := if outcome.status = .gapDetected then .degraded else .error
      lastError := outcome.error.map (LiveError.message isoformat) }

section
variable (isoformat : ℤ → String)

/-- `_evaluate_and_persist`, `live_strategy.py:320-452`: the rows, the state object and the
returned flag. -/
def evaluateAndPersist (stored work : LiveRuntime) (state : LiveStrategyState)
    (candle : LiveCandle) (reading : Reading) : LiveRuntime × LiveStrategyState × Bool :=
  let outcome := evaluateGuarded work.definition work.activation state candle
  if outcome.status = .duplicate ∨ outcome.status = .outOfOrder then (work, state, false)
  else
    match nextAttempt (lastAttempt stored.observations candle.assetId candle.timestamp)
      outcome.status with
    | none => (work, state, false)
    | some attempt =>
      let next := recordState outcome candle reading state
      let work' := { work.setState next with
        activation := recordActivation isoformat stored.states outcome reading work.activation
        observations := work.observations ++ [observationOf candle outcome attempt reading]
        events := work.events ++ outcome.events.map (eventOf candle) }
      (work', next, true)

/-! ### One cycle -/

/-- What a cycle finds besides its own rows: the candle tables and the clock. -/
structure CycleInput where
  candles : StrategyTimeframe → ℕ → List CandleRow
  clock : ℕ → ℤ → Reading

/-- `_read_canonical_candles`; `none` is a row that `LiveCandle` rejects. -/
def readCanonicalCandles (table : List CandleRow) (assetId : ℕ) (after : ℤ) (limit : ℕ) :
    Option (List LiveCandle) :=
  (((table.filter fun r => r.assetId = assetId && after < r.timestamp).insertionSort
    fun r r' => r.timestamp ≤ r'.timestamp).take limit).mapM LiveCandle.modelValidate

/-- The candle loop of one asset, `live_strategy.py:186-194`. -/
def processCandles (stored : LiveRuntime) (clock : ℕ → ℤ → Reading) :
    List LiveCandle → LiveRuntime → LiveStrategyState → ℕ → LiveRuntime × ℕ
  | [], work, _, evaluated => (work, evaluated)
  | candle :: rest, work, state, evaluated =>
    let (work', state', persisted) := evaluateAndPersist isoformat stored work state candle
      (clock candle.assetId candle.timestamp)
    let evaluated' := if persisted && state'.lastCandleTimestamp = some candle.timestamp
      then evaluated + 1 else evaluated
    if state'.lastCandleTimestamp ≠ some candle.timestamp then (work', evaluated')
    else processCandles stored clock rest work' state' evaluated'

/-- The asset loop, `live_strategy.py:178-195`; `none` aborts the transaction. -/
def processStates (stored : LiveRuntime) (input : CycleInput) (candleLimit : ℕ) :
    List LiveStrategyState → LiveRuntime → ℕ → Option (LiveRuntime × ℕ)
  | [], work, evaluated => some (work, evaluated)
  | state :: rest, work, evaluated => do
    let candles ← readCanonicalCandles (input.candles work.definition.timeframe state.assetId)
      state.assetId (state.lastCandleTimestamp.getD work.activation.activatedAt) candleLimit
    let (work', evaluated') := processCandles isoformat stored input.clock candles work state evaluated
    processStates stored input candleLimit rest work' evaluated'

/-- `_locked_state_slice`: the slice and the cursor it was taken from. -/
def lockedStateSlice (rt : LiveRuntime) (limit : ℕ) : List LiveStrategyState × Option ℕ :=
  let ordered := rt.states.insertionSort fun s t => s.assetId ≤ t.assetId
  match rt.activation.assetCursor with
  | none => (ordered.take limit, none)
  | some cursor =>
    match (ordered.filter fun s => cursor < s.assetId).take limit with
    | [] => (ordered.take limit, none)
    | states => (states, some cursor)

/-- `process_activation`, `live_strategy.py:150-195`. `none` is an exception that escapes: the
transaction is rolled back. -/
def processActivation (digest : CanonicalStrategyDefinition → String) (settings : LiveSettings)
    (input : CycleInput) (rt : LiveRuntime) : Option (LiveRuntime × ℕ) :=
  if rt.activation.status ≠ .active then some (rt, 0)
  else
    let failed (message : String) : LiveRuntime := rt.setActivation
      { rt.activation with status := .error, health := .error, lastError := some message }
    if digest rt.definition ≠ rt.version.definitionHash then
      some (failed "stored strategy definition does not match its definition hash", 0)
    else if rt.version.definitionHash ≠ rt.activation.strategyDefinitionHash then
      some (failed "activation strategy definition hash no longer matches its version", 0)
    else match validateLiveDefinition rt.definition rt.activation.configuration with
    | .error (.valueError message) => some (failed message, 0)
    | .error _ => none
    | .ok _ =>
      let (states, cursor) := lockedStateSlice rt settings.maxAssetsPerCycle
      let sliced := rt.setActivation { rt.activation with assetCursor := cursor }
      match states.getLast? with
      | none => some (sliced, 0)
      | some last => do
        let work := sliced.setActivation { sliced.activation with assetCursor := some last.assetId }
        let candleLimit := min rt.activation.configuration.maxCandlesPerCycle
          settings.maxCandlesPerAssetCycle
        let (work', evaluated) ← processStates isoformat rt input candleLimit states work 0
        if work'.Constraints then some (work', evaluated) else none

end
end Quantive.LiveStrategy
