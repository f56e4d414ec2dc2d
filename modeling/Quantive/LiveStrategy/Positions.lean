import Quantive.LiveStrategy.Runs

/-!
# Open positions of a live runtime

The evaluator moves a position in five ways (`Transition`). Over a run the activation
counts the open positions within their limit and the event log replays to the
positions, except after an entry signal on a flat asset that meets an exhausted limit
and an allowed reversal: that branch opens a position past the limit and reports an
exit of no position.
-/

namespace Quantive.LiveStrategy

/-- The timestamp checks of `evaluate_live_candle` let the candle through. -/
def Due (d : CanonicalStrategyDefinition) (state : LiveStrategyState) (candle : LiveCandle) : Prop :=
  candle.assetId ∈ d.universe ∧ isTimeframeAligned candle.timestamp d.timeframe ∧
    ∀ last, state.lastCandleTimestamp = some last →
      last < candle.timestamp ∧ candle.timestamp ≤ last + d.timeframe.interval

/-- An entry signal fires for a flat asset while the limit is exhausted and reversals are
allowed: the reversal branch takes it, `live_strategies/contracts.py:286-309`. -/
def ReversesFlat (rt : LiveRuntime) (state : LiveStrategyState) (candle : LiveCandle) : Prop :=
  state.positionState = .flat ∧
    rt.definition.position.maxOpenPositions ≤ rt.activation.openPositionCount ∧
    rt.definition.position.allowReversal = true ∧
    Due rt.definition state candle ∧
    ∃ signal, matchingSignal candle.close rt.definition.signals = .ok (some signal) ∧
      signal.role = .entry

/-- The steps of a run that meet no such signal. -/
def NoFlatReversal (s : LiveSession) : LiveAction → Prop
  | .evaluate state candle _ => ¬ ReversesFlat s.work state candle
  | _ => True

/-! ### The evaluator -/

/-- What a signal that fired may do to a position that was `before`. -/
inductive Transition (d : CanonicalStrategyDefinition) (signal : SignalDefinition)
    (canOpen : Bool) (before : PositionState) : PositionState → List GeneratedLiveEvent → Prop
  | fired : Transition d signal canOpen before before [⟨.signal, signal.signalId, before⟩]
  | exit (hb : before ≠ .flat) :
      Transition d signal canOpen before .flat
        [⟨.signal, signal.signalId, before⟩, ⟨.exit, signal.signalId, .flat⟩]
  | entry {after} (hb : before = .flat) (hc : canOpen = true) (ha : after ≠ .flat) :
      Transition d signal canOpen before after
        [⟨.signal, signal.signalId, before⟩, ⟨.entry, signal.signalId, after⟩]
  | reversal {after} (hrole : signal.role = .entry) (ha : after ≠ .flat)
      (hc : before = .flat → canOpen = false) (hr : d.position.allowReversal = true) :
      Transition d signal canOpen before after
        [⟨.signal, signal.signalId, before⟩, ⟨.exit, signal.signalId, .flat⟩,
          ⟨.entry, signal.signalId, after⟩]

theorem positionFromDirection_ok {dir : SignalDirection} {p : PositionState}
    (h : positionFromDirection dir = .ok p) : p ≠ .flat := by
  cases dir <;> cases h <;> simp

theorem applySignal_transition {d : CanonicalStrategyDefinition} {signal : SignalDefinition}
    {before after : PositionState} {canOpen : Bool} {events : List GeneratedLiveEvent}
    (h : applySignal d signal before canOpen = .ok (after, events)) :
    Transition d signal canOpen before after events := by
  unfold applySignal at h
  cases hrole : signal.role with
  | exit =>
    by_cases hb : before = .flat
    · simp only [hrole, hb, if_true, ne_eq, not_true_eq_false, if_false] at h
      cases h
      subst hb
      exact .fired
    · simp only [hrole, hb, if_true, ne_eq, not_false_eq_true] at h
      cases h
      exact .exit hb
  | entry =>
    cases hp : positionFromDirection signal.direction with
    | error e =>
      by_cases hopen : before = .flat ∧ canOpen = true
      · simp only [hrole, hopen.1, hopen.2, hp] at h
        cases h
      · simp only [hrole, Bool.and_eq_true, decide_eq_true_eq, hopen, hp] at h
        cases h
    | ok selected =>
      have hsel := positionFromDirection_ok hp
      by_cases hopen : before = .flat ∧ canOpen = true
      · simp only [hrole, reduceCtorEq, if_false, Bool.and_eq_true, decide_eq_true_eq, hopen,
          and_self, if_true, hp] at h
        cases h
        rw [hopen.1]
        exact .entry rfl hopen.2 hsel
      · have hc : before = .flat → canOpen = false := fun hb => by simpa [hb] using hopen
        simp only [hrole, reduceCtorEq, if_false, Bool.and_eq_true, decide_eq_true_eq, hopen,
          hp, bind, Except.bind] at h
        by_cases hr : before ≠ selected ∧ d.position.allowReversal = true
        · simp only [hr, ne_eq, not_false_eq_true, and_self, if_true] at h
          cases h
          exact .reversal hrole hsel hc hr.2
        · simp only [hr, if_false] at h
          cases h
          exact .fired

/-- An outcome that moves nothing. -/
def LiveEvaluationOutcome.Still (o : LiveEvaluationOutcome) (before : PositionState) : Prop :=
  o.positionBefore = before ∧ o.positionAfter = before ∧ o.events = []

theorem candleRejected_none {d : CanonicalStrategyDefinition} {state : LiveStrategyState}
    {candle : LiveCandle} (h : candleRejected d candle state.lastCandleTimestamp = none) :
    Due d state candle := by
  unfold candleRejected at h
  by_cases hu : candle.assetId ∈ d.universe
  swap
  · rw [if_pos hu] at h
    cases h
  rw [if_neg (not_not_intro hu)] at h
  cases ha : isTimeframeAligned candle.timestamp d.timeframe with
  | false => simp [ha] at h
  | true =>
    refine ⟨hu, ha, fun last hl => ?_⟩
    simp only [ha, hl, Bool.not_true, Bool.false_eq_true, if_false] at h
    by_cases he : candle.timestamp = last
    · simp [he] at h
    · by_cases hlt : candle.timestamp < last
      · simp [he, hlt] at h
      · by_cases hgap : last + d.timeframe.interval < candle.timestamp
        · simp [he, hlt, hgap] at h
        · omega

/-- `evaluate_live_candle` moves nothing, or a candle that is due fired a signal. -/
theorem evaluateLiveCandle_cases {d : CanonicalStrategyDefinition} {candle : LiveCandle}
    {state : LiveStrategyState} {canOpen : Bool} {o : LiveEvaluationOutcome}
    (h : evaluateLiveCandle d candle state.positionState state.lastCandleTimestamp canOpen = .ok o) :
    o.Still state.positionState ∨
      (o.status = .evaluated ∧ o.positionBefore = state.positionState ∧ Due d state candle ∧
        ∃ signal, matchingSignal candle.close d.signals = .ok (some signal) ∧
          Transition d signal canOpen state.positionState o.positionAfter o.events) := by
  unfold evaluateLiveCandle at h
  cases hr : candleRejected d candle state.lastCandleTimestamp with
  | some r =>
    rw [hr] at h
    cases h
    exact Or.inl ⟨rfl, rfl, rfl⟩
  | none =>
    rw [hr] at h
    cases hm : matchingSignal candle.close d.signals with
    | error e =>
      rw [hm] at h
      cases e with
      | valueError m =>
        cases h
        exact Or.inl ⟨rfl, rfl, rfl⟩
      | typeError m => cases h
      | overflowError m => cases h
    | ok found =>
      rw [hm] at h
      cases found with
      | none =>
        cases h
        exact Or.inl ⟨rfl, rfl, rfl⟩
      | some signal =>
        cases happ : applySignal d signal state.positionState canOpen with
        | error e =>
          simp only [happ] at h
          cases h
        | ok r =>
          simp only [happ] at h
          cases h
          exact Or.inr ⟨rfl, rfl, candleRejected_none hr, signal, rfl,
            applySignal_transition happ⟩

/-- What the service makes of one candle. -/
theorem evaluateGuarded_cases (rt : LiveRuntime) (state : LiveStrategyState)
    (candle : LiveCandle) :
    (evaluateGuarded rt.definition rt.activation state candle).Still state.positionState ∨
      ((evaluateGuarded rt.definition rt.activation state candle).status = .evaluated ∧
        (evaluateGuarded rt.definition rt.activation state candle).positionBefore =
          state.positionState ∧
        Due rt.definition state candle ∧
        ∃ signal, matchingSignal candle.close rt.definition.signals = .ok (some signal) ∧
          Transition rt.definition signal (canOpenPosition rt.definition rt.activation state)
            state.positionState
            (evaluateGuarded rt.definition rt.activation state candle).positionAfter
            (evaluateGuarded rt.definition rt.activation state candle).events) := by
  unfold evaluateGuarded
  cases h : evaluateLiveCandle rt.definition candle state.positionState state.lastCandleTimestamp
      (canOpenPosition rt.definition rt.activation state) with
  | error e =>
    exact Or.inl ⟨rfl, rfl, rfl⟩
  | ok o =>
    exact evaluateLiveCandle_cases h

/-! ### The position count -/

/-- The number of asset states that are not flat. -/
def LiveRuntime.openPositions (rt : LiveRuntime) : ℕ :=
  rt.states.countP fun s => s.positionState ≠ .flat

def PositionState.isOpen : PositionState → ℕ
  | .flat => 0
  | _ => 1

/-- The position-limit invariant. -/
def PositionLimit (rt : LiveRuntime) : Prop :=
  rt.activation.openPositionCount = rt.openPositions ∧
    rt.openPositions ≤ rt.definition.position.maxOpenPositions

theorem countP_replace {states : List LiveStrategyState} {s t : LiveStrategyState}
    (hnd : (states.map (·.assetId)).Nodup) (hs : s ∈ states) (hid : t.assetId = s.assetId) :
    (states.map fun u => if u.assetId = t.assetId then t else u).countP
        (fun u => u.positionState ≠ .flat) + s.positionState.isOpen =
      states.countP (fun u => u.positionState ≠ .flat) + t.positionState.isOpen := by
  induction states with
  | nil => cases hs
  | cons u rest ih =>
    simp only [List.map_cons, List.nodup_cons, List.mem_map, not_exists, not_and] at hnd
    rcases List.mem_cons.mp hs with rfl | hs
    · have hrest : (rest.map fun u => if u.assetId = t.assetId then t else u) = rest := by
        conv_rhs => rw [← List.map_id rest]
        apply List.map_congr_left
        intro v hv
        rw [if_neg (by rw [hid]; exact hnd.1 v hv)]
        rfl
      simp only [List.map_cons, hid, if_true, List.countP_cons]
      rw [← hid, hrest]
      cases s.positionState <;> cases t.positionState <;> simp [PositionState.isOpen]
    · have hne : u.assetId ≠ t.assetId := fun h => hnd.1 s hs (by rw [h, hid])
      simp only [List.map_cons, if_neg hne, List.countP_cons]
      have := ih hnd.2 hs
      omega

theorem openPositions_setState {version : StrategyVersion} {rt : LiveRuntime}
    {s t : LiveStrategyState} (h : AssetRows version rt) (hs : s ∈ rt.states)
    (hid : t.assetId = s.assetId) :
    (rt.setState t).openPositions + s.positionState.isOpen = rt.openPositions + t.positionState.isOpen :=
  countP_replace h.nodup hs hid

theorem recordActivation_count (isoformat : ℤ → String) (stored : List LiveStrategyState)
    (o : LiveEvaluationOutcome) (reading : Reading) (a : LiveStrategyActivation) :
    (recordActivation isoformat stored o reading a).openPositionCount =
      countPositions o a.openPositionCount := by
  unfold recordActivation
  by_cases h : o.status = .evaluated
  · simp only [h, if_true, refreshActivationHealth]
    split_ifs <;> rfl
  · simp only [h, if_false]

theorem recordState_position (o : LiveEvaluationOutcome) (candle : LiveCandle) (reading : Reading)
    (state : LiveStrategyState) (hb : o.positionBefore = state.positionState) :
    (recordState o candle reading state).positionState =
      if o.status = .evaluated then o.positionAfter else o.positionBefore := by
  unfold recordState
  by_cases h : o.status = .evaluated
  · by_cases hp : o.positionAfter = o.positionBefore
    · simp [h, hp, hb]
    · simp [h, hp]
  · simp [h, hb]

/-- The incremental count follows the position of the asset, whatever the outcome. -/
theorem countPositions_isOpen (o : LiveEvaluationOutcome) (count : ℤ) :
    countPositions o count + o.positionBefore.isOpen =
      count + (if o.status = .evaluated then o.positionAfter else o.positionBefore).isOpen := by
  unfold countPositions
  by_cases h : o.status = .evaluated
  · cases o.positionBefore <;> cases o.positionAfter <;> simp [h, PositionState.isOpen]
  · simp [h]

variable {isoformat : ℤ → String}

theorem positionLimit_evaluate {version : StrategyVersion} {stored work : LiveRuntime}
    {state : LiveStrategyState} {candle : LiveCandle} (reading : Reading)
    (hrows : AssetRows version work) (hs : state ∈ work.states) (hlim : PositionLimit work)
    (hok : ¬ ReversesFlat work state candle) :
    PositionLimit (evaluateAndPersist isoformat stored work state candle reading).1 := by
  rcases evaluateAndPersist_cases isoformat stored work state candle reading with
    h | ⟨-, -, attempt, -, h⟩
  · rw [h]
    exact hlim
  rw [h]
  obtain ⟨hcount, hmax⟩ := hlim
  have hcases := evaluateGuarded_cases work state candle
  generalize evaluateGuarded work.definition work.activation state candle = o at hcases ⊢
  have hb : o.positionBefore = state.positionState := by
    rcases hcases with hstill | hmove
    · exact hstill.1
    · exact hmove.2.1
  have hset := openPositions_setState (t := recordState o candle reading state) hrows hs
    (recordState_assetId _ _ _ _)
  have htrack := countPositions_isOpen o work.activation.openPositionCount
  rw [recordState_position o candle reading state hb, ← hb] at hset
  simp only [PositionLimit, recordActivation_count]
  change countPositions _ _ = ((work.setState _).openPositions : ℤ) ∧
    (work.setState _).openPositions ≤ work.definition.position.maxOpenPositions
  refine ⟨by omega, ?_⟩
  rcases hcases with ⟨-, ha, -⟩ | ⟨hst, -, hdue, signal, hm, htr⟩
  · have : (if o.status = .evaluated then o.positionAfter else o.positionBefore) =
        o.positionBefore := by rw [ha, hb, ite_self]
    rw [this] at hset
    omega
  · rw [if_pos hst, hb] at hset
    generalize o.positionAfter = after, o.events = events at htr hset
    cases htr with
    | fired => omega
    | exit hne => simp only [PositionState.isOpen] at hset; omega
    | entry hflat hopen ha =>
      have hroom : work.activation.openPositionCount <
          work.definition.position.maxOpenPositions := by
        simpa [canOpenPosition, hflat] using hopen
      have : after.isOpen ≤ 1 := by cases after <;> decide
      omega
    | reversal hrole ha hc hr =>
      have hopen : state.positionState ≠ .flat := by
        intro hflat
        have hfull := hc hflat
        simp only [canOpenPosition, hflat, ne_eq, not_true_eq_false, decide_false, Bool.false_or,
          decide_eq_false_iff_not, not_lt] at hfull
        exact hok ⟨hflat, hfull, hr, hdue, signal, hm, hrole⟩
      have h1 : state.positionState.isOpen = 1 := by
        cases hp : state.positionState with
        | flat => exact absurd hp hopen
        | long => rfl
        | short => rfl
      have : after.isOpen ≤ 1 := by cases after <;> decide
      omega

/-- What the limit theorem carries along a run. -/
def Limited (version : StrategyVersion) (s : LiveSession) : Prop :=
  (AssetRows version s.stored ∧ AssetRows version s.work) ∧
    PositionLimit s.stored ∧ PositionLimit s.work

theorem limited_step {version : StrategyVersion} {s t : LiveSession} {a : LiveAction}
    (hs : Limited version s) (hok : NoFlatReversal s a) (hst : LiveStep isoformat s a t) :
    Limited version t := by
  refine ⟨liveStep_rows hst hs.1, ?_⟩
  obtain ⟨hrows, hstored, hwork⟩ := hs
  cases hst with
  | evaluate hmem _ =>
    exact ⟨hstored, positionLimit_evaluate _ hrows.2 hmem hwork hok⟩
  | cursor => exact ⟨hstored, hwork⟩
  | fail => exact ⟨hstored, hwork⟩
  | commit => exact ⟨hwork, hwork⟩
  | rollback => exact ⟨hstored, hstored⟩
  | @deactivate rt now =>
    have : PositionLimit (deactivate now rt) := by
      unfold deactivate
      by_cases ha : rt.activation.status = .active
      · simpa [PositionLimit, LiveRuntime.openPositions, LiveRuntime.definition, ha,
          List.countP_map, Function.comp_def] using hstored
      · simpa [ha] using hstored
    exact ⟨this, this⟩

theorem limited_new (version : StrategyVersion) (configuration : LiveStrategyConfiguration)
    (now : ℤ) : PositionLimit (newRuntime version configuration now) := by
  simp [PositionLimit, LiveRuntime.openPositions, newRuntime, List.countP_map, Function.comp_def]

/-- Along every run without a flat reversal the activation counts its open positions, and there
are at most `max_open_positions` of them. -/
theorem open_positions_counted_and_bounded {digest : CanonicalStrategyDefinition → String}
    {s : LiveSession} (h : LiveReachable isoformat digest NoFlatReversal s) :
    PositionLimit s.stored ∧ PositionLimit s.work := by
  obtain ⟨version, configuration, now, rt, hrt, hrun⟩ := h
  rw [activate_ok hrt] at hrun
  have hrows := newRuntime_rows version configuration now
  have hlim := limited_new version configuration now
  exact (hrun.invariant (fun _ _ _ hs hp hst => limited_step hs hp hst)
    (⟨⟨hrows, hrows⟩, hlim, hlim⟩ : Limited version _)).2

/-! ### Definitions without reversals -/

theorem noFlatReversal_of_disallowed {version : StrategyVersion} {s : LiveSession}
    (hrows : AssetRows version s.work) (hr : version.definition.position.allowReversal = false)
    (a : LiveAction) : NoFlatReversal s a := by
  cases a with
  | evaluate state candle reading =>
    rintro ⟨-, -, h, -⟩
    rw [LiveRuntime.definition, hrows.1, hr] at h
    cases h
  | _ => trivial

/-- A definition that disallows reversals meets the condition in every cycle. -/
theorem processActivation_noFlatReversal {version : StrategyVersion}
    {digest : CanonicalStrategyDefinition → String} {settings : LiveSettings}
    {input : CycleInput} {rt rt' : LiveRuntime} {n : ℕ} (hrows : AssetRows version rt)
    (hr : version.definition.position.allowReversal = false)
    (h : processActivation isoformat digest settings input rt = some (rt', n)) :
    LiveRun isoformat NoFlatReversal ⟨rt, rt⟩ ⟨rt', rt'⟩ :=
  (processActivation_run hrows h).strengthen
    (I := fun s => AssetRows version s.stored ∧ AssetRows version s.work)
    (fun _ _ _ hs _ hst => liveStep_rows hst hs)
    (fun _ a hs _ => noFlatReversal_of_disallowed hs.2 hr a) ⟨hrows, hrows⟩

/-! ### Two assets that cross together

One entry signal, two assets and one position; in the first cycle the signal fires for both. -/

def crossing (allowReversal : Bool) : CanonicalStrategyDefinition where
  timeframe := .oneMinute
  «universe» := [1, 2]
  signals := [{
    signalId := "crossing", role := .entry, direction := .long,
    definition := [("kind", .str "close_threshold"), ("operator", .str "gt"),
      ("threshold", .int 1)] }]
  position := { mode := .longOnly, allowReversal }
  timing := .barClose
  implementation := ⟨.declarative, "threshold-v1", "1"⟩

def crossingVersion (allowReversal : Bool) : StrategyVersion := ⟨crossing allowReversal, "v1"⟩

def crossingConfiguration : LiveStrategyConfiguration := { evaluatorRevision := "1" }

def crossingRuntime (allowReversal : Bool) : LiveRuntime :=
  newRuntime (crossingVersion allowReversal) crossingConfiguration 0

def crossingInput : CycleInput where
  candles _ id := [⟨id, minute, 2, 2, 2, 2, 1⟩]
  clock _ _ := ⟨2 * minute, 0⟩

def crossingCycle (allowReversal : Bool) : Option (LiveRuntime × ℕ) :=
  processActivation (fun _ => "") (fun _ => "v1") {} crossingInput (crossingRuntime allowReversal)

theorem crossing_activates (allowReversal : Bool) :
    activate (fun _ => "v1") (crossingVersion allowReversal) crossingConfiguration 0 =
      .ok (crossingRuntime allowReversal) := by
  have hv : validateLiveDefinition (crossing allowReversal) crossingConfiguration = .ok () := by
    cases allowReversal <;> decide +kernel
  unfold activate
  rw [if_neg (by simp [crossingVersion])]
  change (validateLiveDefinition (crossing allowReversal) crossingConfiguration >>= _) = _
  rw [hv]
  rfl

theorem crossing_rows (allowReversal : Bool) :
    AssetRows (crossingVersion allowReversal) (crossingRuntime allowReversal) :=
  newRuntime_rows _ _ _

/-- What is left of the first cycle once it committed. -/
theorem crossing_reachable {allowReversal : Bool} {P : LiveSession → LiveAction → Prop}
    {rt : LiveRuntime} (h : LiveRun (fun _ => "") P
      ⟨crossingRuntime allowReversal, crossingRuntime allowReversal⟩ ⟨rt, rt⟩) :
    LiveReachable (fun _ => "") (fun _ => "v1") P ⟨rt, rt⟩ :=
  ⟨_, _, _, _, crossing_activates allowReversal, h⟩

/-- With reversals allowed the second asset opens a second position. -/
theorem position_limit_exceeded : ¬ ∀ s, LiveReachable (fun _ => "") (fun _ => "v1")
    (fun _ _ => True) s → PositionLimit s.stored := by
  intro hall
  have hcycle : ∃ r, crossingCycle true = some r ∧ r.1.openPositions = 2 := by
    have h : (crossingCycle true).map (·.1.openPositions) = some 2 := by decide +kernel
    simpa [Option.map_eq_some_iff] using h
  obtain ⟨⟨rt, n⟩, hrt, hopen⟩ := hcycle
  have hrun := processActivation_run (crossing_rows true) hrt
  have hlim := (hall _ (crossing_reachable hrun)).2
  have hversion := (hrun.invariant
    (I := fun s => AssetRows (crossingVersion true) s.stored ∧
      AssetRows (crossingVersion true) s.work)
    (fun _ _ _ hs _ hst => liveStep_rows hst hs) ⟨crossing_rows true, crossing_rows true⟩).1.1
  rw [LiveRuntime.definition, hversion, hopen] at hlim
  exact absurd hlim (by decide)

/-- Without reversals one position is open after the same cycle, and it is counted. -/
theorem position_limit_kept : ∃ rt n, crossingCycle false = some (rt, n) ∧
    rt.openPositions = 1 ∧ PositionLimit rt := by
  have hcycle : ∃ r, crossingCycle false = some r ∧ r.1.openPositions = 1 := by
    have h : (crossingCycle false).map (·.1.openPositions) = some 1 := by decide +kernel
    simpa [Option.map_eq_some_iff] using h
  obtain ⟨⟨rt, n⟩, hrt, hopen⟩ := hcycle
  exact ⟨rt, n, hrt, hopen, (open_positions_counted_and_bounded (crossing_reachable
    (processActivation_noFlatReversal (crossing_rows false) rfl hrt))).1⟩

/-! ### The event log -/

/-- One event of a well-formed log: an exit needs an open position and an entry a flat one. -/
def replayEvent (current : PositionState) (e : LiveStrategyEvent) : Option PositionState :=
  match e.eventType with
  | .entry => if current = .flat then some e.positionState else none
  | .exit => if current = .flat then none else some .flat
  | _ => some current

/-- The position a log leads to from flat; `none` when the log is not well formed. -/
def replay (events : List LiveStrategyEvent) : Option PositionState :=
  events.foldlM replayEvent .flat

def LiveRuntime.eventsOf (rt : LiveRuntime) (assetId : ℕ) : List LiveStrategyEvent :=
  rt.events.filter (·.assetId = assetId)

/-- The log of every asset is well formed and replays to its position. -/
def EventsReplay (rt : LiveRuntime) : Prop :=
  ∀ state ∈ rt.states, replay (rt.eventsOf state.assetId) = some state.positionState

theorem transition_replays {d : CanonicalStrategyDefinition} {signal : SignalDefinition}
    {canOpen : Bool} {before after : PositionState} {events : List GeneratedLiveEvent}
    (h : Transition d signal canOpen before after events) (candle : LiveCandle)
    (hok : before = .flat → canOpen = true ∨ signal.role = .exit ∨
      d.position.allowReversal = false) :
    (events.map (eventOf candle)).foldlM replayEvent before = some after := by
  cases h with
  | fired => rfl
  | exit hb => simp [eventOf, replayEvent, hb]
  | entry hb hc ha => simp [eventOf, replayEvent, hb]
  | reversal hrole ha hc hr =>
    have hopen : before ≠ .flat := by
      intro hflat
      rcases hok hflat with h | h | h
      · simp [hc hflat] at h
      · simp [hrole] at h
      · simp [hr] at h
    simp [eventOf, replayEvent, hopen]

theorem replay_append {events more : List LiveStrategyEvent} {p : PositionState}
    (h : replay events = some p) : replay (events ++ more) = more.foldlM replayEvent p := by
  unfold replay at *
  rw [List.foldlM_append, h]
  rfl

theorem eventsOf_append (events : List LiveStrategyEvent) (new : List GeneratedLiveEvent)
    (candle : LiveCandle) (assetId : ℕ) :
    (events ++ new.map (eventOf candle)).filter (·.assetId = assetId) =
      events.filter (·.assetId = assetId) ++
        if candle.assetId = assetId then new.map (eventOf candle) else [] := by
  rw [List.filter_append]
  congr 1
  by_cases h : candle.assetId = assetId
  · rw [if_pos h]
    exact List.filter_eq_self.mpr (by simp [eventOf, h])
  · rw [if_neg h]
    exact List.filter_eq_nil_iff.mpr (by simp [eventOf, h])

theorem eventsReplay_evaluate {stored work : LiveRuntime}
    {state : LiveStrategyState} {candle : LiveCandle} (reading : Reading)
    (hs : state ∈ work.states) (hc : candle.assetId = state.assetId) (hrep : EventsReplay work)
    (hok : ¬ ReversesFlat work state candle) :
    EventsReplay (evaluateAndPersist isoformat stored work state candle reading).1 := by
  rcases evaluateAndPersist_cases isoformat stored work state candle reading with
    h | ⟨-, -, attempt, -, h⟩
  · rw [h]
    exact hrep
  rw [h]
  have hcases := evaluateGuarded_cases work state candle
  generalize evaluateGuarded work.definition work.activation state candle = o at hcases ⊢
  intro t ht
  simp only [LiveRuntime.eventsOf, eventsOf_append]
  rcases mem_setState ht with rfl | ⟨ht, hne⟩
  · have hb : o.positionBefore = state.positionState := by
      rcases hcases with hstill | hmove
      · exact hstill.1
      · exact hmove.2.1
    have hold : replay (work.events.filter (·.assetId = state.assetId)) =
        some state.positionState := hrep state hs
    rw [recordState_assetId, recordState_position o candle reading state hb, if_pos hc,
      replay_append hold]
    rcases hcases with ⟨-, ha, hev⟩ | ⟨hst, -, hdue, signal, hm, htr⟩
    · rw [hev, ha, hb, ite_self]
      rfl
    · rw [if_pos hst]
      refine transition_replays htr candle fun hflat => ?_
      by_contra hcon
      simp only [not_or, Bool.not_eq_true, Bool.not_eq_false] at hcon
      obtain ⟨hfull, hrole, hr⟩ := hcon
      simp only [canOpenPosition, hflat, ne_eq, not_true_eq_false, decide_false, Bool.false_or,
        decide_eq_false_iff_not, not_lt] at hfull
      have hentry : signal.role = .entry := by
        cases h : signal.role with
        | entry => rfl
        | exit => exact absurd h hrole
      exact hok ⟨hflat, hfull, hr, hdue, signal, hm, hentry⟩
  · rw [recordState_assetId] at hne
    rw [if_neg (fun h => hne (h.symm.trans hc)), List.append_nil]
    exact hrep t ht

theorem eventsReplay_step {s t : LiveSession} {a : LiveAction}
    (hs : EventsReplay s.stored ∧ EventsReplay s.work) (hok : NoFlatReversal s a)
    (hst : LiveStep isoformat s a t) : EventsReplay t.stored ∧ EventsReplay t.work := by
  cases hst with
  | evaluate hmem hc => exact ⟨hs.1, eventsReplay_evaluate _ hmem hc hs.2 hok⟩
  | cursor => exact hs
  | fail => exact hs
  | commit => exact ⟨hs.2, hs.2⟩
  | rollback => exact ⟨hs.1, hs.1⟩
  | @deactivate rt now =>
    have : EventsReplay (deactivate now rt) := by
      unfold deactivate
      by_cases ha : rt.activation.status = .active
      · intro t ht
        simp only [ha, ne_eq, not_true_eq_false, if_false, List.mem_map] at ht ⊢
        obtain ⟨u, hu, rfl⟩ := ht
        exact hs.1 u hu
      · simpa [ha] using hs.1
    exact ⟨this, this⟩

/-- Along every run without a flat reversal the events of every asset, in evaluation order, are
well formed and replay to its position. -/
theorem events_replay_to_position {digest : CanonicalStrategyDefinition → String}
    {s : LiveSession} (h : LiveReachable isoformat digest NoFlatReversal s) :
    EventsReplay s.stored ∧ EventsReplay s.work := by
  obtain ⟨version, configuration, now, rt, hrt, hrun⟩ := h
  rw [activate_ok hrt] at hrun
  have hnew : EventsReplay (newRuntime version configuration now) := by
    intro state hs
    simp only [newRuntime, List.mem_map] at hs
    obtain ⟨id, -, rfl⟩ := hs
    rfl
  exact hrun.invariant (I := fun s => EventsReplay s.stored ∧ EventsReplay s.work)
    (fun _ _ _ hs hp hst => eventsReplay_step hs hp hst) ⟨hnew, hnew⟩

/-- In the cycle of two assets the second one exits a position it never had. -/
theorem flat_exit_logged : ¬ ∀ s, LiveReachable (fun _ => "") (fun _ => "v1")
    (fun _ _ => True) s → EventsReplay s.stored := by
  intro hall
  have hcycle : ∃ r, crossingCycle true = some r ∧
      (r.1.states.any fun state => state.assetId = 2 && replay (r.1.eventsOf 2) = none) = true := by
    have h : (crossingCycle true).map (fun r =>
        r.1.states.any fun state => state.assetId = 2 && replay (r.1.eventsOf 2) = none) =
        some true := by decide +kernel
    simpa only [Option.map_eq_some_iff] using h
  obtain ⟨⟨rt, n⟩, hrt, hbad⟩ := hcycle
  have hrep := hall _ (crossing_reachable (processActivation_run (crossing_rows true) hrt))
  obtain ⟨state, hs, hstate⟩ := List.any_eq_true.mp hbad
  simp only [Bool.and_eq_true, decide_eq_true_eq] at hstate
  have := hrep state hs
  rw [hstate.1, hstate.2] at this
  cases this

/-- Without reversals the logs of the same cycle replay to the positions. -/
theorem crossing_events_replay : ∃ rt n, crossingCycle false = some (rt, n) ∧
    rt.events.length = 3 ∧ EventsReplay rt := by
  have hcycle : ∃ r, crossingCycle false = some r ∧ r.1.events.length = 3 := by
    have h : (crossingCycle false).map (·.1.events.length) = some 3 := by decide +kernel
    simpa [Option.map_eq_some_iff] using h
  obtain ⟨⟨rt, n⟩, hrt, hlen⟩ := hcycle
  exact ⟨rt, n, hrt, hlen, (events_replay_to_position (crossing_reachable
    (processActivation_noFlatReversal (crossing_rows false) rfl hrt))).1⟩

end Quantive.LiveStrategy
