import Quantive.LiveStrategy.Contiguity

/-!
# The health of an activation

`_refresh_activation_health` reads the columns of the asset states while the changes of its own
transaction are not flushed, so it projects the health from before the cycle; a gap or an
error writes the health of the activation directly. What the cycle leaves is therefore
decided by its last recorded candle.
-/

namespace Quantive.LiveStrategy

/-- The aggregation ERROR > DEGRADED > UNKNOWN > HEALTHY. -/
def aggregateHealth (healths : List LiveStrategyHealth) : LiveStrategyHealth :=
  if .error ∈ healths then .error
  else if .degraded ∈ healths then .degraded
  else if .unknown ∈ healths then .unknown
  else .healthy

/-- The health that `_refresh_activation_health` counts for a row: an asset without a cursor is not
healthy. -/
def countedHealth (s : LiveStrategyState) : LiveStrategyHealth :=
  if s.lastCandleTimestamp = none ∧ s.health ≠ .error ∧ s.health ≠ .degraded then .unknown
  else s.health

/-! ### The outcomes of a cycle -/

/-- The status that the evaluator gives a candle; the position of the asset does not matter. -/
def candleStatus (d : CanonicalStrategyDefinition) (candle : LiveCandle) (last : Option ℤ) :
    LiveEvaluationStatus :=
  match evaluateLiveCandle d candle .flat last with
  | .ok o => o.status
  | .error _ => .error

/-- An outcome of the candle is recorded. -/
def isRecorded (observations : List LiveStrategyObservation) (candle : LiveCandle)
    (status : LiveEvaluationStatus) : Bool :=
  status ≠ .duplicate && status ≠ .outOfOrder &&
    (nextAttempt (lastAttempt observations candle.assetId candle.timestamp) status).isSome

/-- The recorded statuses of one asset: the loop stops at a candle that leaves the cursor behind. -/
def recordedStatuses (d : CanonicalStrategyDefinition) (observations : List LiveStrategyObservation) :
    Option ℤ → List LiveCandle → List LiveEvaluationStatus
  | _, [] => []
  | last, candle :: rest =>
    let status := candleStatus d candle last
    let recorded := isRecorded observations candle status
    let last' := if recorded ∧ status = .evaluated then some candle.timestamp else last
    (if recorded then [status] else []) ++
      if last' = some candle.timestamp then recordedStatuses d observations last' rest else []

/-- The health of an asset after a recorded candle. -/
def healthAfter : LiveEvaluationStatus → LiveStrategyHealth
  | .evaluated => .healthy
  | .gapDetected => .degraded
  | _ => .error

/-- The last recorded status of each asset of a slice, in the order of the slice. -/
def sliceOutcomes (rt : LiveRuntime) (input : CycleInput) (limit : ℕ)
    (states : List LiveStrategyState) : List (ℕ × LiveEvaluationStatus) :=
  states.filterMap fun s =>
    let candles := (readCanonicalCandles (input.candles rt.definition.timeframe s.assetId)
      s.assetId (s.lastCandleTimestamp.getD rt.activation.activatedAt) limit).getD []
    (recordedStatuses rt.definition rt.observations s.lastCandleTimestamp candles).getLast?.map
      fun status => (s.assetId, status)

/-- The outcomes of the next cycle. -/
def cycleOutcomes (settings : LiveSettings) (input : CycleInput) (rt : LiveRuntime) :
    List (ℕ × LiveEvaluationStatus) :=
  sliceOutcomes rt input
    (min rt.activation.configuration.maxCandlesPerCycle settings.maxCandlesPerAssetCycle)
    (lockedStateSlice rt settings.maxAssetsPerCycle).1

/-- The health an asset ends the cycle with. -/
def endHealth (outcomes : List (ℕ × LiveEvaluationStatus)) (s : LiveStrategyState) :
    LiveStrategyHealth :=
  match outcomes.lookup s.assetId with
  | some status => healthAfter status
  | none => s.health

/-- When the health is the aggregate, by the last recorded candle of the cycle: an error always
shows; a gap shows when no asset ends in an error; after an evaluated candle the rows from before
the cycle have to aggregate to what the outcomes aggregate to. -/
def OutcomeShows (states : List LiveStrategyState) (outcomes : List (ℕ × LiveEvaluationStatus)) : Prop :=
  match outcomes.getLast? with
  | none => True
  | some (_, .evaluated) =>
    aggregateHealth (states.map countedHealth) = aggregateHealth (states.map (endHealth outcomes))
  | some (_, .gapDetected) => ∀ s ∈ states, endHealth outcomes s ≠ .error
  | some _ => True

/-! ### The status of a candle -/

theorem applySignal_isOk (d : CanonicalStrategyDefinition) (signal : SignalDefinition)
    (p q : PositionState) (b c : Bool) :
    (applySignal d signal p b).isOk = (applySignal d signal q c).isOk := by
  have hok : ∀ p b, (applySignal d signal p b).isOk =
      (signal.role = .exit || (positionFromDirection signal.direction).isOk) := by
    intro p b
    unfold applySignal
    cases hrole : signal.role with
    | exit => by_cases hp : p = .flat <;> simp [hp, Except.isOk, Except.toBool, pure, Except.pure]
    | entry =>
      cases hd : positionFromDirection signal.direction with
      | error e =>
        by_cases hopen : (p = .flat && b) = true <;>
          simp [hopen, bind, Except.bind, Except.isOk, Except.toBool]
      | ok selected =>
        by_cases hopen : (p = .flat && b) = true
        · simp [hopen, bind, Except.bind, Except.isOk, Except.toBool, pure, Except.pure]
        · by_cases hr : ¬ p = selected ∧ d.position.allowReversal = true <;>
            simp [hopen, hr, bind, Except.bind, Except.isOk, Except.toBool, pure, Except.pure]
  rw [hok, hok]

theorem evaluateGuarded_status (d : CanonicalStrategyDefinition) (a : LiveStrategyActivation)
    (state : LiveStrategyState) (candle : LiveCandle) :
    (evaluateGuarded d a state candle).status = candleStatus d candle state.lastCandleTimestamp := by
  unfold evaluateGuarded candleStatus evaluateLiveCandle
  cases hr : candleRejected d candle state.lastCandleTimestamp with
  | some r => rfl
  | none =>
    cases hm : matchingSignal candle.close d.signals with
    | error e => cases e <;> rfl
    | ok found =>
      cases found with
      | none => rfl
      | some signal =>
        have hok := applySignal_isOk d signal state.positionState .flat
          (canOpenPosition d a state) true
        dsimp only
        cases h₁ : applySignal d signal state.positionState (canOpenPosition d a state) with
        | error e =>
          cases h₂ : applySignal d signal .flat true with
          | error e' => rfl
          | ok r =>
            rw [h₁, h₂] at hok
            cases hok
        | ok r =>
          cases h₂ : applySignal d signal .flat true with
          | error e' =>
            rw [h₁, h₂] at hok
            cases hok
          | ok r' => rfl

/-! ### What a cycle leaves of the healths -/

/-- The health of every asset. -/
def LiveRuntime.healths (rt : LiveRuntime) : List (ℕ × LiveStrategyHealth) :=
  rt.states.map fun s => (s.assetId, s.health)

def setHealth (assetId : ℕ) (health : LiveStrategyHealth) (healths : List (ℕ × LiveStrategyHealth)) :
    List (ℕ × LiveStrategyHealth) :=
  healths.map fun p => if p.1 = assetId then (p.1, health) else p

/-- The health of the activation after a recorded candle. -/
def activationAfter (stored : List LiveStrategyState) : LiveEvaluationStatus → LiveStrategyHealth
  | .evaluated => aggregateHealth (stored.map countedHealth)
  | .gapDetected => .degraded
  | _ => .error

theorem setState_healths (rt : LiveRuntime) (s : LiveStrategyState) :
    (rt.setState s).healths = setHealth s.assetId s.health rt.healths := by
  unfold LiveRuntime.healths LiveRuntime.setState setHealth
  rw [List.map_map, List.map_map]
  refine List.map_congr_left fun t _ => ?_
  by_cases h : t.assetId = s.assetId <;> simp [h]

theorem setHealth_setHealth (assetId : ℕ) (h h' : LiveStrategyHealth)
    (healths : List (ℕ × LiveStrategyHealth)) :
    setHealth assetId h' (setHealth assetId h healths) = setHealth assetId h' healths := by
  unfold setHealth
  rw [List.map_map]
  refine List.map_congr_left fun p _ => ?_
  by_cases he : p.1 = assetId <;> simp [he]

theorem recordState_health (o : LiveEvaluationOutcome) (candle : LiveCandle) (reading : Reading)
    (state : LiveStrategyState) (hd : o.status ≠ .duplicate) (ho : o.status ≠ .outOfOrder) :
    (recordState o candle reading state).health = healthAfter o.status := by
  unfold recordState
  cases hst : o.status with
  | evaluated => by_cases hp : o.positionAfter = o.positionBefore <;> simp [hp, healthAfter]
  | duplicate => exact absurd hst hd
  | outOfOrder => exact absurd hst ho
  | gapDetected => simp [healthAfter]
  | invalid => simp [healthAfter]
  | error => simp [healthAfter]

theorem countedHealth_eq (s : LiveStrategyState) :
    (countedHealth s = .error ↔ s.health = .error) ∧
    (countedHealth s = .degraded ↔ s.health = .degraded) ∧
    (s.health ≠ .error → s.health ≠ .degraded →
      (countedHealth s = .unknown ↔ s.health = .unknown ∨ s.lastCandleTimestamp = none)) := by
  unfold countedHealth
  by_cases hn : s.lastCandleTimestamp = none <;> cases s.health <;> simp [hn]

/-- `_refresh_activation_health` aggregates the counted healths of the rows. -/
theorem refreshActivationHealth_health (stored : List LiveStrategyState) (hne : stored ≠ [])
    (a : LiveStrategyActivation) :
    (refreshActivationHealth stored a).health = aggregateHealth (stored.map countedHealth) := by
  have herror : (.error ∈ stored.map countedHealth) ↔ stored.any (·.health = .error) := by
    simp [(countedHealth_eq _).1]
  have hdegraded : (.degraded ∈ stored.map countedHealth) ↔ stored.any (·.health = .degraded) := by
    simp [(countedHealth_eq _).2.1]
  unfold refreshActivationHealth aggregateHealth
  rw [if_neg hne]
  by_cases he : stored.any (·.health = .error)
  · rw [if_pos he, if_pos (herror.mpr he)]
  · rw [if_neg he, if_neg (fun h => he (herror.mp h))]
    by_cases hdeg : stored.any (·.health = .degraded)
    · rw [if_pos hdeg, if_pos (hdegraded.mpr hdeg)]
    · rw [if_neg hdeg, if_neg (fun h => hdeg (hdegraded.mp h))]
      have hunknown : (.unknown ∈ stored.map countedHealth) ↔
          stored.any (·.health = .unknown) || stored.any (·.lastCandleTimestamp = none) := by
        have hrow : ∀ s ∈ stored, (countedHealth s = .unknown ↔
            s.health = .unknown ∨ s.lastCandleTimestamp = none) := fun s hs =>
          (countedHealth_eq s).2.2 (fun h => he (List.any_eq_true.mpr ⟨s, hs, by simpa using h⟩))
            fun h => hdeg (List.any_eq_true.mpr ⟨s, hs, by simpa using h⟩)
        simp only [List.mem_map, Bool.or_eq_true, List.any_eq_true, decide_eq_true_eq]
        constructor
        · rintro ⟨s, hs, hcounted⟩
          exact ((hrow s hs).mp hcounted).imp (fun h => ⟨s, hs, h⟩) fun h => ⟨s, hs, h⟩
        · rintro (⟨s, hs, h⟩ | ⟨s, hs, h⟩)
          · exact ⟨s, hs, (hrow s hs).mpr (Or.inl h)⟩
          · exact ⟨s, hs, (hrow s hs).mpr (Or.inr h)⟩
      by_cases hu : stored.any (·.health = .unknown) || stored.any (·.lastCandleTimestamp = none)
      · rw [if_pos hu, if_pos (hunknown.mpr hu)]
      · rw [if_neg hu, if_neg (fun h => hu (hunknown.mp h))]

section
variable {isoformat : ℤ → String} {stored : LiveRuntime}

theorem recordActivation_health (o : LiveEvaluationOutcome) (reading : Reading)
    (a : LiveStrategyActivation) (hne : stored.states ≠ []) (hd : o.status ≠ .duplicate)
    (ho : o.status ≠ .outOfOrder) :
    (recordActivation isoformat stored.states o reading a).health =
      activationAfter stored.states o.status := by
  unfold recordActivation
  cases hst : o.status with
  | evaluated =>
    simp only [if_true, activationAfter]
    exact refreshActivationHealth_health _ hne _
  | duplicate => exact absurd hst hd
  | outOfOrder => exact absurd hst ho
  | gapDetected => simp [activationAfter]
  | invalid => simp [activationAfter]
  | error => simp [activationAfter]

theorem recordActivation_activatedAt (o : LiveEvaluationOutcome) (reading : Reading)
    (a : LiveStrategyActivation) :
    (recordActivation isoformat stored.states o reading a).activatedAt = a.activatedAt := by
  unfold recordActivation refreshActivationHealth
  dsimp only
  split_ifs <;> rfl

/-- What some evaluations leave: the healths of the assets, the health of the activation after the
last recorded status, and one observation for each. -/
structure Recorded (stored : LiveRuntime) (assetId : ℕ) (statuses : List LiveEvaluationStatus)
    (work work' : LiveRuntime) : Prop where
  healths : work'.healths = statuses.getLast?.elim work.healths
    fun status => setHealth assetId (healthAfter status) work.healths
  activation : work'.activation.health = statuses.getLast?.elim work.activation.health
    (activationAfter stored.states)
  observations : work'.observations.length = work.observations.length + statuses.length
  version : work'.version = work.version
  activatedAt : work'.activation.activatedAt = work.activation.activatedAt

theorem Recorded.refl (assetId : ℕ) (work : LiveRuntime) : Recorded stored assetId [] work work :=
  ⟨rfl, rfl, rfl, rfl, rfl⟩

theorem Recorded.trans {assetId : ℕ} {xs ys : List LiveEvaluationStatus} {a b c : LiveRuntime}
    (h : Recorded stored assetId xs a b) (h' : Recorded stored assetId ys b c) :
    Recorded stored assetId (xs ++ ys) a c := by
  refine ⟨?_, ?_, ?_, h'.version.trans h.version, h'.activatedAt.trans h.activatedAt⟩
  · rw [h'.healths, h.healths, List.getLast?_append]
    cases ys.getLast? <;> cases xs.getLast? <;> simp [setHealth_setHealth]
  · rw [h'.activation, h.activation, List.getLast?_append]
    cases ys.getLast? <;> cases xs.getLast? <;> rfl
  · rw [h'.observations, h.observations, List.length_append, Nat.add_assoc]

/-- One evaluation records the outcome, or it leaves everything alone. -/
theorem evaluateAndPersist_isRecorded (isoformat : ℤ → String) (stored work : LiveRuntime)
    (state : LiveStrategyState) (candle : LiveCandle) (reading : Reading)
    {status : LiveEvaluationStatus}
    (hstatus : status = candleStatus work.definition candle state.lastCandleTimestamp) :
    let outcome := evaluateGuarded work.definition work.activation state candle
    outcome.status = status ∧
    (isRecorded stored.observations candle status = false ∧
        evaluateAndPersist isoformat stored work state candle reading = (work, state, false) ∨
      isRecorded stored.observations candle status = true ∧
        status ≠ .duplicate ∧ status ≠ .outOfOrder ∧
        ∃ attempt, evaluateAndPersist isoformat stored work state candle reading =
          ({ work.setState (recordState outcome candle reading state) with
            activation := recordActivation isoformat stored.states outcome reading work.activation
            observations := work.observations ++ [observationOf candle outcome attempt reading]
            events := work.events ++ outcome.events.map (eventOf candle) },
           recordState outcome candle reading state, true)) := by
  intro outcome
  have hguarded := evaluateGuarded_status work.definition work.activation state candle
  rw [← hstatus] at hguarded
  refine ⟨hguarded, ?_⟩
  rcases evaluateAndPersist_cases isoformat stored work state candle reading with
    h | ⟨hd, ho, attempt, hattempt, h⟩
  · left
    refine ⟨?_, h⟩
    by_contra hyes
    rw [Bool.not_eq_false] at hyes
    simp only [isRecorded, Bool.and_eq_true, decide_eq_true_eq, Option.isSome_iff_exists] at hyes
    obtain ⟨⟨hd, ho⟩, attempt, hattempt⟩ := hyes
    have hflag : (evaluateAndPersist isoformat stored work state candle reading).2.2 = true := by
      simp [evaluateAndPersist, hguarded, hd, ho, hattempt]
    rw [h] at hflag
    cases hflag
  · right
    rw [hguarded] at hd ho hattempt
    exact ⟨by simp [isRecorded, hd, ho, hattempt], hd, ho, attempt, h⟩

/-- One evaluation. -/
theorem evaluateAndPersist_recorded (isoformat : ℤ → String) (hne : stored.states ≠ [])
    (work : LiveRuntime) (state : LiveStrategyState) (candle : LiveCandle) (reading : Reading)
    {status : LiveEvaluationStatus} {recorded : Bool}
    (hstatus : status = candleStatus work.definition candle state.lastCandleTimestamp)
    (hrecorded : recorded = isRecorded stored.observations candle status) :
    Recorded stored state.assetId (if recorded then [status] else []) work
      (evaluateAndPersist isoformat stored work state candle reading).1 ∧
    (evaluateAndPersist isoformat stored work state candle reading).2.1.assetId = state.assetId ∧
    (evaluateAndPersist isoformat stored work state candle reading).2.1.lastCandleTimestamp =
      if recorded ∧ status = .evaluated then some candle.timestamp else state.lastCandleTimestamp := by
  obtain ⟨hguarded, ⟨hnot, h⟩ | ⟨hyes, hd, ho, attempt, h⟩⟩ :=
    evaluateAndPersist_isRecorded isoformat stored work state candle reading hstatus
  · rw [h, hrecorded, hnot]
    exact ⟨.refl _ _, rfl, by simp⟩
  · rw [h, hrecorded, hyes]
    rw [← hguarded] at hd ho ⊢
    refine ⟨⟨?_, ?_, ?_, rfl, recordActivation_activatedAt _ _ _⟩, recordState_assetId _ _ _ _, ?_⟩
    · show (work.setState _).healths = _
      rw [setState_healths, recordState_assetId, recordState_health _ _ _ _ hd ho]
      rfl
    · exact recordActivation_health _ _ _ hne hd ho
    · simp
    · rw [recordState_cursor]
      simp

/-- The candles of one asset. -/
theorem processCandles_recorded (isoformat : ℤ → String) (hne : stored.states ≠ [])
    (clock : ℕ → ℤ → Reading) (candles : List LiveCandle) (work : LiveRuntime)
    (state : LiveStrategyState) (n : ℕ) :
    Recorded stored state.assetId
      (recordedStatuses work.definition stored.observations state.lastCandleTimestamp candles) work
      (processCandles isoformat stored clock candles work state n).1 := by
  induction candles generalizing work state n with
  | nil => exact .refl _ _
  | cons candle rest ih =>
    obtain ⟨hrecorded, hid, hlast⟩ := evaluateAndPersist_recorded isoformat hne work state candle
      (clock candle.assetId candle.timestamp) rfl rfl
    have hrest := ih (evaluateAndPersist isoformat stored work state candle
      (clock candle.assetId candle.timestamp)).1 (evaluateAndPersist isoformat stored work state candle
      (clock candle.assetId candle.timestamp)).2.1
    have hdefinition : (evaluateAndPersist isoformat stored work state candle
        (clock candle.assetId candle.timestamp)).1.definition = work.definition :=
      congrArg StrategyVersion.definition hrecorded.version
    rw [hid, hdefinition] at hrest
    simp only [processCandles, recordedStatuses]
    generalize (if isRecorded stored.observations candle (candleStatus work.definition candle
      state.lastCandleTimestamp) = true then [candleStatus work.definition candle
        state.lastCandleTimestamp] else []) = recorded at hrecorded ⊢
    rw [← hlast]
    by_cases hgo : (evaluateAndPersist isoformat stored work state candle
        (clock candle.assetId candle.timestamp)).2.1.lastCandleTimestamp = some candle.timestamp
    · rw [if_neg (not_not_intro hgo), if_pos hgo]
      exact hrecorded.trans (hrest _)
    · rw [if_pos hgo, if_neg hgo, List.append_nil]
      exact hrecorded

/-- Setting the healths of different assets one after the other. -/
theorem foldl_setHealth (outcomes : List (ℕ × LiveEvaluationStatus))
    (hnd : (outcomes.map Prod.fst).Nodup) (healths : List (ℕ × LiveStrategyHealth)) :
    outcomes.foldl (fun hs p => setHealth p.1 (healthAfter p.2) hs) healths =
      healths.map fun p => (p.1, (outcomes.lookup p.1).elim p.2 healthAfter) := by
  induction outcomes generalizing healths with
  | nil => simp
  | cons o outcomes ih =>
    obtain ⟨id, status⟩ := o
    rw [List.map_cons, List.nodup_cons] at hnd
    have hnone : outcomes.lookup id = none := by
      rw [List.lookup_eq_none_iff]
      intro q hq
      have hne : id ≠ q.1 := fun he => hnd.1 (List.mem_map.mpr ⟨q, hq, he.symm⟩)
      simpa using hne
    rw [List.foldl_cons, ih hnd.2]
    unfold setHealth
    rw [List.map_map]
    refine List.map_congr_left fun p _ => ?_
    by_cases he : p.1 = id
    · simp [he, hnone]
    · have hbeq : (p.1 == id) = false := by simpa using he
      simp [he, List.lookup_cons, hbeq]

/-- The assets of a slice. -/
theorem processStates_recorded {rt : LiveRuntime} (hne : rt.states ≠ []) (input : CycleInput)
    (limit : ℕ) (states : List LiveStrategyState) {work : LiveRuntime} {n : ℕ} {r : LiveRuntime × ℕ}
    (hversion : work.version = rt.version)
    (hactivated : work.activation.activatedAt = rt.activation.activatedAt)
    (h : processStates isoformat rt input limit states work n = some r) :
    r.1.healths = (sliceOutcomes rt input limit states).foldl
      (fun hs p => setHealth p.1 (healthAfter p.2) hs) work.healths ∧
    r.1.activation.health = (sliceOutcomes rt input limit states).getLast?.elim work.activation.health
      (fun p => activationAfter rt.states p.2) ∧
    (sliceOutcomes rt input limit states = [] → r.1.observations.length = work.observations.length) := by
  induction states generalizing work n with
  | nil =>
    cases h
    exact ⟨rfl, rfl, fun _ => rfl⟩
  | cons state rest ih =>
    simp only [processStates, Option.bind_eq_bind, Option.bind_eq_some_iff] at h
    obtain ⟨candles, hcandles, h⟩ := h
    have hdefinition : work.definition = rt.definition := congrArg StrategyVersion.definition hversion
    have hone := processCandles_recorded isoformat hne input.clock candles work state n
    obtain ⟨hhealths, hactivation, hlength⟩ := ih (hone.version.trans hversion)
      (hone.activatedAt.trans hactivated) h
    rw [hdefinition] at hone hcandles
    rw [hactivated] at hcandles
    have houtcome : sliceOutcomes rt input limit (state :: rest) =
        ((recordedStatuses rt.definition rt.observations state.lastCandleTimestamp candles).getLast?.map
          fun status => (state.assetId, status)).toList ++ sliceOutcomes rt input limit rest := by
      unfold sliceOutcomes
      rw [List.filterMap_cons]
      simp only [hcandles, Option.getD_some]
      cases (recordedStatuses rt.definition rt.observations state.lastCandleTimestamp
        candles).getLast? <;> rfl
    rw [houtcome]
    cases hlast : (recordedStatuses rt.definition rt.observations state.lastCandleTimestamp
        candles).getLast? with
    | none =>
      have hnil := List.getLast?_eq_none_iff.mp hlast
      rw [hone.healths, hlast] at hhealths
      rw [hone.activation, hlast] at hactivation
      rw [hone.observations, hnil] at hlength
      exact ⟨hhealths, hactivation, hlength⟩
    | some status =>
      rw [hone.healths, hlast] at hhealths
      rw [hone.activation, hlast] at hactivation
      refine ⟨hhealths, ?_, fun hnil => by simp at hnil⟩
      rw [hactivation, Option.map_some, Option.toList_some, List.getLast?_append]
      cases (sliceOutcomes rt input limit rest).getLast? <;> rfl

end

/-! ### When the health is the aggregate -/

theorem sliceOutcomes_ids (rt : LiveRuntime) (input : CycleInput) (limit : ℕ)
    (states : List LiveStrategyState) :
    ((sliceOutcomes rt input limit states).map Prod.fst).Sublist (states.map (·.assetId)) := by
  unfold sliceOutcomes
  induction states with
  | nil => exact List.Sublist.refl _
  | cons state rest ih =>
    rw [List.filterMap_cons]
    split
    · exact ih.trans (List.sublist_cons_self _ _)
    · rename_i p hp
      obtain ⟨status, -, rfl⟩ := Option.map_eq_some_iff.mp hp
      exact ih.cons_cons _

theorem lookup_of_mem {κ α : Type} [BEq κ] [LawfulBEq κ] {l : List (κ × α)} (hnd : (l.map Prod.fst).Nodup)
    {k : κ} {a : α} (h : (k, a) ∈ l) : l.lookup k = some a := by
  obtain ⟨l₁, l₂, rfl⟩ := List.append_of_mem h
  rw [List.lookup_eq_some_iff]
  refine ⟨l₁, l₂, rfl, fun p hp => ?_⟩
  rw [List.map_append, List.nodup_append] at hnd
  have hne := hnd.2.2 p.1 (List.mem_map_of_mem hp) k (by simp)
  simpa using hne.symm

theorem aggregateHealth_error {healths : List LiveStrategyHealth} (h : .error ∈ healths) :
    aggregateHealth healths = .error := if_pos h

theorem aggregateHealth_degraded_iff {healths : List LiveStrategyHealth} (h : .degraded ∈ healths) :
    .degraded = aggregateHealth healths ↔ .error ∉ healths := by
  unfold aggregateHealth
  by_cases he : .error ∈ healths <;> simp [he, h]

section
variable {isoformat : ℤ → String} {digest : CanonicalStrategyDefinition → String}
  {settings : LiveSettings} {input : CycleInput} {rt rt' : LiveRuntime} {n : ℕ}

/-- A committed cycle changes the row of the activation only, or it went through the asset loop. -/
theorem processActivation_cases
    (h : processActivation isoformat digest settings input rt = some (rt', n)) :
    (∃ a, rt' = rt.setActivation a ∧ a.activatedAt = rt.activation.activatedAt ∧
      a.lastEvaluatedAt = rt.activation.lastEvaluatedAt ∧
      (rt.activation.status = .active → a.status = .active →
        (lockedStateSlice rt settings.maxAssetsPerCycle).1 = [])) ∨
    ∃ last, (lockedStateSlice rt settings.maxAssetsPerCycle).1.getLast? = some last ∧
      processStates isoformat rt input
        (min rt.activation.configuration.maxCandlesPerCycle settings.maxCandlesPerAssetCycle)
        (lockedStateSlice rt settings.maxAssetsPerCycle).1
        (rt.setActivation { rt.activation with assetCursor := some last.assetId }) 0 =
          some (rt', n) := by
  -- A failed check leaves the activation in error.
  have hfailed : ∀ message, some (rt.setActivation { rt.activation with
      status := .error, health := .error, lastError := some message }, 0) = some (rt', n) →
      ∃ a, rt' = rt.setActivation a ∧ a.activatedAt = rt.activation.activatedAt ∧
        a.lastEvaluatedAt = rt.activation.lastEvaluatedAt ∧
        (rt.activation.status = .active → a.status = .active →
          (lockedStateSlice rt settings.maxAssetsPerCycle).1 = []) := by
    intro message he
    cases he
    exact ⟨_, rfl, rfl, rfl, fun _ hactive => by cases hactive⟩
  unfold processActivation at h
  by_cases ha : rt.activation.status = .active
  swap
  · rw [if_pos ha] at h
    cases h
    exact Or.inl ⟨rt.activation, rfl, rfl, rfl, fun hactive => absurd hactive ha⟩
  rw [if_neg (not_not_intro ha)] at h
  dsimp only at h
  by_cases hd : digest rt.definition = rt.version.definitionHash
  swap
  · rw [if_pos hd] at h
    exact Or.inl (hfailed _ h)
  rw [if_neg (not_not_intro hd)] at h
  by_cases hh : rt.version.definitionHash = rt.activation.strategyDefinitionHash
  swap
  · rw [if_pos hh] at h
    exact Or.inl (hfailed _ h)
  rw [if_neg (not_not_intro hh)] at h
  cases hv : validateLiveDefinition rt.definition rt.activation.configuration with
  | error e =>
    rw [hv] at h
    cases e with
    | valueError m => exact Or.inl (hfailed _ h)
    | typeError m => cases h
    | overflowError m => cases h
  | ok u =>
    rw [hv] at h
    dsimp only at h
    cases hl : (lockedStateSlice rt settings.maxAssetsPerCycle).1.getLast? with
    | none =>
      rw [hl] at h
      cases h
      exact Or.inl ⟨_, rfl, rfl, rfl, fun _ _ => List.getLast?_eq_none_iff.mp hl⟩
    | some last =>
      rw [hl] at h
      simp only [Option.bind_eq_bind, Option.bind_eq_some_iff] at h
      obtain ⟨⟨work', m⟩, hp, hcommit⟩ := h
      split at hcommit
      · cases hcommit
        exact Or.inr ⟨last, rfl, hp⟩
      · cases hcommit

/-- The committed health of the activation is the aggregate of its assets exactly when the last
recorded candle shows it. -/
theorem activationHealth_aggregates_iff {version : StrategyVersion} (hrows : AssetRows version rt)
    (h : processActivation isoformat digest settings input rt = some (rt', n))
    (hrecorded : rt.observations.length < rt'.observations.length) :
    rt'.activation.health = aggregateHealth (rt'.states.map (·.health)) ↔
      OutcomeShows rt.states (cycleOutcomes settings input rt) := by
  obtain ⟨a, rfl, -⟩ | ⟨last, -, hstates⟩ := processActivation_cases h
  · exact absurd hrecorded (Nat.lt_irrefl _)
  have hne : rt.states ≠ [] := by
    intro hnil
    have huniverse := hrows.2
    rw [hnil] at huniverse
    exact version.definition.nonempty.1 huniverse.symm
  obtain ⟨hafter, hactivation, hempty⟩ :=
    processStates_recorded hne input _ _ (by rfl) (by rfl) hstates
  change _ = (cycleOutcomes settings input rt).foldl _ _ at hafter
  change _ = (cycleOutcomes settings input rt).getLast?.elim _ _ at hactivation
  change cycleOutcomes settings input rt = [] → _ at hempty
  have hsub := lockedStateSlice_sublist rt settings.maxAssetsPerCycle
  have hperm := List.perm_insertionSort
    (fun s t : LiveStrategyState => s.assetId ≤ t.assetId) rt.states
  have hslice := sliceOutcomes_ids rt input
    (min rt.activation.configuration.maxCandlesPerCycle settings.maxCandlesPerAssetCycle)
    (lockedStateSlice rt settings.maxAssetsPerCycle).1
  have hids : ((cycleOutcomes settings input rt).map Prod.fst).Nodup :=
    hslice.nodup ((hsub.map _).nodup ((hperm.map _).nodup_iff.mpr hrows.nodup))
  have hassets : ∀ id ∈ (cycleOutcomes settings input rt).map Prod.fst,
      ∃ s ∈ rt.states, s.assetId = id := by
    intro id hid
    obtain ⟨s, hs, he⟩ := List.mem_map.mp (hslice.subset hid)
    exact ⟨s, hperm.mem_iff.mp (hsub.subset hs), he⟩
  generalize cycleOutcomes settings input rt = outcomes at *
  have hend : rt'.states.map (·.health) = rt.states.map (endHealth outcomes) := by
    rw [foldl_setHealth outcomes hids] at hafter
    have hsnd := congrArg (List.map Prod.snd) hafter
    simp only [LiveRuntime.healths, List.map_map] at hsnd
    refine hsnd.trans (List.map_congr_left fun s _ => ?_)
    simp only [Function.comp_apply, endHealth]
    cases outcomes.lookup s.assetId <;> rfl
  rw [hend]
  unfold OutcomeShows
  cases hlast : outcomes.getLast? with
  | none =>
    have hlength := hempty (List.getLast?_eq_none_iff.mp hlast)
    exact absurd hlength (Nat.ne_of_gt hrecorded)
  | some p =>
    obtain ⟨id, status⟩ := p
    have hmem : (id, status) ∈ outcomes := List.mem_of_mem_getLast? hlast
    rw [hlast, Option.elim_some] at hactivation
    rw [hactivation]
    -- The asset of the last recorded candle has its row, and ends the cycle with that status.
    have hshown : healthAfter status ∈ rt.states.map (endHealth outcomes) := by
      obtain ⟨s, hs, hid⟩ := hassets id (List.mem_map_of_mem hmem)
      refine List.mem_map.mpr ⟨s, hs, ?_⟩
      unfold endHealth
      rw [hid, lookup_of_mem hids hmem]
    cases status with
    | evaluated => exact Iff.rfl
    | gapDetected =>
      simp only [activationAfter]
      rw [aggregateHealth_degraded_iff hshown]
      simp
    | duplicate => exact iff_of_true (aggregateHealth_error hshown).symm trivial
    | outOfOrder => exact iff_of_true (aggregateHealth_error hshown).symm trivial
    | invalid => exact iff_of_true (aggregateHealth_error hshown).symm trivial
    | error => exact iff_of_true (aggregateHealth_error hshown).symm trivial

end

/-! ### The first candles of two assets -/

/-- Both assets end the first cycle healthy, and the activation stays unknown. -/
theorem first_candles_unknown : ¬ ∀ (rt rt' : LiveRuntime) (n : ℕ),
    AssetRows (crossingVersion false) rt →
    processActivation (fun _ => "") (fun _ => "v1") {} crossingInput rt = some (rt', n) →
    rt.observations.length < rt'.observations.length →
    rt'.activation.health = aggregateHealth (rt'.states.map (·.health)) := by
  intro hall
  have hcycle : ∃ r, crossingCycle false = some r ∧ (r.1.activation.health = .unknown ∧
      r.1.states.map (·.health) = [.healthy, .healthy] ∧ 0 < r.1.observations.length) := by
    have h : (crossingCycle false).map (fun r => decide (r.1.activation.health = .unknown ∧
        r.1.states.map (·.health) = [.healthy, .healthy] ∧ 0 < r.1.observations.length)) =
        some true := by decide +kernel
    simpa [Option.map_eq_some_iff] using h
  obtain ⟨⟨rt, n⟩, hrt, hunknown, hhealthy, hrecorded⟩ := hcycle
  have haggregate := hall _ rt n (crossing_rows false) hrt hrecorded
  rw [hunknown, hhealthy] at haggregate
  exact absurd haggregate (by decide)

theorem first_candles_outcomes : ∃ rt n, crossingCycle false = some (rt, n) ∧
    (rt.activation.health = aggregateHealth (rt.states.map (·.health)) ↔
      OutcomeShows (crossingRuntime false).states (cycleOutcomes {} crossingInput (crossingRuntime false))) := by
  have hcycle : ∃ r, crossingCycle false = some r ∧ 0 < r.1.observations.length := by
    have h : (crossingCycle false).map (fun r => decide (0 < r.1.observations.length)) = some true := by
      decide +kernel
    simpa [Option.map_eq_some_iff] using h
  obtain ⟨⟨rt, n⟩, hrt, hrecorded⟩ := hcycle
  exact ⟨rt, n, hrt, activationHealth_aggregates_iff (crossing_rows false) hrt hrecorded⟩

end Quantive.LiveStrategy
