import Quantive.LiveStrategy.Service

/-!
# Runs of a live runtime

The states of one activation at the granularity of single evaluations: the committed
rows and the rows of the open transaction. `processActivation_run` shows that a
committed cycle is such a run, so that what holds along every run holds for the service.
-/

namespace Quantive.LiveStrategy

structure LiveSession where
  stored : LiveRuntime
  work : LiveRuntime

inductive LiveAction where
  | evaluate (state : LiveStrategyState) (candle : LiveCandle) (reading : Reading)
  | cursor (assetId : Option ℕ)
  | fail (message : String)
  | commit
  | rollback
  | deactivate (now : ℤ)

section
variable (isoformat : ℤ → String)

/-- One action of the service. A deactivation locks the activation row, so no cycle is open. -/
inductive LiveStep : LiveSession → LiveAction → LiveSession → Prop
  | evaluate {stored work state candle reading} (hs : state ∈ work.states)
      (hc : candle.assetId = state.assetId) :
      LiveStep ⟨stored, work⟩ (.evaluate state candle reading)
        ⟨stored, (evaluateAndPersist isoformat stored work state candle reading).1⟩
  | cursor {stored work id} :
      LiveStep ⟨stored, work⟩ (.cursor id)
        ⟨stored, work.setActivation { work.activation with assetCursor := id }⟩
  | fail {stored work message} :
      LiveStep ⟨stored, work⟩ (.fail message)
        ⟨stored, work.setActivation
          { work.activation with status := .error, health := .error, lastError := some message }⟩
  | commit {stored work} : LiveStep ⟨stored, work⟩ .commit ⟨work, work⟩
  | rollback {stored work} : LiveStep ⟨stored, work⟩ .rollback ⟨stored, stored⟩
  | deactivate {stored now} :
      LiveStep ⟨stored, stored⟩ (.deactivate now) ⟨deactivate now stored, deactivate now stored⟩

/-- A run whose steps all meet `P`. -/
inductive LiveRun (P : LiveSession → LiveAction → Prop) : LiveSession → LiveSession → Prop
  | refl {s} : LiveRun P s s
  | step {s t u a} : LiveRun P s t → P t a → LiveStep isoformat t a u → LiveRun P s u

/-- The states reached from an activation by steps that all meet `P`. -/
def LiveReachable (digest : CanonicalStrategyDefinition → String)
    (P : LiveSession → LiveAction → Prop) (s : LiveSession) : Prop :=
  ∃ version configuration now rt, activate digest version configuration now = .ok rt ∧
    LiveRun isoformat P ⟨rt, rt⟩ s

variable {isoformat} {P : LiveSession → LiveAction → Prop}

theorem LiveRun.trans {s t u : LiveSession} (h : LiveRun isoformat P s t)
    (h' : LiveRun isoformat P t u) : LiveRun isoformat P s u := by
  induction h' with
  | refl => exact h
  | step _ hp hs ih => exact ih.step hp hs

/-- What every step preserves holds along the run. -/
theorem LiveRun.invariant {I : LiveSession → Prop}
    (hstep : ∀ s a t, I s → P s a → LiveStep isoformat s a t → I t)
    {s t : LiveSession} (h : LiveRun isoformat P s t) (hs : I s) : I t := by
  induction h with
  | refl => exact hs
  | step _ hp hst ih => exact hstep _ _ _ ih hp hst

/-- An invariant may strengthen what is known of the steps. -/
theorem LiveRun.strengthen {Q : LiveSession → LiveAction → Prop} {I : LiveSession → Prop}
    (hstep : ∀ s a t, I s → Q s a → LiveStep isoformat s a t → I t)
    (hq : ∀ s a, I s → Q s a → P s a) {s t : LiveSession} (h : LiveRun isoformat Q s t)
    (hs : I s) : LiveRun isoformat P s t := by
  induction h with
  | refl => exact .refl
  | step hrun hp hst ih => exact ih.step (hq _ _ (hrun.invariant hstep hs) hp) hst

/-! ### The rows of the assets -/

/-- Every asset has one row, and the binding is fixed. -/
def AssetRows (version : StrategyVersion) (rt : LiveRuntime) : Prop :=
  rt.version = version ∧ rt.states.map (·.assetId) = version.definition.universe

theorem setState_assets (rt : LiveRuntime) (s : LiveStrategyState) :
    (rt.setState s).states.map (·.assetId) = rt.states.map (·.assetId) := by
  simp only [LiveRuntime.setState, List.map_map]
  apply List.map_congr_left
  intro t ht
  by_cases h : t.assetId = s.assetId
  · simp [h]
  · simp [h]

theorem AssetRows.nodup {version : StrategyVersion} {rt : LiveRuntime} (h : AssetRows version rt) :
    (rt.states.map (·.assetId)).Nodup := by
  rw [h.2]
  exact version.definition.sorted.imp fun hlt => Nat.ne_of_lt hlt

theorem AssetRows.unique {version : StrategyVersion} {rt : LiveRuntime} (h : AssetRows version rt)
    {s t : LiveStrategyState} (hs : s ∈ rt.states) (ht : t ∈ rt.states)
    (he : s.assetId = t.assetId) : s = t :=
  List.inj_on_of_nodup_map h.nodup hs ht he

/-- Only the row of the evaluated asset changes. -/
theorem mem_setState {rt : LiveRuntime} {s t : LiveStrategyState}
    (h : t ∈ (rt.setState s).states) : t = s ∨ t ∈ rt.states ∧ t.assetId ≠ s.assetId := by
  simp only [LiveRuntime.setState, List.mem_map] at h
  obtain ⟨u, hu, rfl⟩ := h
  by_cases he : u.assetId = s.assetId
  · simp [he]
  · simp [he, hu]

/-! ### What one evaluation does -/

theorem recordState_assetId (outcome : LiveEvaluationOutcome) (candle : LiveCandle)
    (reading : Reading) (state : LiveStrategyState) :
    (recordState outcome candle reading state).assetId = state.assetId := by
  unfold recordState
  by_cases h : outcome.status = .evaluated
  · by_cases hp : outcome.positionAfter = outcome.positionBefore <;> simp [h, hp]
  · simp [h]

/-- `_evaluate_and_persist` leaves everything alone, or it records the outcome of the evaluator
as the next attempt at the candle. -/
theorem evaluateAndPersist_cases (isoformat : ℤ → String) (stored work : LiveRuntime) (state : LiveStrategyState)
    (candle : LiveCandle) (reading : Reading) :
    let outcome := evaluateGuarded work.definition work.activation state candle
    evaluateAndPersist isoformat stored work state candle reading = (work, state, false) ∨
    (outcome.status ≠ .duplicate ∧ outcome.status ≠ .outOfOrder ∧
      ∃ attempt, nextAttempt (lastAttempt stored.observations candle.assetId candle.timestamp)
          outcome.status = some attempt ∧
        evaluateAndPersist isoformat stored work state candle reading =
          ({ work.setState (recordState outcome candle reading state) with
            activation := recordActivation isoformat stored.states outcome reading work.activation
            observations := work.observations ++ [observationOf candle outcome attempt reading]
            events := work.events ++ outcome.events.map (eventOf candle) },
           recordState outcome candle reading state, true)) := by
  intro outcome
  by_cases hd : outcome.status = .duplicate ∨ outcome.status = .outOfOrder
  · left
    simp only [evaluateAndPersist, outcome] at hd ⊢
    rw [if_pos hd]
  · cases hn : nextAttempt (lastAttempt stored.observations candle.assetId candle.timestamp)
      outcome.status with
    | none =>
      left
      simp only [evaluateAndPersist, outcome] at hd hn ⊢
      rw [if_neg hd, hn]
    | some attempt =>
      right
      refine ⟨fun h => hd (Or.inl h), fun h => hd (Or.inr h), attempt, rfl, ?_⟩
      simp only [evaluateAndPersist, outcome] at hd hn ⊢
      rw [if_neg hd, hn]

theorem evaluateAndPersist_state (isoformat : ℤ → String) (stored work : LiveRuntime) (state : LiveStrategyState)
    (candle : LiveCandle) (reading : Reading) (hs : state ∈ work.states) :
    (evaluateAndPersist isoformat stored work state candle reading).2.1 ∈
        (evaluateAndPersist isoformat stored work state candle reading).1.states ∧
      (evaluateAndPersist isoformat stored work state candle reading).2.1.assetId =
        state.assetId := by
  rcases evaluateAndPersist_cases isoformat stored work state candle reading with
    h | ⟨-, -, attempt, -, h⟩
  · rw [h]
    exact ⟨hs, rfl⟩
  · rw [h]
    refine ⟨?_, recordState_assetId _ _ _ _⟩
    simp only [LiveRuntime.setState, List.mem_map]
    exact ⟨state, hs, by rw [if_pos (recordState_assetId _ _ _ _).symm]⟩

theorem evaluateAndPersist_rows {version : StrategyVersion} {stored work : LiveRuntime}
    (h : AssetRows version work) (state : LiveStrategyState) (candle : LiveCandle)
    (reading : Reading) :
    AssetRows version (evaluateAndPersist isoformat stored work state candle reading).1 := by
  rcases evaluateAndPersist_cases isoformat stored work state candle reading with
    he | ⟨-, -, attempt, -, he⟩
  · rw [he]
    exact h
  · rw [he]
    exact ⟨h.1, (setState_assets _ _).trans h.2⟩

theorem liveStep_rows {version : StrategyVersion} {s t : LiveSession} {a : LiveAction}
    (h : LiveStep isoformat s a t)
    (hs : AssetRows version s.stored ∧ AssetRows version s.work) :
    AssetRows version t.stored ∧ AssetRows version t.work := by
  cases h with
  | evaluate _ _ => exact ⟨hs.1, evaluateAndPersist_rows hs.2 _ _ _⟩
  | cursor => exact hs
  | fail => exact hs
  | commit => exact ⟨hs.2, hs.2⟩
  | rollback => exact ⟨hs.1, hs.1⟩
  | @deactivate stored now =>
    have : AssetRows version (deactivate now stored) := by
      unfold deactivate
      by_cases ha : stored.activation.status = .active
      · simpa [AssetRows, ha, Function.comp_def] using hs.1
      · simpa [ha] using hs.1
    exact ⟨this, this⟩

theorem newRuntime_rows (version : StrategyVersion) (configuration : LiveStrategyConfiguration)
    (now : ℤ) : AssetRows version (newRuntime version configuration now) := by
  simp [AssetRows, newRuntime, Function.comp_def]

theorem activate_ok {digest : CanonicalStrategyDefinition → String} {version : StrategyVersion}
    {configuration : LiveStrategyConfiguration} {now : ℤ} {rt : LiveRuntime}
    (h : activate digest version configuration now = .ok rt) :
    rt = newRuntime version configuration now := by
  unfold activate at h
  by_cases hd : digest version.definition = version.definitionHash
  · simp only [hd, ne_eq, not_true_eq_false, if_false] at h
    cases hv : validateLiveDefinition version.definition configuration with
    | error e => rw [hv] at h; cases h
    | ok u => rw [hv] at h; cases h; rfl
  · simp only [hd, ne_eq, not_false_eq_true, if_true] at h
    cases h

/-- The rows of the other assets stay as they are. -/
theorem evaluateAndPersist_keeps (isoformat : ℤ → String) (stored : LiveRuntime)
    {work : LiveRuntime} {state t : LiveStrategyState} (candle : LiveCandle) (reading : Reading)
    (ht : t ∈ work.states) (hne : t.assetId ≠ state.assetId) :
    t ∈ (evaluateAndPersist isoformat stored work state candle reading).1.states := by
  rcases evaluateAndPersist_cases isoformat stored work state candle reading with
    h | ⟨-, -, attempt, -, h⟩
  · rw [h]
    exact ht
  · rw [h]
    simp only [LiveRuntime.setState, List.mem_map]
    exact ⟨t, ht, by rw [recordState_assetId, if_neg hne]⟩

/-! ### A cycle is a run -/

section
variable (stored : LiveRuntime) (clock : ℕ → ℤ → Reading)

theorem processCandles_run (isoformat : ℤ → String) (stored : LiveRuntime)
    (clock : ℕ → ℤ → Reading) (candles : List LiveCandle) (work : LiveRuntime)
    (state : LiveStrategyState) (n : ℕ) (hs : state ∈ work.states)
    (hc : ∀ c ∈ candles, c.assetId = state.assetId) :
    LiveRun isoformat (fun _ _ => True) ⟨stored, work⟩
      ⟨stored, (processCandles isoformat stored clock candles work state n).1⟩ := by
  induction candles generalizing work state n with
  | nil => exact .refl
  | cons candle rest ih =>
    have hstep : LiveRun isoformat (fun _ _ => True) ⟨stored, work⟩ ⟨stored,
        (evaluateAndPersist isoformat stored work state candle
          (clock candle.assetId candle.timestamp)).1⟩ :=
      .step .refl trivial (.evaluate hs (hc candle (by simp)))
    have hnext := evaluateAndPersist_state isoformat stored work state candle
      (clock candle.assetId candle.timestamp) hs
    simp only [processCandles]
    by_cases hstop : (evaluateAndPersist isoformat stored work state candle
        (clock candle.assetId candle.timestamp)).2.1.lastCandleTimestamp = some candle.timestamp
    · rw [if_neg (not_not_intro hstop)]
      refine hstep.trans (ih _ _ _ hnext.1 fun c hm => ?_)
      rw [hc c (by simp [hm]), hnext.2]
    · rw [if_pos hstop]
      exact hstep

theorem processCandles_keeps (candles : List LiveCandle) (work : LiveRuntime)
    (state t : LiveStrategyState) (n : ℕ) (hs : state ∈ work.states) (ht : t ∈ work.states)
    (hne : t.assetId ≠ state.assetId) :
    t ∈ (processCandles isoformat stored clock candles work state n).1.states := by
  induction candles generalizing work state n with
  | nil => exact ht
  | cons candle rest ih =>
    have hkeep := evaluateAndPersist_keeps isoformat stored candle
      (clock candle.assetId candle.timestamp) ht hne
    have hnext := evaluateAndPersist_state isoformat stored work state candle
      (clock candle.assetId candle.timestamp) hs
    simp only [processCandles]
    by_cases hstop : (evaluateAndPersist isoformat stored work state candle
        (clock candle.assetId candle.timestamp)).2.1.lastCandleTimestamp = some candle.timestamp
    · rw [if_neg (not_not_intro hstop)]
      exact ih _ _ _ hnext.1 hkeep (by rw [hnext.2]; exact hne)
    · rw [if_pos hstop]
      exact hkeep

theorem modelValidate_row {r : CandleRow} {c : LiveCandle}
    (h : LiveCandle.modelValidate r = some c) : c.toCandleRow = r := by
  unfold LiveCandle.modelValidate at h
  by_cases hv : r.Valid
  · rw [dif_pos hv] at h
    cases h
    rfl
  · rw [dif_neg hv] at h
    cases h

theorem mapM_mem {α β : Type} {f : α → Option β} {xs : List α} {ys : List β}
    (h : xs.mapM f = some ys) {y : β} (hy : y ∈ ys) : ∃ x ∈ xs, f x = some y := by
  induction xs generalizing ys with
  | nil =>
    cases h
    cases hy
  | cons x xs ih =>
    simp only [List.mapM_cons, Option.bind_eq_bind, Option.bind_eq_some_iff] at h
    obtain ⟨z, hz, zs, hzs, h⟩ := h
    cases h
    rcases List.mem_cons.mp hy with rfl | hy
    · exact ⟨x, by simp, hz⟩
    · obtain ⟨w, hw, hf⟩ := ih hzs hy
      exact ⟨w, by simp [hw], hf⟩

theorem readCanonicalCandles_asset {table : List CandleRow} {assetId : ℕ} {after : ℤ}
    {limit : ℕ} {candles : List LiveCandle}
    (h : readCanonicalCandles table assetId after limit = some candles) :
    ∀ c ∈ candles, c.assetId = assetId := by
  intro c hc
  obtain ⟨r, hr, hv⟩ := mapM_mem h hc
  have hr' := (List.mem_insertionSort _).mp (List.mem_of_mem_take hr)
  have := (List.mem_filter.mp hr').2
  rw [modelValidate_row hv]
  simp only [Bool.and_eq_true, decide_eq_true_eq] at this
  exact this.1

theorem processStates_run (input : CycleInput) (limit : ℕ) (states : List LiveStrategyState)
    (work : LiveRuntime) (n : ℕ) (hs : ∀ s ∈ states, s ∈ work.states)
    (hnd : (states.map (·.assetId)).Nodup) {r : LiveRuntime × ℕ}
    (h : processStates isoformat stored input limit states work n = some r) :
    LiveRun isoformat (fun _ _ => True) ⟨stored, work⟩ ⟨stored, r.1⟩ := by
  induction states generalizing work n with
  | nil =>
    cases h
    exact .refl
  | cons state rest ih =>
    simp only [processStates, Option.bind_eq_bind, Option.bind_eq_some_iff] at h
    obtain ⟨candles, hc, h⟩ := h
    simp only [List.map_cons, List.nodup_cons, List.mem_map, not_exists, not_and] at hnd
    have hrun := processCandles_run isoformat stored input.clock candles work state n
      (hs state (by simp)) (readCanonicalCandles_asset hc)
    refine hrun.trans (ih _ _ ?_ hnd.2 h)
    intro t ht
    exact processCandles_keeps stored input.clock candles work state t n (hs state (by simp))
      (hs t (by simp [ht])) (hnd.1 t ht)

end

theorem lockedStateSlice_sublist (rt : LiveRuntime) (limit : ℕ) :
    (lockedStateSlice rt limit).1.Sublist
      (rt.states.insertionSort fun s t => s.assetId ≤ t.assetId) := by
  unfold lockedStateSlice
  cases rt.activation.assetCursor with
  | none => exact List.take_sublist _ _
  | some cursor =>
    dsimp only
    split
    · exact List.take_sublist _ _
    · next states hsl =>
      exact (List.take_sublist _ _).trans List.filter_sublist

/-- A committed cycle is a run of single evaluations with one commit at its end. -/
theorem processActivation_run {version : StrategyVersion}
    {digest : CanonicalStrategyDefinition → String} {settings : LiveSettings}
    {input : CycleInput} {rt rt' : LiveRuntime} {n : ℕ} (hrows : AssetRows version rt)
    (h : processActivation isoformat digest settings input rt = some (rt', n)) :
    LiveRun isoformat (fun _ _ => True) ⟨rt, rt⟩ ⟨rt', rt'⟩ := by
  have failed : ∀ message, LiveRun isoformat (fun _ _ => True) ⟨rt, rt⟩
      ⟨rt.setActivation { rt.activation with
          status := .error, health := .error, lastError := some message },
        rt.setActivation { rt.activation with
          status := .error, health := .error, lastError := some message }⟩ := fun message =>
    .step (.step .refl trivial (@LiveStep.fail isoformat rt rt message)) trivial .commit
  unfold processActivation at h
  by_cases ha : rt.activation.status = .active
  swap
  · rw [if_pos ha] at h
    cases h
    exact .refl
  rw [if_neg (not_not_intro ha)] at h
  by_cases hd : digest rt.definition = rt.version.definitionHash
  swap
  · rw [if_pos hd] at h
    cases h
    exact failed _
  rw [if_neg (not_not_intro hd)] at h
  by_cases hh : rt.version.definitionHash = rt.activation.strategyDefinitionHash
  swap
  · rw [if_pos hh] at h
    cases h
    exact failed _
  rw [if_neg (not_not_intro hh)] at h
  cases hv : validateLiveDefinition rt.definition rt.activation.configuration with
  | error e =>
    rw [hv] at h
    cases e with
    | valueError m => cases h; exact failed _
    | typeError m => cases h
    | overflowError m => cases h
  | ok u =>
    rw [hv] at h
    dsimp only at h
    have hcursor : LiveRun isoformat (fun _ _ => True) ⟨rt, rt⟩ ⟨rt, rt.setActivation
        { rt.activation with
          assetCursor := (lockedStateSlice rt settings.maxAssetsPerCycle).2 }⟩ :=
      .step .refl trivial .cursor
    cases hl : (lockedStateSlice rt settings.maxAssetsPerCycle).1.getLast? with
    | none =>
      rw [hl] at h
      cases h
      exact .step hcursor trivial .commit
    | some last =>
      rw [hl] at h
      simp only [Option.bind_eq_bind, Option.bind_eq_some_iff] at h
      obtain ⟨⟨work, m⟩, hp, hcommit⟩ := h
      have hsub := lockedStateSlice_sublist rt settings.maxAssetsPerCycle
      have hperm := List.perm_insertionSort
        (fun s t : LiveStrategyState => s.assetId ≤ t.assetId) rt.states
      have hnd : ((lockedStateSlice rt settings.maxAssetsPerCycle).1.map (·.assetId)).Nodup :=
        (hsub.map _).nodup ((hperm.map _).nodup_iff.mpr hrows.nodup)
      have hmem : ∀ s ∈ (lockedStateSlice rt settings.maxAssetsPerCycle).1, s ∈ rt.states :=
        fun s hs => hperm.mem_iff.mp (hsub.subset hs)
      have hrun := processStates_run rt input _ _ _ _ (by exact hmem) hnd hp
      by_cases hk : work.Constraints
      · rw [if_pos hk] at hcommit
        cases hcommit
        exact .step ((LiveRun.step hcursor trivial .cursor).trans hrun) trivial .commit
      · rw [if_neg hk] at hcommit
        cases hcommit

end
end Quantive.LiveStrategy
