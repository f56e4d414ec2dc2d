import Mathlib.Logic.Relation
import Mathlib.Data.List.MinMax
import Quantive.LiveStrategy.Health

/-!
# Comparison windows

The producer plans a window in one transaction and compares it in another. A window ends at
the slowest cursor, so nothing is evaluated into a closed window, except for an asset that had
no cursor when the window was planned; and two producers that planned before either compared
close overlapping windows.
-/

namespace Quantive.Monitoring
open LiveStrategy

/-! ### Tilings -/

/-- A window with both ends. -/
structure Window where
  windowStart : ℤ
  windowEnd : ℤ
  deriving DecidableEq

def Window.contains (w : Window) (t : ℤ) : Bool := w.windowStart ≤ t && t ≤ w.windowEnd

/-- The windows cover the times from `first` up to `next`, one behind the other. -/
inductive Tiles (first : ℤ) : List Window → ℤ → Prop
  | nil : Tiles first [] first
  | snoc {windows : List Window} {next : ℤ} {w : Window} (h : Tiles first windows next)
      (hstart : w.windowStart = next) (hlt : w.windowStart < w.windowEnd) :
      Tiles first (windows ++ [w]) (w.windowEnd + 1)

section
variable {first next : ℤ} {windows : List Window}

theorem Tiles.bounds (h : Tiles first windows next) :
    first ≤ next ∧ ∀ w ∈ windows, w.windowStart < w.windowEnd ∧ w.windowEnd < next := by
  induction h with
  | nil => exact ⟨le_refl _, fun w hw => by cases hw⟩
  | @snoc windows next w h hstart hlt ih =>
    refine ⟨by omega, fun v hv => ?_⟩
    rcases List.mem_append.mp hv with hv | hv
    · have hbounds := ih.2 v hv
      omega
    · rw [List.mem_singleton.mp hv]
      omega

/-- Every covered time is in one window. -/
theorem Tiles.countP (h : Tiles first windows next) {t : ℤ} (hfirst : first ≤ t) (hnext : t < next) :
    windows.countP (·.contains t) = 1 := by
  induction h with
  | nil => omega
  | @snoc windows next w h hstart hlt ih =>
    rw [List.countP_append, List.countP_singleton]
    by_cases hold : t < next
    · have hout : w.contains t = false := by
        simp [Window.contains]
        omega
      rw [ih hold, hout]
      rfl
    · have hnone : windows.countP (·.contains t) = 0 := by
        refine List.countP_eq_zero.mpr fun v hv => ?_
        have hbounds := h.bounds.2 v hv
        simp [Window.contains]
        omega
      have hin : w.contains t = true := by
        simp [Window.contains]
        omega
      rw [hnone, hin]
      rfl

/-- The windows increase, and each starts a microsecond behind the one before. -/
theorem Tiles.ordered (h : Tiles first windows next) :
    windows.IsChain (fun w w' => w'.windowStart = w.windowEnd + 1) ∧
    windows.Pairwise (fun w w' => w.windowEnd < w'.windowStart) := by
  induction h with
  | nil => exact ⟨List.isChain_nil, List.Pairwise.nil⟩
  | @snoc windows next w h hstart hlt ih =>
    refine ⟨?_, ?_⟩
    · rw [List.isChain_append]
      refine ⟨ih.1, List.isChain_singleton _, fun last hlast v hv => ?_⟩
      obtain rfl : w = v := by simpa using hv
      cases h with
      | nil => cases hlast
      | @snoc _ _ w' _ _ _ =>
        rw [List.getLast?_concat] at hlast
        cases hlast
        exact hstart
    · rw [List.pairwise_append]
      refine ⟨ih.2, List.pairwise_singleton _ _, fun v hv u hu => ?_⟩
      rw [List.mem_singleton.mp hu]
      have hbounds := h.bounds.2 v hv
      omega

/-- The latest end of the windows is behind `next`. -/
theorem Tiles.max (h : Tiles first windows next) :
    (windows.map Window.windowEnd).max?.elim first (· + 1) = next := by
  cases h with
  | nil => rfl
  | @snoc windows next w h hstart hlt =>
    have hmax : ((windows ++ [w]).map Window.windowEnd).max? = some w.windowEnd := by
      rw [List.max?_eq_some_iff]
      refine ⟨by simp, fun e he => ?_⟩
      obtain ⟨v, hv, rfl⟩ := List.mem_map.mp he
      rcases List.mem_append.mp hv with hv | hv
      · have hbounds := h.bounds.2 v hv
        omega
      · rw [List.mem_singleton.mp hv]
    rw [hmax]
    rfl

end

/-! ### The producer -/

/-- A comparison run of the producer, with the live events it read. -/
structure ProducedRun extends Window where
  seen : List LiveStrategyEvent

/-- The rows of one activation and the runs of one reference and policy; `plans` are planned windows
whose comparison is still to come. -/
structure ProducerWorld where
  live : LiveRuntime
  runs : List ProducedRun := []
  plans : List Window := []

/-- `_next_comparison_plan`, `strategy_monitoring.py:480-538`, of a claimed binding. -/
def nextComparisonPlan (maxWindowSeconds : ℕ) (rt : LiveRuntime) (runs : List ProducedRun) :
    Option Window :=
  if rt.activation.status ≠ .active then none
  else
    match (rt.states.filterMap (·.lastCandleTimestamp)).min? with
    | none => none
    | some commonEnd =>
      let windowStart := (runs.map (·.windowEnd)).max?.elim rt.activation.activatedAt (· + 1)
      if commonEnd ≤ windowStart then none
      else
        let windowEnd := min commonEnd (windowStart + maxWindowSeconds * second)
        if windowEnd ≤ windowStart then none else some ⟨windowStart, windowEnd⟩

/-- The run that `compare_activation` persists; `_live_events` reads the window. -/
def compareWindow (rt : LiveRuntime) (w : Window) : ProducedRun :=
  { w with seen := rt.events.filter fun e => w.contains e.eventTime }

inductive ProducerAction where
  | cycle
  | deactivate
  | plan
  | compare (w : Window)
  | drop (w : Window)

section
variable (isoformat : ℤ → String) (digest : CanonicalStrategyDefinition → String)

/-- A committed transaction of the live service or of a producer. A plan is dropped when its
producer fails, or when the run it would persist is already there. -/
inductive ProducerStep : ProducerWorld → ProducerAction → ProducerWorld → Prop
  | cycle {w : ProducerWorld} {settings : LiveSettings} {input : CycleInput} {rt' : LiveRuntime} {n : ℕ}
      (h : processActivation isoformat digest settings input w.live = some (rt', n)) :
      ProducerStep w .cycle { w with live := rt' }
  | deactivate {w : ProducerWorld} (now : ℤ) :
      ProducerStep w .deactivate { w with live := deactivate now w.live }
  | plan {w : ProducerWorld} {maxWindowSeconds : ℕ} {p : Window}
      (h : nextComparisonPlan maxWindowSeconds w.live w.runs = some p) :
      ProducerStep w .plan { w with plans := p :: w.plans }
  | compare {w : ProducerWorld} {p : Window} (hp : p ∈ w.plans) :
      ProducerStep w (.compare p)
        { w with runs := w.runs ++ [compareWindow w.live p], plans := w.plans.erase p }
  | drop {w : ProducerWorld} {p : Window} (hp : p ∈ w.plans) :
      ProducerStep w (.drop p) { w with plans := w.plans.erase p }

/-- The worlds reached from a new activation by steps that all meet `P`. -/
inductive ProducerReachable (P : ProducerWorld → ProducerAction → Prop) : ProducerWorld → Prop
  | start {version : StrategyVersion} {configuration : LiveStrategyConfiguration} {now : ℤ}
      {rt : LiveRuntime} (h : activate digest version configuration now = .ok rt) :
      ProducerReachable P { live := rt }
  | step {w w' : ProducerWorld} {a : ProducerAction} (h : ProducerReachable P w) (hp : P w a)
      (hs : ProducerStep isoformat digest w a w') : ProducerReachable P w'

end

/-- Every asset has a cursor when a window is planned, and no run was produced between the plan and
its comparison. -/
def Steady (w : ProducerWorld) : ProducerAction → Prop
  | .plan => ∀ s ∈ w.live.states, s.lastCandleTimestamp ≠ none
  | .compare p =>
    p.windowStart = (w.runs.map (·.windowEnd)).max?.elim w.live.activation.activatedAt (· + 1)
  | _ => True

/-- The windows are in order, one microsecond apart, and each live event up to the last end is in one
window, whose run read it. -/
structure TilesLog (w : ProducerWorld) : Prop where
  adjacent : w.runs.IsChain fun r r' => r'.windowStart = r.windowEnd + 1
  disjoint : w.runs.Pairwise fun r r' => r.windowEnd < r'.windowStart
  events : ∀ last ∈ w.runs.getLast?, ∀ e ∈ w.live.events, e.eventTime ≤ last.windowEnd →
    w.runs.countP (·.contains e.eventTime) = 1 ∧
    ∀ r ∈ w.runs, r.contains e.eventTime → e ∈ r.seen

/-! ### What live evaluation adds -/

/-- The cursors only move on, and a new event is behind the cursor that its asset had. -/
structure Grows (rt rt' : LiveRuntime) : Prop where
  activatedAt : rt'.activation.activatedAt = rt.activation.activatedAt
  cursors : ∀ s' ∈ rt'.states, ∃ s ∈ rt.states, s.assetId = s'.assetId ∧
    ∀ t, s.lastCandleTimestamp = some t → ∃ t', s'.lastCandleTimestamp = some t' ∧ t ≤ t'
  after : ∀ s' ∈ rt'.states, ∀ t, s'.lastCandleTimestamp = some t → rt.activation.activatedAt < t
  events : ∀ e ∈ rt'.events, e ∈ rt.events ∨ (rt.activation.activatedAt < e.eventTime ∧
    ∃ s ∈ rt.states, s.assetId = e.assetId ∧ ∀ t, s.lastCandleTimestamp = some t → t < e.eventTime)

/-- The cursors of a runtime are behind its activation. -/
def CursorsAfter (rt : LiveRuntime) : Prop :=
  ∀ s ∈ rt.states, ∀ t, s.lastCandleTimestamp = some t → rt.activation.activatedAt < t

section
variable {isoformat : ℤ → String} {rt work : LiveRuntime}

theorem Grows.refl (h : CursorsAfter rt) : Grows rt rt where
  activatedAt := rfl
  cursors s hs := ⟨s, hs, rfl, fun t ht => ⟨t, ht, le_refl t⟩⟩
  after := h
  events _ he := Or.inl he

theorem Grows.evaluate {stored : LiveRuntime} {state : LiveStrategyState} {candle : LiveCandle}
    (reading : Reading) (hs : state ∈ work.states) (hc : candle.assetId = state.assetId)
    (hafter : rt.activation.activatedAt < candle.timestamp) (h : Grows rt work) :
    Grows rt (evaluateAndPersist isoformat stored work state candle reading).1 := by
  rcases evaluateAndPersist_cases isoformat stored work state candle reading with
    he | ⟨-, -, attempt, -, he⟩
  · rw [he]
    exact h
  rw [he]
  have hdue := @evaluateGuarded_due work state candle
  have hcases := evaluateGuarded_cases work state candle
  generalize evaluateGuarded work.definition work.activation state candle = o at hdue hcases ⊢
  obtain ⟨s₀, hs₀, hid₀, hcursor₀⟩ := h.cursors state hs
  refine ⟨(recordActivation_activatedAt _ _ _).trans h.activatedAt, fun t ht => ?_, fun t ht => ?_,
    fun e hev => ?_⟩
  · rcases mem_setState ht with rfl | ⟨ht, -⟩
    · refine ⟨s₀, hs₀, hid₀.trans (recordState_assetId _ _ _ _).symm, fun t₀ ht₀ => ?_⟩
      obtain ⟨t₁, ht₁, hle⟩ := hcursor₀ t₀ ht₀
      rw [recordState_cursor]
      by_cases hst : o.status = .evaluated
      · have hlt := (hdue hst).2.2 t₁ ht₁
        exact ⟨candle.timestamp, if_pos hst, by omega⟩
      · exact ⟨t₁, by rw [if_neg hst, ht₁], hle⟩
    · exact h.cursors t ht
  · rcases mem_setState ht with rfl | ⟨ht, -⟩
    · intro t₀ ht₀
      rw [recordState_cursor] at ht₀
      by_cases hst : o.status = .evaluated
      · rw [if_pos hst] at ht₀
        cases ht₀
        exact hafter
      · rw [if_neg hst] at ht₀
        exact h.after state hs t₀ ht₀
    · exact h.after t ht
  · rcases List.mem_append.mp hev with hev | hev
    · exact h.events e hev
    · obtain ⟨g, hg, rfl⟩ := List.mem_map.mp hev
      refine Or.inr ⟨hafter, s₀, hs₀, hid₀.trans hc.symm, fun t₀ ht₀ => ?_⟩
      obtain ⟨t₁, ht₁, hle⟩ := hcursor₀ t₀ ht₀
      have hst : o.status = .evaluated := by
        rcases hcases with hstill | hmove
        · rw [hstill.2.2] at hg
          cases hg
        · exact hmove.1
      have hlt := (hdue hst).2.2 t₁ ht₁
      show t₀ < candle.timestamp
      omega

theorem Grows.processCandles {stored : LiveRuntime} (clock : ℕ → ℤ → Reading)
    (candles : List LiveCandle) {state : LiveStrategyState} (n : ℕ) (hs : state ∈ work.states)
    (hc : ∀ c ∈ candles, c.assetId = state.assetId)
    (hafter : ∀ c ∈ candles, rt.activation.activatedAt < c.timestamp) (h : Grows rt work) :
    Grows rt (processCandles isoformat stored clock candles work state n).1 := by
  induction candles generalizing work state n with
  | nil => exact h
  | cons candle rest ih =>
    have hone : Grows rt (evaluateAndPersist isoformat stored work state candle
        (clock candle.assetId candle.timestamp)).1 :=
      h.evaluate _ hs (hc candle List.mem_cons_self) (hafter candle List.mem_cons_self)
    have hnext := evaluateAndPersist_state isoformat stored work state candle
      (clock candle.assetId candle.timestamp) hs
    simp only [LiveStrategy.processCandles]
    split
    · exact hone
    · refine ih _ hnext.1 (fun c hm => ?_) (fun c hm => hafter c (List.mem_cons_of_mem _ hm)) hone
      rw [hc c (List.mem_cons_of_mem _ hm), hnext.2]

theorem readCanonicalCandles_after {table : List CandleRow} {assetId : ℕ} {after : ℤ} {limit : ℕ}
    {candles : List LiveCandle} (h : readCanonicalCandles table assetId after limit = some candles) :
    ∀ c ∈ candles, after < c.timestamp := by
  intro c hc
  obtain ⟨r, hr, hv⟩ := mapM_mem h hc
  have hr' := (List.mem_insertionSort _).mp (List.mem_of_mem_take hr)
  have hselected := (List.mem_filter.mp hr').2
  rw [modelValidate_row hv]
  simp only [Bool.and_eq_true, decide_eq_true_eq] at hselected
  exact hselected.2

theorem Grows.processStates (hcursors : CursorsAfter rt) (input : CycleInput) (limit : ℕ)
    (states : List LiveStrategyState) (n : ℕ) (hs : ∀ s ∈ states, s ∈ work.states ∧ s ∈ rt.states)
    (hnd : (states.map (·.assetId)).Nodup) {r : LiveRuntime × ℕ} (h : Grows rt work)
    (hr : processStates isoformat rt input limit states work n = some r) : Grows rt r.1 := by
  induction states generalizing work n with
  | nil =>
    cases hr
    exact h
  | cons state rest ih =>
    simp only [LiveStrategy.processStates, Option.bind_eq_bind, Option.bind_eq_some_iff] at hr
    obtain ⟨candles, hcandles, hr⟩ := hr
    simp only [List.map_cons, List.nodup_cons, List.mem_map, not_exists, not_and] at hnd
    obtain ⟨hwork, hrow⟩ := hs state List.mem_cons_self
    have hafter : ∀ c ∈ candles, rt.activation.activatedAt < c.timestamp := by
      intro c hc
      have hlt := readCanonicalCandles_after hcandles c hc
      rw [h.activatedAt] at hlt
      cases hlast : state.lastCandleTimestamp with
      | none => simpa [hlast] using hlt
      | some t =>
        have ht := hcursors state hrow t hlast
        rw [hlast, Option.getD_some] at hlt
        omega
    have hone : Grows rt (LiveStrategy.processCandles isoformat rt input.clock candles work state n).1 :=
      h.processCandles _ _ _ hwork (readCanonicalCandles_asset hcandles) hafter
    refine ih _ (fun t ht => ⟨?_, (hs t (List.mem_cons_of_mem _ ht)).2⟩) hnd.2 hone hr
    exact processCandles_keeps rt input.clock candles work state t n hwork
      (hs t (List.mem_cons_of_mem _ ht)).1 (hnd.1 t ht)

theorem processActivation_grows {digest : CanonicalStrategyDefinition → String}
    {settings : LiveSettings} {input : CycleInput} {rt rt' : LiveRuntime} {n : ℕ}
    {version : StrategyVersion} (hrows : AssetRows version rt) (hcursors : CursorsAfter rt)
    (h : processActivation isoformat digest settings input rt = some (rt', n)) : Grows rt rt' := by
  have hset : ∀ a : LiveStrategyActivation, a.activatedAt = rt.activation.activatedAt →
      Grows rt (rt.setActivation a) := fun a ha =>
    ⟨ha, (Grows.refl hcursors).cursors, hcursors, fun e he => Or.inl he⟩
  obtain ⟨a, rfl, ha, -⟩ | ⟨last, -, hstates⟩ := processActivation_cases h
  · exact hset a ha
  · have hsub := lockedStateSlice_sublist rt settings.maxAssetsPerCycle
    have hperm := List.perm_insertionSort
      (fun s t : LiveStrategyState => s.assetId ≤ t.assetId) rt.states
    have hnd : ((lockedStateSlice rt settings.maxAssetsPerCycle).1.map (·.assetId)).Nodup :=
      (hsub.map _).nodup ((hperm.map _).nodup_iff.mpr hrows.nodup)
    have hmem : ∀ s ∈ (lockedStateSlice rt settings.maxAssetsPerCycle).1,
        s ∈ (rt.setActivation { rt.activation with assetCursor := some last.assetId }).states ∧
          s ∈ rt.states :=
      fun s hs => ⟨hperm.mem_iff.mp (hsub.subset hs), hperm.mem_iff.mp (hsub.subset hs)⟩
    exact Grows.processStates hcursors input _ _ 0 hmem hnd (hset _ rfl) hstates

theorem deactivate_grows (hcursors : CursorsAfter rt) (now : ℤ) : Grows rt (deactivate now rt) := by
  unfold deactivate
  by_cases ha : rt.activation.status = .active
  · rw [if_neg (not_not_intro ha)]
    refine ⟨rfl, fun s' hs' => ?_, fun s' hs' => ?_, fun e he => Or.inl he⟩
    · obtain ⟨s, hs, rfl⟩ := List.mem_map.mp hs'
      exact ⟨s, hs, rfl, fun t ht => ⟨t, ht, le_refl t⟩⟩
    · obtain ⟨s, hs, rfl⟩ := List.mem_map.mp hs'
      exact hcursors s hs
  · rw [if_pos ha]
    exact .refl hcursors

end

/-! ### Windows that are closed for good -/

/-- The windows tile the time behind the activation, every asset is past every closed and every planned
window, and the runs saw the events of their windows. -/
structure Closed (version : StrategyVersion) (w : ProducerWorld) : Prop where
  rows : AssetRows version w.live
  after : CursorsAfter w.live
  events : ∀ e ∈ w.live.events, w.live.activation.activatedAt < e.eventTime
  tiles : ∃ next, Tiles w.live.activation.activatedAt (w.runs.map ProducedRun.toWindow) next
  behind : ∀ r ∈ w.runs, ∀ s ∈ w.live.states, ∃ t, s.lastCandleTimestamp = some t ∧ r.windowEnd ≤ t
  planned : ∀ p ∈ w.plans, p.windowStart < p.windowEnd ∧
    ∀ s ∈ w.live.states, ∃ t, s.lastCandleTimestamp = some t ∧ p.windowEnd ≤ t
  seen : ∀ r ∈ w.runs, ∀ e ∈ w.live.events, r.contains e.eventTime → e ∈ r.seen

section
variable {version : StrategyVersion} {w w' : ProducerWorld}

theorem Closed.grow (h : Closed version w) {rt' : LiveRuntime} (hrows : AssetRows version rt')
    (hgrows : Grows w.live rt') : Closed version { w with live := rt' } := by
  have hpast : ∀ limit, (∀ s ∈ w.live.states, ∃ t, s.lastCandleTimestamp = some t ∧ limit ≤ t) →
      ∀ s' ∈ rt'.states, ∃ t, s'.lastCandleTimestamp = some t ∧ limit ≤ t := by
    intro limit hall s' hs'
    obtain ⟨s, hs, -, hmoves⟩ := hgrows.cursors s' hs'
    obtain ⟨t, ht, hle⟩ := hall s hs
    obtain ⟨t', ht', hle'⟩ := hmoves t ht
    exact ⟨t', ht', le_trans hle hle'⟩
  refine ⟨hrows, fun s hs t ht => ?_, fun e he => ?_, ?_, fun r hr => hpast _ (h.behind r hr),
    fun p hp => ⟨(h.planned p hp).1, hpast _ (h.planned p hp).2⟩, fun r hr e he hin => ?_⟩
  · rw [hgrows.activatedAt]
    exact hgrows.after s hs t ht
  · rw [hgrows.activatedAt]
    rcases hgrows.events e he with hold | ⟨hlt, -⟩
    · exact h.events e hold
    · exact hlt
  · simpa only [hgrows.activatedAt] using h.tiles
  · rcases hgrows.events e he with hold | ⟨-, s, hs, -, hlater⟩
    · exact h.seen r hr e hold hin
    · -- The asset of a new event is past every closed window.
      obtain ⟨t, ht, hle⟩ := h.behind r hr s hs
      have hlt := hlater t ht
      simp only [Window.contains, Bool.and_eq_true, decide_eq_true_eq] at hin
      omega

/-- A planned window ends at or before every cursor. -/
theorem nextComparisonPlan_spec {maxWindowSeconds : ℕ} {rt : LiveRuntime} {runs : List ProducedRun}
    {p : Window} (h : nextComparisonPlan maxWindowSeconds rt runs = some p) :
    p.windowStart < p.windowEnd ∧
    ∀ s ∈ rt.states, ∀ t, s.lastCandleTimestamp = some t → p.windowEnd ≤ t := by
  unfold nextComparisonPlan at h
  split at h
  · cases h
  · cases hmin : (rt.states.filterMap (·.lastCandleTimestamp)).min? with
    | none => simp [hmin] at h
    | some commonEnd =>
      simp only [hmin] at h
      split at h
      · cases h
      · split at h
        · cases h
        · rename_i hlt
          cases h
          refine ⟨by simpa using hlt, fun s hs t ht => ?_⟩
          have hle := (List.min?_eq_some_iff.mp hmin).2 t (List.mem_filterMap.mpr ⟨s, hs, ht⟩)
          exact le_trans (min_le_left _ _) hle

variable {isoformat : ℤ → String} {digest : CanonicalStrategyDefinition → String}

theorem Closed.step (h : Closed version w) {a : ProducerAction} (hsteady : Steady w a)
    (hs : ProducerStep isoformat digest w a w') : Closed version w' := by
  cases hs with
  | cycle hcycle =>
    have hrun := processActivation_run h.rows hcycle
    have hrows := hrun.invariant
      (I := fun s => AssetRows version s.stored ∧ AssetRows version s.work)
      (fun _ _ _ hs _ hst => liveStep_rows hst hs) ⟨h.rows, h.rows⟩
    exact h.grow hrows.1 (processActivation_grows h.rows h.after hcycle)
  | deactivate now =>
    have hrows := liveStep_rows (LiveStep.deactivate : LiveStep isoformat _ (.deactivate now) _) ⟨h.rows, h.rows⟩
    exact h.grow hrows.1 (deactivate_grows h.after now)
  | @plan maxWindowSeconds p hplan =>
    obtain ⟨hlt, hbefore⟩ := nextComparisonPlan_spec hplan
    refine ⟨h.rows, h.after, h.events, h.tiles, h.behind, fun q hq => ?_, h.seen⟩
    rcases List.mem_cons.mp hq with rfl | hq
    · refine ⟨hlt, fun s hs => ?_⟩
      obtain ⟨t, ht⟩ := Option.ne_none_iff_exists'.mp (hsteady s hs)
      exact ⟨t, ht, hbefore s hs t ht⟩
    · exact h.planned q hq
  | @compare p hp =>
    obtain ⟨hlt, hpast⟩ := h.planned p hp
    refine ⟨h.rows, h.after, h.events, ?_, fun r hr => ?_,
      fun q hq => h.planned q (List.mem_of_mem_erase hq), fun r hr e he hin => ?_⟩
    · obtain ⟨next, htiles⟩ := h.tiles
      have hnext := htiles.max
      rw [List.map_map] at hnext
      refine ⟨p.windowEnd + 1, ?_⟩
      rw [List.map_append]
      exact htiles.snoc (hsteady.trans hnext) hlt
    · rcases List.mem_append.mp hr with hr | hr
      · exact h.behind r hr
      · rw [List.mem_singleton.mp hr]
        exact hpast
    · rcases List.mem_append.mp hr with hr | hr
      · exact h.seen r hr e he hin
      · rw [List.mem_singleton.mp hr] at hin ⊢
        exact List.mem_filter.mpr ⟨he, hin⟩
  | @drop p hp =>
    exact ⟨h.rows, h.after, h.events, h.tiles, h.behind,
      fun q hq => h.planned q (List.mem_of_mem_erase hq), h.seen⟩

theorem Closed.tilesLog (h : Closed version w) : TilesLog w := by
  obtain ⟨next, htiles⟩ := h.tiles
  obtain ⟨hadjacent, hdisjoint⟩ := htiles.ordered
  refine ⟨List.isChain_map _ |>.mp hadjacent, List.pairwise_map.mp hdisjoint,
    fun last hlast e he hle => ⟨?_, fun r hr hin => h.seen r hr e he hin⟩⟩
  have hend := (htiles.bounds.2 last.toWindow
    (List.mem_map_of_mem (List.mem_of_mem_getLast? hlast))).2
  have hcount := htiles.countP (le_of_lt (h.events e he)) (by omega)
  rw [List.countP_map] at hcount
  exact hcount

end

/-! ### An asset that evaluates its first candle late -/

/-- One asset has a candle at the first minute. -/
def candleOf (assetId : ℕ) : CycleInput where
  candles _ id := if id = assetId then [⟨id, minute, 2, 2, 2, 2, 1⟩] else []
  clock _ _ := ⟨2 * minute, 0⟩

theorem cycle_positive : 0 < 100 ∧ 0 < 100 := by decide

/-- The committed state after a cycle. -/
def afterCycle (input : CycleInput) (rt : LiveRuntime) : LiveRuntime :=
  let cycle := processActivation (fun _ => "") (fun _ => "v1") { positive := cycle_positive } input rt
  (cycle.map Prod.fst).getD rt

/-- The first asset is evaluated, its window is compared, and then the second asset is evaluated. -/
def firstEvaluated : ProducerWorld := { live := afterCycle (candleOf 1) (crossingRuntime false) }

def firstWindow : Window := ⟨0, minute⟩

def firstProduced : ProducerWorld :=
  { live := firstEvaluated.live, runs := [compareWindow firstEvaluated.live firstWindow] }

def lateEvaluated : ProducerWorld :=
  { firstProduced with live := afterCycle (candleOf 2) firstProduced.live }

theorem ProducerStep.afterCycle (w : ProducerWorld) (input : CycleInput)
    (h : (processActivation (fun _ => "") (fun _ => "v1") {} input w.live).isSome) :
    ProducerStep (fun _ => "") (fun _ => "v1") w .cycle { w with live := afterCycle input w.live } := by
  obtain ⟨⟨rt, n⟩, hrt⟩ := Option.isSome_iff_exists.mp h
  have hlive : Monitoring.afterCycle input w.live = rt := by simp [Monitoring.afterCycle, hrt]
  rw [hlive]
  exact .cycle hrt

theorem ProducerStep.comparePlan {isoformat : ℤ → String} {digest : CanonicalStrategyDefinition → String}
    (rt : LiveRuntime) (p : Window) : ProducerStep isoformat digest { live := rt, plans := [p] }
      (.compare p) { live := rt, runs := [compareWindow rt p] } := by
  have h : ProducerStep isoformat digest { live := rt, plans := [p] } (.compare p) _ :=
    .compare List.mem_cons_self
  simpa using h

/-- Both assets are evaluated before the first window. -/
def bothEvaluated : ProducerWorld := { live := afterCycle crossingInput (crossingRuntime false) }

theorem Steady.first (rt : LiveRuntime) (p : Window) (h : p.windowStart = rt.activation.activatedAt) :
    Steady { live := rt, plans := [p] } (.compare p) := by
  simp [Steady, h]

end Quantive.Monitoring
