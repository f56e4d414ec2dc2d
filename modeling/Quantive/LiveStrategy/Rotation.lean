import Quantive.CursorRotation
import Quantive.LiveStrategy.Health

/-!
# The rotation of the assets

`_locked_state_slice` and `asset_cursor` over consecutive committed cycles of one
activation: they are the rounds of a rotation over its asset ids.
-/

namespace Quantive.LiveStrategy

/-- The ids of the asset states in the order of the slices. -/
def assetIds (rt : LiveRuntime) : List ℕ :=
  (rt.states.map (·.assetId)).insertionSort (· ≤ ·)

/-- The assets that the next cycle goes through. -/
def visitedAssets (settings : LiveSettings) (rt : LiveRuntime) : List ℕ :=
  (lockedStateSlice rt settings.maxAssetsPerCycle).1.map (·.assetId)

section
variable (isoformat : ℤ → String) (digest : CanonicalStrategyDefinition → String)
  (settings : LiveSettings)

/-- A cycle that commits, over an activation that is active before and after it. -/
def CommittedCycle (input : CycleInput) (rt rt' : LiveRuntime) : Prop :=
  rt.activation.status = .active ∧ rt'.activation.status = .active ∧
    ∃ n, processActivation isoformat digest settings input rt = some (rt', n)

/-- Consecutive committed cycles, with the assets that each of them visits. -/
inductive CommittedCycles : LiveRuntime → List (List ℕ) → LiveRuntime → Prop
  | refl {rt} : CommittedCycles rt [] rt
  | step {rt mid rt' input visits} : CommittedCycle isoformat digest settings input rt mid →
      CommittedCycles mid visits rt' →
      CommittedCycles rt (visitedAssets settings rt :: visits) rt'

end

/-! ### The slice is a round of the rotation -/

theorem assetIds_perm (rt : LiveRuntime) : (assetIds rt).Perm (rt.states.map (·.assetId)) :=
  List.perm_insertionSort _ _

theorem assetIds_length (rt : LiveRuntime) : (assetIds rt).length = rt.states.length := by
  rw [(assetIds_perm rt).length_eq, List.length_map]

theorem assetIds_ne_nil {rt : LiveRuntime} (hne : rt.states ≠ []) : assetIds rt ≠ [] := by
  rw [← List.length_pos_iff, assetIds_length]
  exact List.length_pos_of_ne_nil hne

theorem assetIds_increasing {rt : LiveRuntime} (hunique : (rt.states.map (·.assetId)).Nodup) :
    (assetIds rt).Pairwise (· < ·) := by
  have hsorted : (assetIds rt).Pairwise (· ≤ ·) := List.pairwise_insertionSort _ _
  have hnodup : (assetIds rt).Nodup := (assetIds_perm rt).nodup_iff.mpr hunique
  exact (hsorted.and hnodup).imp fun h => lt_of_le_of_ne h.1 h.2

theorem assetIds_ordered (rt : LiveRuntime) :
    (rt.states.insertionSort fun s t => s.assetId ≤ t.assetId).map (·.assetId) = assetIds rt :=
  List.map_insertionSort _ _ _ _ fun _ _ _ _ => Iff.rfl

theorem assetIds_behind (rt : LiveRuntime) (cursor limit : ℕ) :
    (((rt.states.insertionSort fun s t => s.assetId ≤ t.assetId).filter fun s =>
      cursor < s.assetId).take limit).map (·.assetId) =
    (afterCursor id (assetIds rt) (some cursor)).take limit := by
  rw [List.map_take, afterCursor, ← assetIds_ordered, List.filter_map]
  rfl

theorem visitedAssets_rotate (settings : LiveSettings) (rt : LiveRuntime) :
    visitedAssets settings rt =
      rotationSlice (assetIds rt) settings.maxAssetsPerCycle rt.activation.assetCursor := by
  unfold visitedAssets lockedStateSlice
  cases hcursor : rt.activation.assetCursor with
  | none => rw [rotationSlice_none, ← assetIds_ordered, List.map_take]
  | some cursor =>
    have hbehind := assetIds_behind rt cursor settings.maxAssetsPerCycle
    dsimp only
    unfold rotationSlice
    rw [← hbehind]
    split
    · next hnil =>
      rw [hnil, List.map_nil, ← assetIds_ordered, List.map_take]
    · next states hstates =>
      cases hsplit : ((rt.states.insertionSort fun s t => s.assetId ≤ t.assetId).filter fun s =>
        cursor < s.assetId).take settings.maxAssetsPerCycle with
      | nil => exact absurd hsplit hstates
      | cons s rest => rfl

/-- A cycle that takes its slice from the start is one of the rounds from there. -/
theorem onRotation_of_reset {settings : LiveSettings} {rt : LiveRuntime}
    (h : (lockedStateSlice rt settings.maxAssetsPerCycle).2 = none) :
    OnRotation (assetIds rt) settings.maxAssetsPerCycle rt.activation.assetCursor := by
  have hlimit := settings.positive.1
  unfold lockedStateSlice at h
  cases hcursor : rt.activation.assetCursor with
  | none => exact onRotation_none hlimit
  | some cursor =>
    rw [hcursor] at h
    dsimp only at h
    have hbehind := assetIds_behind rt cursor settings.maxAssetsPerCycle
    split at h
    · next hnil =>
      rw [hnil, List.map_nil] at hbehind
      refine onRotation_restart hlimit ?_
      by_contra hne
      exact take_ne_nil hlimit hne hbehind.symm
    · cases h

/-! ### What a cycle leaves alone -/

structure CycleFrame (rt rt' : LiveRuntime) : Prop where
  assets : rt'.states.map (·.assetId) = rt.states.map (·.assetId)
  cursor : rt'.activation.assetCursor = rt.activation.assetCursor

theorem CycleFrame.trans {a b c : LiveRuntime} (h : CycleFrame a b) (h' : CycleFrame b c) :
    CycleFrame a c :=
  ⟨h'.assets.trans h.assets, h'.cursor.trans h.cursor⟩

section
variable {isoformat : ℤ → String} {digest : CanonicalStrategyDefinition → String}
  {settings : LiveSettings}

theorem recordActivation_cursor (stored : List LiveStrategyState) (o : LiveEvaluationOutcome)
    (reading : Reading) (a : LiveStrategyActivation) :
    (recordActivation isoformat stored o reading a).assetCursor = a.assetCursor := by
  unfold recordActivation refreshActivationHealth
  dsimp only
  split_ifs <;> rfl

theorem evaluateAndPersist_frame (stored work : LiveRuntime) (state : LiveStrategyState)
    (candle : LiveCandle) (reading : Reading) :
    CycleFrame work (evaluateAndPersist isoformat stored work state candle reading).1 := by
  rcases evaluateAndPersist_cases isoformat stored work state candle reading with
    h | ⟨-, -, attempt, -, h⟩
  · rw [h]
    exact ⟨rfl, rfl⟩
  · rw [h]
    exact ⟨setState_assets _ _, recordActivation_cursor _ _ _ _⟩

theorem processCandles_frame (stored : LiveRuntime) (clock : ℕ → ℤ → Reading)
    (candles : List LiveCandle) (work : LiveRuntime) (state : LiveStrategyState) (n : ℕ) :
    CycleFrame work (processCandles isoformat stored clock candles work state n).1 := by
  induction candles generalizing work state n with
  | nil => exact ⟨rfl, rfl⟩
  | cons candle rest ih =>
    have hone := @evaluateAndPersist_frame isoformat stored work state candle
      (clock candle.assetId candle.timestamp)
    simp only [processCandles]
    split
    · exact hone
    · exact hone.trans (ih _ _ _)

theorem processStates_frame (stored : LiveRuntime) (input : CycleInput) (limit : ℕ)
    (states : List LiveStrategyState) (work : LiveRuntime) (n : ℕ) {r : LiveRuntime × ℕ}
    (h : processStates isoformat stored input limit states work n = some r) :
    CycleFrame work r.1 := by
  induction states generalizing work n with
  | nil =>
    cases h
    exact ⟨rfl, rfl⟩
  | cons state rest ih =>
    simp only [processStates, Option.bind_eq_bind, Option.bind_eq_some_iff] at h
    obtain ⟨candles, -, h⟩ := h
    exact (processCandles_frame stored input.clock candles work state n).trans (ih _ _ h)

/-- A committed cycle moves the cursor to the last asset it visits. -/
theorem CommittedCycle.rotates {input : CycleInput} {rt rt' : LiveRuntime}
    (hne : rt.states ≠ []) (h : CommittedCycle isoformat digest settings input rt rt') :
    rt'.states.map (·.assetId) = rt.states.map (·.assetId) ∧
      rt'.activation.assetCursor = (visitedAssets settings rt).getLast? := by
  obtain ⟨hactive, hstill, n, hcycle⟩ := h
  have hvisited : visitedAssets settings rt ≠ [] := by
    rw [visitedAssets_rotate]
    exact rotationSlice_ne_nil settings.positive.1 (assetIds_ne_nil hne) _
  obtain ⟨a, rfl, -, -, hempty⟩ | ⟨last, hlast, hstates⟩ := processActivation_cases hcycle
  · have hnil := hempty hactive hstill
    unfold visitedAssets at hvisited
    rw [hnil] at hvisited
    exact absurd rfl hvisited
  · have hframe := processStates_frame rt input _ _ _ _ hstates
    refine ⟨hframe.assets, hframe.cursor.trans ?_⟩
    unfold visitedAssets
    rw [List.getLast?_map, hlast]
    rfl

/-! ### Runs of committed cycles -/

theorem CommittedCycles.split {before window : List (List ℕ)} {rt rt' : LiveRuntime}
    (h : CommittedCycles isoformat digest settings rt (before ++ window) rt') :
    ∃ mid, CommittedCycles isoformat digest settings rt before mid ∧
      CommittedCycles isoformat digest settings mid window rt' := by
  induction before generalizing rt with
  | nil => exact ⟨rt, .refl, h⟩
  | cons visit before ih =>
    cases h with
    | step hcycle hrest =>
      obtain ⟨mid, hbefore, hwindow⟩ := ih hrest
      exact ⟨mid, .step hcycle hbefore, hwindow⟩

theorem assetIds_congr {rt rt' : LiveRuntime}
    (h : rt'.states.map (·.assetId) = rt.states.map (·.assetId)) : assetIds rt' = assetIds rt := by
  unfold assetIds
  rw [h]

theorem states_ne_nil {rt rt' : LiveRuntime}
    (h : rt'.states.map (·.assetId) = rt.states.map (·.assetId)) (hne : rt.states ≠ []) :
    rt'.states ≠ [] := by
  intro hnil
  rw [hnil, List.map_nil] at h
  exact hne (List.map_eq_nil_iff.mp h.symm)

/-- The visits of a run are the rounds of the rotation. -/
theorem CommittedCycles.rotates {visits : List (List ℕ)} {rt rt' : LiveRuntime}
    (h : CommittedCycles isoformat digest settings rt visits rt') (hne : rt.states ≠ []) :
    visits = rotation (assetIds rt) settings.maxAssetsPerCycle visits.length
      rt.activation.assetCursor := by
  induction h with
  | refl => rfl
  | step hcycle _ ih =>
    obtain ⟨hassets, hcursor⟩ := hcycle.rotates hne
    have hrest := ih (states_ne_nil hassets hne)
    rw [assetIds_congr hassets, hcursor, visitedAssets_rotate] at hrest
    rw [List.length_cons, rotation, ← hrest, visitedAssets_rotate]

/-- A run keeps the assets, and its cursor stays with the rounds from the start. -/
theorem CommittedCycles.onRotation {visits : List (List ℕ)} {rt rt' : LiveRuntime}
    (h : CommittedCycles isoformat digest settings rt visits rt') (hne : rt.states ≠ [])
    (hunique : (rt.states.map (·.assetId)).Nodup)
    (hon : OnRotation (assetIds rt) settings.maxAssetsPerCycle rt.activation.assetCursor) :
    rt'.states.map (·.assetId) = rt.states.map (·.assetId) ∧
      OnRotation (assetIds rt') settings.maxAssetsPerCycle rt'.activation.assetCursor := by
  induction h with
  | refl => exact ⟨rfl, hon⟩
  | step hcycle _ ih =>
    obtain ⟨hassets, hcursor⟩ := hcycle.rotates hne
    have hnext := hon.next (assetIds_increasing hunique) settings.positive.1
      (assetIds_ne_nil hne)
    rw [← visitedAssets_rotate, ← hcursor, ← assetIds_congr hassets] at hnext
    obtain ⟨hassets', hon'⟩ := ih (states_ne_nil hassets hne) (hassets ▸ hunique) hnext
    exact ⟨hassets'.trans hassets, hon'⟩

theorem CommittedCycles.visit {visits : List (List ℕ)} {rt rt' : LiveRuntime}
    (h : CommittedCycles isoformat digest settings rt visits rt') (hne : rt.states ≠ [])
    (hunique : (rt.states.map (·.assetId)).Nodup) : ∀ visit ∈ visits, visit.Nodup := by
  induction h with
  | refl => exact fun _ hvisit => absurd hvisit List.not_mem_nil
  | @step rt mid _ _ _ hcycle _ ih =>
    obtain ⟨hassets, -⟩ := hcycle.rotates hne
    have hslice : (visitedAssets settings rt).Nodup := by
      rw [visitedAssets_rotate]
      exact (rotationSlice_sublist _ _ _).nodup ((assetIds_perm rt).nodup_iff.mpr hunique)
    exact List.forall_mem_cons.mpr
      ⟨hslice, ih (states_ne_nil hassets hne) (hassets ▸ hunique)⟩

/-- No cycle visits an asset twice. Any `⌈n/L⌉` consecutive cycles from a reset on visit every asset
once, and from any cursor `⌈n/L⌉ + 1` cycles visit every asset. -/
theorem assets_rotate {visits : List (List ℕ)} {rt rt' : LiveRuntime} (hne : rt.states ≠ [])
    (hunique : (rt.states.map (·.assetId)).Nodup)
    (h : CommittedCycles isoformat digest settings rt visits rt') :
    (∀ visit ∈ visits, visit.Nodup) ∧
    ((lockedStateSlice rt settings.maxAssetsPerCycle).2 = none →
      ∀ before window, visits = before ++ window →
        window.length = rt.states.length ⌈/⌉ settings.maxAssetsPerCycle →
        window.flatten.Perm (rt.states.map (·.assetId))) ∧
    (visits.length = rt.states.length ⌈/⌉ settings.maxAssetsPerCycle + 1 →
      ∀ s ∈ rt.states, s.assetId ∈ visits.flatten) := by
  have hlimit := settings.positive.1
  refine ⟨h.visit hne hunique, fun hreset before window hvisits hwindow => ?_, fun hlength s hs => ?_⟩
  · rw [hvisits] at h
    obtain ⟨mid, hbefore, hafter⟩ := h.split
    obtain ⟨hassets, hon⟩ := hbefore.onRotation hne hunique (onRotation_of_reset hreset)
    have hunique' : (mid.states.map (·.assetId)).Nodup := hassets ▸ hunique
    have honce := hon.exactly_once (assetIds_increasing hunique') hlimit
    have hrounds := hafter.rotates (states_ne_nil hassets hne)
    rw [hwindow, ← assetIds_length, ← assetIds_congr hassets] at hrounds
    rw [hrounds, ← hassets]
    exact honce.trans (assetIds_perm mid)
  · have hrounds := h.rotates hne
    have hs' : s.assetId ∈ assetIds rt := (assetIds_perm rt).mem_iff.mpr (List.mem_map_of_mem hs)
    have hcovers := rotation_covers (assetIds_increasing hunique) hlimit
      rt.activation.assetCursor hs'
    rw [hrounds, hlength, ← assetIds_length]
    exact hcovers

end

/-- Two cycles with room for one asset each. -/
theorem assets_rotate_two : ∃ rt' visits,
    CommittedCycles (fun _ => "") (fun _ => "v1") { maxAssetsPerCycle := 1 }
      (crossingRuntime false) visits rt' ∧ visits.length = 2 ∧ visits.flatten.Perm [1, 2] := by
  have hcycles : ∃ r r', processActivation (fun _ => "") (fun _ => "v1")
      { maxAssetsPerCycle := 1 } crossingInput (crossingRuntime false) = some r ∧
      r.1.activation.status = .active ∧ processActivation (fun _ => "") (fun _ => "v1")
        { maxAssetsPerCycle := 1 } crossingInput r.1 = some r' ∧ r'.1.activation.status = .active := by
    have h : ((processActivation (fun _ => "") (fun _ => "v1") { maxAssetsPerCycle := 1 }
        crossingInput (crossingRuntime false)).bind fun r =>
          (processActivation (fun _ => "") (fun _ => "v1") { maxAssetsPerCycle := 1 }
            crossingInput r.1).map fun r' =>
          decide (r.1.activation.status = .active ∧ r'.1.activation.status = .active)) =
        some true := by decide +kernel
    simp only [Option.bind_eq_some_iff, Option.map_eq_some_iff, decide_eq_true_eq] at h
    obtain ⟨r, hr, r', hr', hactive, hactive'⟩ := h
    exact ⟨r, r', hr, hactive, hr', hactive'⟩
  obtain ⟨⟨mid, n⟩, ⟨rt', m⟩, hfirst, hactive, hsecond, hactive'⟩ := hcycles
  have hrun : CommittedCycles (fun _ => "") (fun _ => "v1") { maxAssetsPerCycle := 1 }
      (crossingRuntime false) _ rt' :=
    .step ⟨rfl, hactive, n, hfirst⟩ (.step ⟨hactive, hactive', m, hsecond⟩ .refl)
  have hrounds : (crossingRuntime false).states.length ⌈/⌉ 1 = 2 := by decide
  refine ⟨rt', _, hrun, rfl, ?_⟩
  exact (assets_rotate (by decide) (by decide) hrun).2.1 rfl [] _ rfl hrounds.symm

end Quantive.LiveStrategy
