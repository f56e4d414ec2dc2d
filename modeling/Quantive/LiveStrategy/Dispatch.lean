import Mathlib.Algebra.Order.Floor.Div
import Mathlib.Data.Int.ConditionallyCompleteOrder
import Mathlib.Data.Prod.Lex
import Mathlib.Order.ConditionallyCompleteLattice.Basic
import Quantive.FairDispatch
import Quantive.LiveStrategy.Health

/-!
# The dispatch of the activations

`process_active` takes the activations that were evaluated least recently. Only a candle with
the status EVALUATED moves `last_evaluated_at`, so an activation whose cycle evaluates none
keeps its place in front.
-/

namespace Quantive.LiveStrategy

/-- A row of `live_strategy_activations` with what belongs to it. -/
structure ActivationRow where
  id : ℕ
  createdAt : ℤ
  runtime : LiveRuntime

/-- `ORDER BY last_evaluated_at NULLS FIRST, created_at, id`. -/
def ActivationRow.dispatchKey (r : ActivationRow) : WithBot ℤ ×ₗ ℤ ×ₗ ℕ :=
  toLex (r.runtime.activation.lastEvaluatedAt.elim ⊥ WithBot.some, toLex (r.createdAt, r.id))

def isActive (r : ActivationRow) : Bool := r.runtime.activation.status = .active

def activeRows (rows : List ActivationRow) : List ActivationRow :=
  (rows.filter isActive).insertionSort fun r s => r.dispatchKey ≤ s.dispatchKey

def activeIds (rows : List ActivationRow) : List ℕ := (activeRows rows).map (·.id)

/-- What a cycle finds in each runtime. -/
abbrev DispatchInputs := ℕ → CycleInput

section
variable (isoformat : ℤ → String) (digest : CanonicalStrategyDefinition → String)
  (settings : LiveSettings) (inputs : DispatchInputs)

/-- One turn of the loop, `live_strategy.py:217-226`: an exception leaves the rows as they were. -/
def dispatchOne (acc : List ActivationRow × ℕ) (id : ℕ) : List ActivationRow × ℕ :=
  match acc.1.find? fun r => r.id = id with
  | none => acc
  | some row =>
    match processActivation isoformat digest settings (inputs id) row.runtime with
    | none => acc
    | some (runtime, n) =>
      (acc.1.map fun r => if r.id = id then { r with runtime } else r, acc.2 + n)

/-- `process_active`, `live_strategy.py:197-227`, with the limit that it resolved. -/
def processActive (limit : ℕ) (rows : List ActivationRow) : List ActivationRow × ℕ :=
  ((activeIds rows).take limit).foldl (dispatchOne isoformat digest settings inputs) (rows, 0)

/-- The statuses that the next cycle of a runtime records. -/
def cycleStatuses (input : CycleInput) (rt : LiveRuntime) : List LiveEvaluationStatus :=
  (lockedStateSlice rt settings.maxAssetsPerCycle).1.flatMap fun s =>
    recordedStatuses rt.definition rt.observations s.lastCandleTimestamp
      ((readCanonicalCandles (input.candles rt.definition.timeframe s.assetId) s.assetId
        (s.lastCandleTimestamp.getD rt.activation.activatedAt)
        (min rt.activation.configuration.maxCandlesPerCycle settings.maxCandlesPerAssetCycle)).getD [])

/-- The next cycle of a row evaluates no candle: there is none, the first ones have gaps or errors, or
the transaction is rolled back. -/
def isIdle (r : ActivationRow) : Bool :=
  (processActivation isoformat digest settings (inputs r.id) r.runtime).isNone ||
    .evaluated ∉ cycleStatuses settings (inputs r.id) r.runtime

/-- The activations in front that the next cycle leaves in front. -/
def idleIds (limit : ℕ) (rows : List ActivationRow) : List ℕ :=
  (((activeRows rows).take limit).filter (isIdle isoformat digest settings inputs)).map (·.id)

/-- A cycle over a fixed set of active activations, at a later time than what was evaluated before. -/
structure DispatchCycle (limit : ℕ) (rows rows' : List ActivationRow) : Prop where
  result : (processActive isoformat digest settings inputs limit rows).1 = rows'
  fixed : ∀ id, id ∈ activeIds rows' ↔ id ∈ activeIds rows
  later : ∀ r ∈ rows, ∀ t, r.runtime.activation.lastEvaluatedAt = some t →
    ∀ id asset timestamp, t < ((inputs id).clock asset timestamp).observedAt

end

section
variable (isoformat : ℤ → String) (digest : CanonicalStrategyDefinition → String)
  (settings : LiveSettings)

/-- Consecutive cycles, each with the activations it selects and the idle ones among them. -/
inductive DispatchCycles (limit : ℕ) :
    List ActivationRow → List (List ℕ × List ℕ) → List ActivationRow → Prop
  | refl {rows} : DispatchCycles limit rows [] rows
  | step {inputs rows mid rounds rows'} :
      DispatchCycle isoformat digest settings inputs limit rows mid →
      DispatchCycles limit mid rounds rows' →
      DispatchCycles limit rows (((activeIds rows).take limit,
        idleIds isoformat digest settings inputs limit rows) :: rounds) rows'

end

/-! ### When a cycle moves `last_evaluated_at` -/

/-- What some recorded statuses make of `last_evaluated_at`. -/
def EvaluatedAt (clock : ℕ → ℤ → Reading) (statuses : List LiveEvaluationStatus)
    (before after : Option ℤ) : Prop :=
  if .evaluated ∈ statuses then ∃ asset timestamp, after = some (clock asset timestamp).observedAt
  else after = before

section
variable {clock : ℕ → ℤ → Reading}

theorem EvaluatedAt.refl (at₀ : Option ℤ) : EvaluatedAt clock [] at₀ at₀ := rfl

theorem EvaluatedAt.trans {xs ys : List LiveEvaluationStatus} {a b c : Option ℤ}
    (h : EvaluatedAt clock xs a b) (h' : EvaluatedAt clock ys b c) :
    EvaluatedAt clock (xs ++ ys) a c := by
  unfold EvaluatedAt at *
  by_cases hy : .evaluated ∈ ys
  · rw [if_pos hy] at h'
    rw [if_pos (List.mem_append_right _ hy)]
    exact h'
  · rw [if_neg hy] at h'
    by_cases hx : .evaluated ∈ xs
    · rw [if_pos hx] at h
      rw [if_pos (List.mem_append_left _ hx), h']
      exact h
    · rw [if_neg hx] at h
      rw [if_neg (by simp [hx, hy]), h', h]

variable {isoformat : ℤ → String} {digest : CanonicalStrategyDefinition → String}
  {settings : LiveSettings} {stored : LiveRuntime}

theorem recordActivation_evaluatedAt (o : LiveEvaluationOutcome) (reading : Reading)
    (a : LiveStrategyActivation) :
    (recordActivation isoformat stored.states o reading a).lastEvaluatedAt =
      if o.status = .evaluated then some reading.observedAt else a.lastEvaluatedAt := by
  unfold recordActivation
  dsimp only
  split_ifs <;> rfl

theorem evaluateAndPersist_evaluatedAt (work : LiveRuntime) (state : LiveStrategyState)
    (candle : LiveCandle) :
    EvaluatedAt clock
      (if isRecorded stored.observations candle
          (candleStatus work.definition candle state.lastCandleTimestamp)
        then [candleStatus work.definition candle state.lastCandleTimestamp] else [])
      work.activation.lastEvaluatedAt
      (evaluateAndPersist isoformat stored work state candle
        (clock candle.assetId candle.timestamp)).1.activation.lastEvaluatedAt := by
  obtain ⟨hguarded, ⟨hnot, h⟩ | ⟨hyes, -, -, attempt, h⟩⟩ :=
    evaluateAndPersist_isRecorded isoformat stored work state candle
      (clock candle.assetId candle.timestamp) rfl
  · rw [h, hnot]
    exact .refl _
  · rw [h, hyes, if_pos rfl]
    unfold EvaluatedAt
    simp only [List.mem_singleton]
    rw [recordActivation_evaluatedAt, hguarded]
    by_cases hstatus : candleStatus work.definition candle state.lastCandleTimestamp = .evaluated
    · rw [if_pos hstatus.symm, if_pos hstatus]
      exact ⟨_, _, rfl⟩
    · rw [if_neg (Ne.symm hstatus), if_neg hstatus]

theorem processCandles_evaluatedAt (hne : stored.states ≠ []) (candles : List LiveCandle)
    (work : LiveRuntime) (state : LiveStrategyState) (n : ℕ) :
    EvaluatedAt clock
      (recordedStatuses work.definition stored.observations state.lastCandleTimestamp candles)
      work.activation.lastEvaluatedAt
      (processCandles isoformat stored clock candles work state n).1.activation.lastEvaluatedAt := by
  induction candles generalizing work state n with
  | nil => exact .refl _
  | cons candle rest ih =>
    obtain ⟨hrecorded, -, hlast⟩ := evaluateAndPersist_recorded isoformat hne work state candle
      (clock candle.assetId candle.timestamp) rfl rfl
    have hone := @evaluateAndPersist_evaluatedAt clock isoformat stored work state candle
    have hrest := ih (evaluateAndPersist isoformat stored work state candle
      (clock candle.assetId candle.timestamp)).1 (evaluateAndPersist isoformat stored work state candle
      (clock candle.assetId candle.timestamp)).2.1
    have hdefinition : (evaluateAndPersist isoformat stored work state candle
        (clock candle.assetId candle.timestamp)).1.definition = work.definition :=
      congrArg StrategyVersion.definition hrecorded.version
    rw [hdefinition] at hrest
    simp only [processCandles, recordedStatuses]
    rw [← hlast]
    by_cases hgo : (evaluateAndPersist isoformat stored work state candle
        (clock candle.assetId candle.timestamp)).2.1.lastCandleTimestamp = some candle.timestamp
    · rw [if_neg (not_not_intro hgo), if_pos hgo]
      exact hone.trans (hrest _)
    · rw [if_pos hgo, if_neg hgo, List.append_nil]
      exact hone

theorem processStates_evaluatedAt {rt : LiveRuntime} (hne : rt.states ≠ []) (input : CycleInput)
    (limit : ℕ) (states : List LiveStrategyState) {work : LiveRuntime} {n : ℕ}
    {r : LiveRuntime × ℕ} (hversion : work.version = rt.version)
    (hactivated : work.activation.activatedAt = rt.activation.activatedAt)
    (h : processStates isoformat rt input limit states work n = some r) :
    EvaluatedAt input.clock
      (states.flatMap fun s => recordedStatuses rt.definition rt.observations s.lastCandleTimestamp
        ((readCanonicalCandles (input.candles rt.definition.timeframe s.assetId) s.assetId
          (s.lastCandleTimestamp.getD rt.activation.activatedAt) limit).getD []))
      work.activation.lastEvaluatedAt r.1.activation.lastEvaluatedAt := by
  induction states generalizing work n with
  | nil =>
    cases h
    exact .refl _
  | cons state rest ih =>
    simp only [processStates, Option.bind_eq_bind, Option.bind_eq_some_iff] at h
    obtain ⟨candles, hcandles, h⟩ := h
    have hdefinition : work.definition = rt.definition := congrArg StrategyVersion.definition hversion
    have hrecorded := processCandles_recorded isoformat hne input.clock candles work state n
    have hone := @processCandles_evaluatedAt input.clock isoformat rt hne candles work state n
    have hrest := ih (hrecorded.version.trans hversion) (hrecorded.activatedAt.trans hactivated) h
    rw [hdefinition] at hone hcandles
    rw [hactivated] at hcandles
    rw [List.flatMap_cons, hcandles, Option.getD_some]
    exact hone.trans hrest

theorem processActivation_evaluatedAt {input : CycleInput} {rt rt' : LiveRuntime} {n : ℕ}
    (hactive : rt.activation.status = .active) (hstill : rt'.activation.status = .active)
    (h : processActivation isoformat digest settings input rt = some (rt', n)) :
    EvaluatedAt input.clock (cycleStatuses settings input rt) rt.activation.lastEvaluatedAt
      rt'.activation.lastEvaluatedAt := by
  obtain ⟨a, rfl, -, hsame, hempty⟩ | ⟨last, hlast, hstates⟩ := processActivation_cases h
  · unfold cycleStatuses
    rw [hempty hactive hstill]
    exact hsame
  · have hne : rt.states ≠ [] := by
      intro hnil
      have hsub := lockedStateSlice_sublist rt settings.maxAssetsPerCycle
      rw [hnil, List.insertionSort_nil, List.sublist_nil] at hsub
      rw [hsub] at hlast
      cases hlast
    exact processStates_evaluatedAt hne input _ _ (by rfl) (by rfl) hstates

/-! ### The rows after a cycle -/

variable {inputs : DispatchInputs} {limit : ℕ} {rows rows' : List ActivationRow}

/-- A row that was selected. -/
def served (isoformat : ℤ → String) (digest : CanonicalStrategyDefinition → String)
    (settings : LiveSettings) (inputs : DispatchInputs) (r : ActivationRow) : ActivationRow :=
  match processActivation isoformat digest settings (inputs r.id) r.runtime with
  | none => r
  | some (runtime, _) => { r with runtime }

theorem served_id (r : ActivationRow) :
    (served isoformat digest settings inputs r).id = r.id := by
  unfold served
  split <;> rfl

theorem served_createdAt (r : ActivationRow) :
    (served isoformat digest settings inputs r).createdAt = r.createdAt := by
  unfold served
  split <;> rfl

/-- An idle row keeps its key. -/
theorem served_idle {r : ActivationRow} (hactive : isActive r = true)
    (hstill : isActive (served isoformat digest settings inputs r) = true)
    (hidle : isIdle isoformat digest settings inputs r = true) :
    (served isoformat digest settings inputs r).dispatchKey = r.dispatchKey := by
  unfold ActivationRow.dispatchKey
  rw [served_id, served_createdAt]
  unfold served isIdle at *
  cases hcycle : processActivation isoformat digest settings (inputs r.id) r.runtime with
  | none => rfl
  | some result =>
    obtain ⟨runtime, n⟩ := result
    rw [hcycle] at hidle hstill
    have hevaluated := processActivation_evaluatedAt (of_decide_eq_true hactive)
      (of_decide_eq_true hstill) hcycle
    unfold EvaluatedAt at hevaluated
    rw [if_neg (by simpa using hidle)] at hevaluated
    dsimp only
    rw [hevaluated]

/-- A row that is not idle was evaluated at a time of the cycle. -/
theorem served_evaluated {r : ActivationRow} (hactive : isActive r = true)
    (hstill : isActive (served isoformat digest settings inputs r) = true)
    (hidle : isIdle isoformat digest settings inputs r = false) :
    ∃ asset timestamp, (served isoformat digest settings inputs r).runtime.activation.lastEvaluatedAt =
      some ((inputs r.id).clock asset timestamp).observedAt := by
  unfold served isIdle at *
  cases hcycle : processActivation isoformat digest settings (inputs r.id) r.runtime with
  | none =>
    rw [hcycle] at hidle
    cases hidle
  | some result =>
    obtain ⟨runtime, n⟩ := result
    rw [hcycle] at hidle hstill
    have hevaluated := processActivation_evaluatedAt (of_decide_eq_true hactive)
      (of_decide_eq_true hstill) hcycle
    unfold EvaluatedAt at hevaluated
    rwa [if_pos (by simpa using hidle)] at hevaluated

theorem dispatchOne_rows (hunique : (rows.map (·.id)).Nodup) (n id : ℕ) :
    (dispatchOne isoformat digest settings inputs (rows, n) id).1 =
      rows.map fun r => if r.id = id then served isoformat digest settings inputs r else r := by
  unfold dispatchOne
  cases hfind : rows.find? fun r => r.id = id with
  | none =>
    rw [List.find?_eq_none] at hfind
    refine (List.map_id' rows).symm.trans (List.map_congr_left fun r hr => ?_)
    rw [if_neg (by simpa using hfind r hr)]
  | some row =>
    have hid : row.id = id := by simpa using List.find?_some hfind
    have hrow := List.mem_of_find?_eq_some hfind
    have honly : ∀ r ∈ rows, r.id = id → r = row := fun r hr he =>
      List.inj_on_of_nodup_map hunique hr hrow (he.trans hid.symm)
    dsimp only
    cases hcycle : processActivation isoformat digest settings (inputs id) row.runtime with
    | none =>
      refine (List.map_id' rows).symm.trans (List.map_congr_left fun r hr => ?_)
      by_cases he : r.id = id
      · rw [if_pos he, honly r hr he, served, hid, hcycle]
      · rw [if_neg he]
    | some result =>
      refine List.map_congr_left fun r hr => ?_
      by_cases he : r.id = id
      · rw [if_pos he, if_pos he, honly r hr he, served, hid, hcycle]
      · rw [if_neg he, if_neg he]

/-- A row after a cycle that selected `ids`. -/
def afterCycle (isoformat : ℤ → String) (digest : CanonicalStrategyDefinition → String)
    (settings : LiveSettings) (inputs : DispatchInputs) (ids : List ℕ) (r : ActivationRow) :
    ActivationRow :=
  if r.id ∈ ids then served isoformat digest settings inputs r else r

theorem afterCycle_id (ids : List ℕ) (r : ActivationRow) :
    (afterCycle isoformat digest settings inputs ids r).id = r.id := by
  unfold afterCycle
  split
  · exact served_id r
  · rfl

theorem dispatch_rows {ids : List ℕ} (hids : ids.Nodup) (hunique : (rows.map (·.id)).Nodup) (n : ℕ) :
    (ids.foldl (dispatchOne isoformat digest settings inputs) (rows, n)).1 =
      rows.map (afterCycle isoformat digest settings inputs ids) := by
  induction ids generalizing rows n with
  | nil =>
    refine (List.map_id' rows).symm.trans (List.map_congr_left fun r _ => ?_)
    rw [afterCycle, if_neg List.not_mem_nil]
  | cons id ids ih =>
    obtain ⟨hnot, hids⟩ := List.nodup_cons.mp hids
    have hone := @dispatchOne_rows isoformat digest settings inputs rows hunique n id
    have hkept : ((dispatchOne isoformat digest settings inputs (rows, n) id).1.map (·.id)) =
        rows.map (·.id) := by
      rw [hone, List.map_map]
      refine List.map_congr_left fun r _ => ?_
      simp only [Function.comp_apply]
      split
      · exact served_id r
      · rfl
    have hrest := ih hids (hkept ▸ hunique) (dispatchOne isoformat digest settings inputs (rows, n) id).2
    rw [List.foldl_cons]
    refine hrest.trans ?_
    rw [hone, List.map_map]
    refine List.map_congr_left fun r _ => ?_
    simp only [Function.comp_apply, afterCycle, List.mem_cons]
    by_cases he : r.id = id
    · rw [if_pos he, served_id, he, if_neg hnot, if_pos (Or.inl rfl)]
    · rw [if_neg he]
      by_cases hin : r.id ∈ ids
      · rw [if_pos hin, if_pos (Or.inr hin)]
      · rw [if_neg hin, if_neg (by simp [he, hin])]

/-! ### The order after a cycle -/

theorem dispatchKey_id {r s : ActivationRow} (h : r.dispatchKey = s.dispatchKey) : r.id = s.id := by
  unfold ActivationRow.dispatchKey at h
  have hpair := congrArg (fun k => (ofLex (ofLex k).2).2) h
  exact hpair

theorem sort_increasing {rows : List ActivationRow} (hunique : (rows.map (·.id)).Nodup) :
    (rows.insertionSort fun r s => r.dispatchKey ≤ s.dispatchKey).Pairwise
      fun r s => r.dispatchKey < s.dispatchKey := by
  have hsorted := List.pairwise_insertionSort
    (fun r s : ActivationRow => r.dispatchKey ≤ s.dispatchKey) rows
  have hperm := List.perm_insertionSort
    (fun r s : ActivationRow => r.dispatchKey ≤ s.dispatchKey) rows
  have hdistinct := List.pairwise_map.mp ((hperm.map (·.id)).nodup_iff.mpr hunique)
  exact (hsorted.and hdistinct).imp fun h => lt_of_le_of_ne h.1 fun he => h.2 (dispatchKey_id he)

theorem activeRows_perm (rows : List ActivationRow) :
    (activeRows rows).Perm (rows.filter isActive) :=
  List.perm_insertionSort _ _

theorem activeRows_subset {r : ActivationRow} (h : r ∈ activeRows rows) :
    r ∈ rows ∧ isActive r = true :=
  List.mem_filter.mp ((activeRows_perm rows).mem_iff.mp h)

theorem active_unique (hunique : (rows.map (·.id)).Nodup) :
    ((rows.filter isActive).map (·.id)).Nodup :=
  hunique.sublist (List.filter_sublist.map _)

theorem activeIds_nodup (hunique : (rows.map (·.id)).Nodup) : (activeIds rows).Nodup :=
  ((activeRows_perm rows).map _).nodup_iff.mpr (active_unique hunique)

theorem mem_activeIds (hunique : (rows.map (·.id)).Nodup) {r : ActivationRow} (hr : r ∈ rows) :
    r.id ∈ activeIds rows ↔ isActive r = true := by
  constructor
  · intro h
    obtain ⟨s, hs, hid⟩ := List.mem_map.mp h
    obtain ⟨hs, hactive⟩ := activeRows_subset hs
    rwa [← List.inj_on_of_nodup_map hunique hs hr hid]
  · intro h
    exact List.mem_map_of_mem ((activeRows_perm rows).mem_iff.mpr (List.mem_filter.mpr ⟨hr, h⟩))

/-- A time of the cycle sorts a row behind every row from before it. -/
theorem dispatchKey_lt {r s : ActivationRow} {t : ℤ}
    (hlater : ∀ t', r.runtime.activation.lastEvaluatedAt = some t' → t' < t)
    (hs : s.runtime.activation.lastEvaluatedAt = some t) : r.dispatchKey < s.dispatchKey := by
  unfold ActivationRow.dispatchKey
  refine Prod.Lex.toLex_lt_toLex.mpr (Or.inl ?_)
  rw [hs]
  cases hr : r.runtime.activation.lastEvaluatedAt with
  | none => exact WithBot.bot_lt_coe t
  | some t' => exact WithBot.coe_lt_coe.mpr (hlater t' hr)

theorem DispatchCycle.rows_eq (hunique : (rows.map (·.id)).Nodup)
    (h : DispatchCycle isoformat digest settings inputs limit rows rows') :
    rows' = rows.map (afterCycle isoformat digest settings inputs ((activeIds rows).take limit)) := by
  rw [← h.result]
  exact dispatch_rows ((activeIds_nodup hunique).sublist (List.take_sublist _ _)) hunique 0

theorem DispatchCycle.ids (hunique : (rows.map (·.id)).Nodup)
    (h : DispatchCycle isoformat digest settings inputs limit rows rows') :
    rows'.map (·.id) = rows.map (·.id) := by
  rw [h.rows_eq hunique, List.map_map]
  exact List.map_congr_left fun r _ => afterCycle_id _ r

/-- No row becomes active or ceases to be. -/
theorem DispatchCycle.status (hunique : (rows.map (·.id)).Nodup)
    (h : DispatchCycle isoformat digest settings inputs limit rows rows') {r : ActivationRow}
    (hr : r ∈ rows) :
    isActive (afterCycle isoformat digest settings inputs ((activeIds rows).take limit) r) =
      isActive r := by
  have hr' : afterCycle isoformat digest settings inputs ((activeIds rows).take limit) r ∈ rows' := by
    rw [h.rows_eq hunique]
    exact List.mem_map_of_mem hr
  have hunique' : (rows'.map (·.id)).Nodup := h.ids hunique ▸ hunique
  have hfixed := h.fixed r.id
  rw [mem_activeIds hunique hr] at hfixed
  have hafter := mem_activeIds hunique' hr'
  rw [afterCycle_id] at hafter
  rw [Bool.eq_iff_iff, ← hafter, hfixed]

/-- The active rows after a cycle, the selected ones first. -/
theorem DispatchCycle.perm (hunique : (rows.map (·.id)).Nodup)
    (h : DispatchCycle isoformat digest settings inputs limit rows rows') :
    (activeRows rows').Perm
      (((activeRows rows).take limit).map (served isoformat digest settings inputs) ++
        (activeRows rows).drop limit) := by
  have hselected : (activeIds rows).take limit = ((activeRows rows).take limit).map (·.id) :=
    List.map_take.symm
  have hsplit : (activeIds rows).drop limit = ((activeRows rows).drop limit).map (·.id) :=
    List.map_drop.symm
  have hfront : ((activeRows rows).take limit).map
      (afterCycle isoformat digest settings inputs ((activeIds rows).take limit)) =
      ((activeRows rows).take limit).map (served isoformat digest settings inputs) := by
    refine List.map_congr_left fun r hr => ?_
    rw [afterCycle, if_pos]
    rw [hselected]
    exact List.mem_map_of_mem hr
  have hrest : ((activeRows rows).drop limit).map
      (afterCycle isoformat digest settings inputs ((activeIds rows).take limit)) =
      (activeRows rows).drop limit := by
    refine (List.map_congr_left fun r hr => ?_).trans (List.map_id' _)
    rw [afterCycle, if_neg]
    intro hin
    refine List.disjoint_take_drop (activeIds_nodup hunique) le_rfl hin ?_
    rw [hsplit]
    exact List.mem_map_of_mem hr
  have hfilter : rows.filter (isActive ∘
      afterCycle isoformat digest settings inputs ((activeIds rows).take limit)) =
      rows.filter isActive := List.filter_congr fun r hr => h.status hunique hr
  rw [← hfront, ← hrest, ← List.map_append, List.take_append_drop]
  refine (activeRows_perm rows').trans ?_
  rw [h.rows_eq hunique, List.filter_map, hfilter]
  exact ((activeRows_perm rows).map _).symm

/-- The idle rows stay in front in their order, the others sort behind every other row. -/
theorem DispatchCycle.order (hunique : (rows.map (·.id)).Nodup)
    (h : DispatchCycle isoformat digest settings inputs limit rows rows') :
    activeRows rows' =
      (((activeRows rows).take limit).filter (isIdle isoformat digest settings inputs)).map
          (served isoformat digest settings inputs) ++ (activeRows rows).drop limit ++
        ((((activeRows rows).take limit).filter fun r => !isIdle isoformat digest settings inputs r).map
          (served isoformat digest settings inputs)).insertionSort
            fun r s => r.dispatchKey ≤ s.dispatchKey := by
  have hperm := h.perm hunique
  have hstatus : ∀ r ∈ (activeRows rows).take limit, r ∈ rows ∧ isActive r = true ∧
      isActive (served isoformat digest settings inputs r) = true := by
    intro r hr
    obtain ⟨hrow, hactive⟩ := activeRows_subset (List.mem_of_mem_take hr)
    have hstill := (activeRows_subset (hperm.mem_iff.mpr
      (List.mem_append_left _ (List.mem_map_of_mem hr)))).2
    exact ⟨hrow, hactive, hstill⟩
  have hrest : ∀ r ∈ (activeRows rows).drop limit, r ∈ rows := fun r hr =>
    (activeRows_subset (List.mem_of_mem_drop hr)).1
  have hsorted : ((activeRows rows).take limit ++ (activeRows rows).drop limit).Pairwise
      fun r s => r.dispatchKey < s.dispatchKey := by
    rw [List.take_append_drop]
    exact sort_increasing (active_unique hunique)
  have hids : (((activeRows rows).take limit).map (·.id)).Nodup :=
    (activeIds_nodup hunique).sublist ((List.take_sublist _ _).map _)
  have hsorted' : (activeRows rows').Pairwise fun r s => r.dispatchKey < s.dispatchKey :=
    sort_increasing (active_unique (h.ids hunique ▸ hunique))
  generalize (activeRows rows).take limit = front at *
  generalize (activeRows rows).drop limit = rest at *
  generalize activeRows rows' = after at *
  have hkeys : (front.filter (isIdle isoformat digest settings inputs)).map
      (fun r => (served isoformat digest settings inputs r).dispatchKey) =
      (front.filter (isIdle isoformat digest settings inputs)).map (·.dispatchKey) := by
    refine List.map_congr_left fun r hr => ?_
    obtain ⟨hr, hidle⟩ := List.mem_filter.mp hr
    obtain ⟨-, hactive, hstill⟩ := hstatus r hr
    exact served_idle hactive hstill hidle
  have hperm' : after.Perm ((front.filter (isIdle isoformat digest settings inputs)).map
      (served isoformat digest settings inputs) ++ rest ++
      ((front.filter fun r => !isIdle isoformat digest settings inputs r).map
        (served isoformat digest settings inputs)).insertionSort
          fun r s => r.dispatchKey ≤ s.dispatchKey) := by
    have hparts := (List.filter_append_perm (isIdle isoformat digest settings inputs) front).map
      (served isoformat digest settings inputs)
    rw [List.map_append] at hparts
    refine hperm.trans ((hparts.symm.append_right rest).trans ?_)
    rw [List.append_assoc, List.append_assoc]
    refine List.Perm.append_left _ (List.perm_append_comm.trans ?_)
    exact List.Perm.append_left _ (List.perm_insertionSort _ _).symm
  have hfirst : ((front.filter (isIdle isoformat digest settings inputs)).map
      (served isoformat digest settings inputs) ++ rest).Pairwise
        fun r s => r.dispatchKey < s.dispatchKey := by
    have hsub : (front.filter (isIdle isoformat digest settings inputs) ++ rest).Pairwise
        fun r s => r.dispatchKey < s.dispatchKey :=
      hsorted.sublist (List.filter_sublist.append_right rest)
    rw [← List.pairwise_map (f := ActivationRow.dispatchKey), List.map_append] at hsub ⊢
    rwa [List.map_map, Function.comp_def, hkeys]
  have hlast : (((front.filter fun r => !isIdle isoformat digest settings inputs r).map
      (served isoformat digest settings inputs)).insertionSort
        fun r s => r.dispatchKey ≤ s.dispatchKey).Pairwise
          fun r s => r.dispatchKey < s.dispatchKey := by
    refine sort_increasing ?_
    rw [List.map_map]
    have hserved : (fun r : ActivationRow => r.id) ∘ served isoformat digest settings inputs =
        fun r => r.id := funext served_id
    rw [hserved]
    exact hids.sublist (List.filter_sublist.map _)
  -- A row of the first part has the key of a row from before the cycle.
  have hbefore : ∀ r ∈ (front.filter (isIdle isoformat digest settings inputs)).map
      (served isoformat digest settings inputs) ++ rest,
      ∃ s ∈ rows, r.dispatchKey = s.dispatchKey := by
    intro r hr
    rcases List.mem_append.mp hr with hr | hr
    · obtain ⟨s, hs, rfl⟩ := List.mem_map.mp hr
      obtain ⟨hs, hidle⟩ := List.mem_filter.mp hs
      obtain ⟨hrow, hactive, hstill⟩ := hstatus s hs
      exact ⟨s, hrow, served_idle hactive hstill hidle⟩
    · exact ⟨r, hrest r hr, rfl⟩
  refine hperm'.eq_of_pairwise (fun r s _ _ hrs hsr => absurd hsr hrs.asymm) hsorted' ?_
  refine List.pairwise_append.mpr ⟨hfirst, hlast, fun r hr s hs => ?_⟩
  obtain ⟨r', hr', hkey⟩ := hbefore r hr
  obtain ⟨s', hs', rfl⟩ := List.mem_map.mp ((List.mem_insertionSort _).mp hs)
  obtain ⟨hs', hidle⟩ := List.mem_filter.mp hs'
  obtain ⟨-, hactive, hstill⟩ := hstatus s' hs'
  obtain ⟨asset, timestamp, hevaluated⟩ :=
    served_evaluated hactive hstill (by simpa using hidle)
  rw [hkey]
  exact dispatchKey_lt (fun t ht => h.later r' hr' t ht _ _ _) hevaluated

/-- A cycle is a round of the dispatch. -/
theorem DispatchCycle.dispatch (hunique : (rows.map (·.id)).Nodup)
    (h : DispatchCycle isoformat digest settings inputs limit rows rows') :
    Dispatch limit (activeIds rows) (idleIds isoformat digest settings inputs limit rows)
      (activeIds rows') := by
  have hselected : (activeIds rows).take limit = ((activeRows rows).take limit).map (·.id) :=
    List.map_take.symm
  have hleft : (activeIds rows).drop limit = ((activeRows rows).drop limit).map (·.id) :=
    List.map_drop.symm
  have hserved : ∀ l : List ActivationRow,
      (l.map (served isoformat digest settings inputs)).map (·.id) = l.map (·.id) := fun l => by
    rw [List.map_map]
    exact List.map_congr_left fun r _ => served_id r
  refine ⟨?_, (((((activeRows rows).take limit).filter fun r =>
    !isIdle isoformat digest settings inputs r).map
      (served isoformat digest settings inputs)).insertionSort
        fun r s => r.dispatchKey ≤ s.dispatchKey).map (·.id), ?_, ?_⟩
  · rw [hselected]
    exact List.filter_sublist.map _
  · rw [hselected]
    intro id hid
    obtain ⟨r, hr, rfl⟩ := List.mem_map.mp hid
    obtain ⟨s, hs, rfl⟩ := List.mem_map.mp ((List.mem_insertionSort _).mp hr)
    rw [served_id]
    exact List.mem_map_of_mem (List.mem_of_mem_filter hs)
  · rw [hleft]
    unfold activeIds idleIds
    rw [h.order hunique, List.map_append, List.map_append, hserved]

/-! ### Windows of cycles -/

theorem DispatchCycles.dispatches {rounds : List (List ℕ × List ℕ)}
    (h : DispatchCycles isoformat digest settings limit rows rounds rows')
    (hunique : (rows.map (·.id)).Nodup) :
    Dispatches limit (activeIds rows) rounds (activeIds rows') := by
  induction h with
  | refl => exact .refl
  | step hcycle _ ih => exact .step (hcycle.dispatch hunique) (ih (hcycle.ids hunique ▸ hunique))

/-- In a window of `⌈n/L⌉` cycles every activation is selected exactly when the idle ones, counted in
every cycle but the last, leave room for all. -/
theorem activations_selected_iff {rounds : List (List ℕ × List ℕ)}
    (hunique : (rows.map (·.id)).Nodup) (hlimit : 0 < limit)
    (h : DispatchCycles isoformat digest settings limit rows rounds rows')
    (hwindow : rounds.length = (activeIds rows).length ⌈/⌉ limit) :
    (∀ id ∈ activeIds rows, ∃ round ∈ rounds, id ∈ round.1) ↔
      (activeIds rows).length + wasted rounds ≤ limit * ((activeIds rows).length ⌈/⌉ limit) := by
  rw [Nat.mul_comm, ← hwindow]
  by_cases hne : rounds = []
  · subst hne
    have hroom : (activeIds rows).length ≤ limit * 0 := by
      rw [← ceilDiv_le_iff_le_mul hlimit, ← hwindow]
      rfl
    have hnil : activeIds rows = [] := List.eq_nil_of_length_eq_zero (by omega)
    rw [hnil]
    simp [wasted]
  · exact dispatches_all_iff (h.dispatches hunique) (activeIds_nodup hunique) hne

end

/-! ### Two activations and room for one -/

def twoActivations : List ActivationRow :=
  [⟨1, 0, crossingRuntime false⟩, ⟨2, 0, crossingRuntime false⟩]

/-- Every asset finds one candle, at the given time. -/
def candleInputs (now : ℤ) : DispatchInputs := fun _ =>
  { crossingInput with clock := fun _ _ => ⟨now, 0⟩ }

def noCandles : DispatchInputs := fun _ => { crossingInput with candles := fun _ _ => [] }

/-- The rows after a cycle with room for one activation. -/
def oneDispatched (settings : LiveSettings) (inputs : DispatchInputs) (rows : List ActivationRow) :
    List ActivationRow :=
  (processActive (fun _ => "") (fun _ => "v1") settings inputs 1 rows).1

theorem oneDispatched_cycle {inputs : DispatchInputs} {rows : List ActivationRow} {now : ℤ}
    (hclock : ∀ id asset timestamp, ((inputs id).clock asset timestamp).observedAt = now)
    (hfixed : (activeIds (oneDispatched {} inputs rows)).Perm (activeIds rows))
    (hlater : rows.all (fun r => r.runtime.activation.lastEvaluatedAt.all fun t => t < now) = true) :
    DispatchCycle (fun _ => "") (fun _ => "v1") {} inputs 1 rows (oneDispatched {} inputs rows) := by
  refine ⟨rfl, fun id => hfixed.mem_iff, fun r hr t ht id asset timestamp => ?_⟩
  have hrow := List.all_eq_true.mp hlater r hr
  rw [ht, Option.all_some, decide_eq_true_eq] at hrow
  rwa [hclock]

/-- Without candles the first activation stays in front, and the second one is never selected. -/
theorem idle_activation_starves : ¬ ∀ (limit : ℕ) (rows rows' : List ActivationRow)
    (rounds : List (List ℕ × List ℕ)), 0 < limit → (rows.map (·.id)).Nodup →
    DispatchCycles (fun _ => "") (fun _ => "v1") {} limit rows rounds rows' →
    rounds.length = (activeIds rows).length ⌈/⌉ limit →
    ∀ id ∈ activeIds rows, ∃ round ∈ rounds, id ∈ round.1 := by
  intro hall
  have hfirst : DispatchCycle (fun _ => "") (fun _ => "v1") {} noCandles 1 twoActivations
      (oneDispatched {} noCandles twoActivations) :=
    oneDispatched_cycle (fun _ _ _ => rfl) (by decide +kernel) (by decide +kernel)
  have hsecond : DispatchCycle (fun _ => "") (fun _ => "v1") {} noCandles 1
      (oneDispatched {} noCandles twoActivations)
      (oneDispatched {} noCandles (oneDispatched {} noCandles twoActivations)) :=
    oneDispatched_cycle (fun _ _ _ => rfl) (by decide +kernel) (by decide +kernel)
  have hwindow : (activeIds twoActivations).length ⌈/⌉ 1 = 2 := by decide +kernel
  have htwo : 2 ∈ activeIds twoActivations := by decide +kernel
  obtain ⟨round, hround, hin⟩ := hall 1 twoActivations _ _ (by decide) (by decide)
    (.step hfirst (.step hsecond .refl)) hwindow.symm 2 htwo
  have hselected : (activeIds twoActivations).take 1 = [1] := by decide +kernel
  have hagain : (activeIds (oneDispatched {} noCandles twoActivations)).take 1 = [1] := by
    decide +kernel
  rw [hselected, hagain] at hround
  simp only [List.mem_cons, List.not_mem_nil, or_false] at hround
  rcases hround with rfl | rfl
  · exact absurd hin (by decide)
  · exact absurd hin (by decide)

/-- With candles both are selected. -/
theorem activations_selected_two : ∃ rounds rows',
    DispatchCycles (fun _ => "") (fun _ => "v1") {} 1 twoActivations rounds rows' ∧
    rounds.length = 2 ∧ ∀ id ∈ activeIds twoActivations, ∃ round ∈ rounds, id ∈ round.1 := by
  have hfirst : DispatchCycle (fun _ => "") (fun _ => "v1") {} (candleInputs (2 * minute)) 1
      twoActivations (oneDispatched {} (candleInputs (2 * minute)) twoActivations) :=
    oneDispatched_cycle (fun _ _ _ => rfl) (by decide +kernel) (by decide +kernel)
  have hsecond : DispatchCycle (fun _ => "") (fun _ => "v1") {} (candleInputs (3 * minute)) 1
      (oneDispatched {} (candleInputs (2 * minute)) twoActivations)
      (oneDispatched {} (candleInputs (3 * minute))
        (oneDispatched {} (candleInputs (2 * minute)) twoActivations)) :=
    oneDispatched_cycle (fun _ _ _ => rfl) (by decide +kernel) (by decide +kernel)
  have hrun := DispatchCycles.step hfirst (.step hsecond .refl)
  have hwindow : (activeIds twoActivations).length ⌈/⌉ 1 = 2 := by decide +kernel
  have hidle : idleIds (fun _ => "") (fun _ => "v1") {} (candleInputs (2 * minute)) 1
      twoActivations = [] := by decide +kernel
  have hlength : (activeIds twoActivations).length = 2 := by decide +kernel
  refine ⟨_, _, hrun, rfl, (activations_selected_iff (by decide) (by decide) hrun hwindow.symm).mpr ?_⟩
  rw [hwindow, hlength, hidle]
  decide

end Quantive.LiveStrategy
