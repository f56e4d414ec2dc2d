import Quantive.Divergence.Findings

/-!
# The order of the evidence

What `compare` returns when its evidence tuples arrive in another order: it raises exactly when
a sort meets a `None`, and tied records are the only ones whose order counts.
-/

namespace Quantive.Divergence

open PythonTuple (Atom KeyComparable)

/-- The same records, each tuple in an order of its own. -/
structure Reordered (e e' : EvidenceTuples) : Prop where
  expectedSignals : e.expectedSignals.Perm e'.expectedSignals
  observedSignals : e.observedSignals.Perm e'.observedSignals
  expectedCandles : e.expectedCandles.Perm e'.expectedCandles
  observedCandles : e.observedCandles.Perm e'.observedCandles
  expectedExecutions : e.expectedExecutions.Perm e'.expectedExecutions
  observedExecutions : e.observedExecutions.Perm e'.observedExecutions
  expectedPositions : e.expectedPositions.Perm e'.expectedPositions
  observedPositions : e.observedPositions.Perm e'.observedPositions
  observedDataIssues : e.observedDataIssues.Perm e'.observedDataIssues

theorem Reordered.refl (e : EvidenceTuples) : Reordered e e := by constructor <;> rfl

def ComparisonInput.withTuples (i : ComparisonInput) (e : EvidenceTuples) : ComparisonInput :=
  { i with toEvidenceTuples := e }

/-- `compare` raises in no order of the evidence and always returns the same result. -/
def OrderIndependent (digest : FindingPayload → ℕ) (i : ComparisonInput) : Prop :=
  ∃ r, ∀ e, Reordered i.toEvidenceTuples e → compare (i.withTuples e) digest = .ok r

/-! ### Sortable evidence -/

/-- Signals that agree up to their ids have ids or have none. -/
def SignalsSortable (ps : List SignalPoint) : Prop :=
  ∀ p ∈ ps, ∀ q ∈ ps, p.eventTime = q.eventTime → p.assetId = q.assetId →
    p.eventType = q.eventType → p.signalId.isSome = q.signalId.isSome

def ExecutionsSortable (ps : List ExecutionPoint) : Prop :=
  ∀ p ∈ ps, ∀ q ∈ ps, p.executionTime = q.executionTime → p.assetId = q.assetId →
    p.side = q.side → p.direction = q.direction → p.signalId.isSome = q.signalId.isSome

instance (ps : List SignalPoint) : Decidable (SignalsSortable ps) := by
  unfold SignalsSortable; infer_instance
instance (ps : List ExecutionPoint) : Decidable (ExecutionsSortable ps) := by
  unfold ExecutionsSortable; infer_instance

structure Sortable (e : EvidenceTuples) : Prop where
  expectedSignals : SignalsSortable e.expectedSignals
  observedSignals : SignalsSortable e.observedSignals
  expectedExecutions : ExecutionsSortable e.expectedExecutions
  observedExecutions : ExecutionsSortable e.observedExecutions

theorem eventTypeValue_injective : Function.Injective eventTypeValue := by
  intro a b h
  cases a <;> cases b <;> simp_all [eventTypeValue]

theorem sideValue_injective : Function.Injective ExecutionSide.value := by
  intro a b h
  cases a <;> cases b <;> simp_all [ExecutionSide.value]

theorem directionValue_injective : Function.Injective ExecutionDirection.value := by
  intro a b h
  cases a <;> cases b <;> simp_all [ExecutionDirection.value]

theorem optional_comparable (a b : Option String) :
    PythonTuple.Comparable [.optional a] [.optional b] ↔ a.isSome = b.isSome := by
  cases a <;> cases b <;> simp [Atom.optional, PythonTuple.Comparable, Atom.SameKind]

theorem signalKey_comparable (p q : SignalPoint) :
    PythonTuple.Comparable p.key q.key ↔
      (p.assetId = q.assetId → p.eventType = q.eventType → p.signalId.isSome = q.signalId.isSome) := by
  have htext : ∀ {a b : LiveStrategy.StrategyEventType}, eventTypeValue a = eventTypeValue b ↔ a = b :=
    eventTypeValue_injective.eq_iff
  rw [← optional_comparable]
  by_cases ha : p.assetId = q.assetId <;> by_cases ht : p.eventType = q.eventType <;>
    simp [SignalPoint.key, PythonTuple.Comparable, Atom.SameKind, ha, ht, htext]

theorem executionKey_comparable (p q : ExecutionPoint) :
    PythonTuple.Comparable p.key q.key ↔
      (p.assetId = q.assetId → p.side = q.side → p.direction = q.direction →
        p.signalId.isSome = q.signalId.isSome) := by
  have hside : ∀ {a b : ExecutionSide}, a.value = b.value ↔ a = b := sideValue_injective.eq_iff
  have hdir : ∀ {a b : ExecutionDirection}, a.value = b.value ↔ a = b :=
    directionValue_injective.eq_iff
  rw [← optional_comparable]
  by_cases ha : p.assetId = q.assetId <;> by_cases hs : p.side = q.side <;>
    by_cases hd : p.direction = q.direction <;>
    simp [ExecutionPoint.key, PythonTuple.Comparable, Atom.SameKind, ha, hs, hd, hside, hdir]

theorem signals_ordered {ps : List SignalPoint} :
    Ordered (·.eventTime) SignalPoint.key ps ↔ SignalsSortable ps := by
  unfold Ordered SignalsSortable KeyComparable
  simp only [signalKey_comparable]

theorem executions_ordered {ps : List ExecutionPoint} :
    Ordered (·.executionTime) ExecutionPoint.key ps ↔ ExecutionsSortable ps := by
  unfold Ordered ExecutionsSortable KeyComparable
  simp only [executionKey_comparable]

theorem number_comparable (m n : ℕ) : PythonTuple.Comparable [.number m] [.number n] := by
  by_cases h : m = n <;> simp [PythonTuple.Comparable, Atom.SameKind, h]

theorem candles_ordered (ps : List CandlePoint) : Ordered (·.timestamp) CandlePoint.key ps :=
  fun p _ q _ _ => number_comparable p.assetId q.assetId

theorem positions_ordered (ps : List PositionPoint) : Ordered (·.timestamp) PositionPoint.key ps :=
  fun p _ q _ _ => number_comparable p.assetId q.assetId

theorem ordered_of_pairPoints {α : Type} {time : α → ℤ} {key : α → List Atom} {es os : List α}
    {m : KeyedPairing.Matching α} (h : pairPoints time key es os = .ok m) :
    Ordered time key es ∧ Ordered time key os := by
  obtain ⟨r, s, u, hr, hs, -, -⟩ := pairPoints_spec h
  exact ⟨ordered_of_chronological hr, ordered_of_chronological hs⟩

/-- A comparison that returns sorted all its tuples. -/
theorem sortable_of_allFindings {i : ComparisonInput} {fs : List DivergenceFinding}
    (h : allFindings i = .ok fs) : Sortable i.toEvidenceTuples := by
  obtain ⟨s, c, x, p, m, hs, -, hx, -, -, -⟩ := allFindings_parts h
  unfold compareSignals at hs
  unfold compareExecutions at hx
  cases hps : pairPoints (·.eventTime) SignalPoint.key i.expectedSignals i.observedSignals with
  | error e => simp [hps, bind, Except.bind] at hs
  | ok m =>
    cases hpe : pairPoints (·.executionTime) ExecutionPoint.key i.expectedExecutions
        i.observedExecutions with
    | error e => simp [hpe, bind, Except.bind] at hx
    | ok n =>
      have hsig := ordered_of_pairPoints hps
      have hexe := ordered_of_pairPoints hpe
      exact ⟨signals_ordered.mp hsig.1, signals_ordered.mp hsig.2,
        executions_ordered.mp hexe.1, executions_ordered.mp hexe.2⟩

theorem sortable_of_compare {i : ComparisonInput} {digest : FindingPayload → ℕ} {r : ComparisonResult}
    (h : compare i digest = .ok r) : Sortable i.toEvidenceTuples := by
  unfold compare at h
  cases hall : allFindings i with
  | error e => simp [hall, bind, Except.bind] at h
  | ok fs => exact sortable_of_allFindings hall

theorem OrderIndependent.sortable {digest : FindingPayload → ℕ} {i : ComparisonInput}
    (h : OrderIndependent digest i) : Sortable i.toEvidenceTuples := by
  obtain ⟨r, hr⟩ := h
  exact sortable_of_compare (hr i.toEvidenceTuples (Reordered.refl _))

/-! ### Arithmetic that fits -/

/-- No difference of two returns overflows. -/
def ReturnsFit (i : ComparisonInput) : Prop :=
  ∀ e ∈ i.expectedPerformance, ∀ o ∈ i.observedPerformance,
    (∀ a ∈ e.totalReturn, ∀ b ∈ o.totalReturn, ∃ d, Decimal.sub a b = some d) ∧
      ∀ a ∈ e.benchmarkReturn, ∀ b ∈ o.benchmarkReturn, ∃ d, Decimal.sub a b = some d

/-- Nor does a ratio of two prices. -/
structure Fits (i : ComparisonInput) : Prop where
  candles : ∀ e ∈ i.expectedCandles, ∀ o ∈ i.observedCandles, e.assetId = o.assetId →
    ∃ x, priceDifference e o = .ok x
  executions : ∀ e ∈ i.expectedExecutions, ∀ o ∈ i.observedExecutions, e.key = o.key →
    ∃ x, bpsDifference e.price o.price = .ok x
  performance : ReturnsFit i

theorem difference_ok {a b d : ℚ} (h : Decimal.sub a b = some d) : difference a b = .ok |d| := by
  simp [difference, arithmetic, h, bind, Except.bind, pure, Except.pure]

theorem difference_amounts {a b : ℚ} (ha : 0 ≤ a) (hb : 0 ≤ b) (hda : IsDecimal a)
    (hdb : IsDecimal b) : ∃ x, difference a b = .ok x := by
  obtain ⟨d, hd⟩ := Decimal.sub_isSome ha hb hda hdb
  exact ⟨_, difference_ok hd⟩

theorem paidDiffers_ok {tolerance : ℚ} {a b : Option ℚ}
    (h : ∀ x ∈ a, ∀ y ∈ b, ∃ d, difference x y = .ok d) :
    ∃ r, paidDiffers tolerance a b = .ok r := by
  cases a with
  | none => exact ⟨false, rfl⟩
  | some x =>
    cases b with
    | none => exact ⟨false, rfl⟩
    | some y =>
      obtain ⟨d, hd⟩ := h x rfl y rfl
      exact ⟨decide (tolerance < d), by simp [paidDiffers, hd, bind, Except.bind, pure, Except.pure]⟩

variable {i : ComparisonInput}

theorem candlePair_ok {e o : CandlePoint} (h : ∃ x, priceDifference e o = .ok x) :
    ∃ fs, candlePair i (e, o) = .ok fs := by
  obtain ⟨x, hx⟩ := h
  have he := e.valid.2.2.2.2.2.1
  have ho := o.valid.2.2.2.2.2.1
  obtain ⟨v, hv⟩ := difference_amounts he ho (e.decimals e.volume (by simp))
    (o.decimals o.volume (by simp))
  unfold candlePair
  dsimp only
  split
  · exact ⟨_, rfl⟩
  · simp only [hx, hv, bind, Except.bind, pure, Except.pure]
    exact ⟨_, rfl⟩

theorem executionPair_ok {e o : ExecutionPoint} (h : ∃ x, bpsDifference e.price o.price = .ok x) :
    ∃ fs, executionPair i (e, o) = .ok fs := by
  obtain ⟨x, hx⟩ := h
  have hslip : ∃ r, paidDiffers i.policy.slippageTolerance e.slippagePaid o.slippagePaid = .ok r :=
    paidDiffers_ok fun a ha b hb => difference_amounts (e.valid.2.2.2.2.1 a ha)
      (o.valid.2.2.2.2.1 b hb) (e.decimals.2.2.2 a ha) (o.decimals.2.2.2 b hb)
  have hfees : ∃ r, paidDiffers i.policy.feeTolerance e.feesPaid o.feesPaid = .ok r :=
    paidDiffers_ok fun a ha b hb => difference_amounts (e.valid.2.2.2.1 a ha)
      (o.valid.2.2.2.1 b hb) (e.decimals.2.2.1 a ha) (o.decimals.2.2.1 b hb)
  obtain ⟨s, hs⟩ := hslip
  obtain ⟨c, hc⟩ := hfees
  have hslipped : ∃ r, executionSlipped i e o = .ok r := by
    by_cases hp : (i.policy.executionPriceToleranceBps : WithTop ℚ) < x
    · exact ⟨true, by simp [executionSlipped, hx, hp, bind, Except.bind, pure, Except.pure]⟩
    · exact ⟨s, by simp [executionSlipped, hx, hp, hs, bind, Except.bind]⟩
  obtain ⟨r, hr⟩ := hslipped
  simp only [executionPair, hr, hc, bind, Except.bind, pure, Except.pure]
  exact ⟨_, rfl⟩

theorem positionPair_ok (e o : PositionPoint) : ∃ fs, positionPair i (e, o) = .ok fs := by
  have hexposure : ∃ r, paidDiffers i.policy.exposureTolerance e.exposure o.exposure = .ok r :=
    paidDiffers_ok fun a ha b hb => by
      obtain ⟨ha0, -, hda⟩ := e.valid.2 a ha
      obtain ⟨hb0, -, hdb⟩ := o.valid.2 b hb
      exact difference_amounts ha0 hb0 hda hdb
  obtain ⟨r, hr⟩ := hexposure
  simp only [positionPair, hr, bind, Except.bind, pure, Except.pure]
  exact ⟨_, rfl⟩

theorem mapM_ok {α β ε : Type} {f : α → Except ε β} {xs : List α}
    (h : ∀ x ∈ xs, ∃ y, f x = .ok y) : ∃ ys, xs.mapM f = .ok ys := by
  induction xs with
  | nil => exact ⟨[], rfl⟩
  | cons x xs ih =>
    obtain ⟨y, hy⟩ := h x List.mem_cons_self
    obtain ⟨ys, hys⟩ := ih fun z hz => h z (List.mem_cons_of_mem _ hz)
    exact ⟨y :: ys, by simp [List.mapM_cons, hy, hys, bind, Except.bind, pure, Except.pure]⟩

theorem compareSignals_ok (h : Sortable i.toEvidenceTuples) : ∃ fs, compareSignals i = .ok fs := by
  obtain ⟨m, hm, -⟩ := pairPoints_ok (signals_ordered.mpr h.expectedSignals)
    (signals_ordered.mpr h.observedSignals)
  simp only [compareSignals, hm, bind, Except.bind, pure, Except.pure]
  exact ⟨_, rfl⟩

theorem compareCandles_ok (h : Fits i) : ∃ fs, compareCandles i = .ok fs := by
  obtain ⟨m, hm, hmem⟩ := pairPoints_ok (candles_ordered i.expectedCandles)
    (candles_ordered i.observedCandles)
  have hpairs : ∃ fss, m.pairs.mapM (candlePair i) = .ok fss := by
    refine mapM_ok fun p hp => ?_
    obtain ⟨h₁, h₂, hk⟩ := hmem p hp
    have hasset : p.1.assetId = p.2.assetId := by
      have := hk.symm
      simpa [CandlePoint.key] using this
    exact candlePair_ok (h.candles p.1 h₁ p.2 h₂ hasset)
  obtain ⟨fss, hfss⟩ := hpairs
  simp only [compareCandles, hm, hfss, bind, Except.bind, pure, Except.pure]
  exact ⟨_, rfl⟩

theorem compareExecutions_ok (hs : Sortable i.toEvidenceTuples) (h : Fits i) :
    ∃ fs, compareExecutions i = .ok fs := by
  obtain ⟨m, hm, hmem⟩ := pairPoints_ok (executions_ordered.mpr hs.expectedExecutions)
    (executions_ordered.mpr hs.observedExecutions)
  have hpairs : ∃ fss, m.pairs.mapM (executionPair i) = .ok fss := by
    refine mapM_ok fun p hp => ?_
    obtain ⟨h₁, h₂, hk⟩ := hmem p hp
    exact executionPair_ok (h.executions p.1 h₁ p.2 h₂ hk.symm)
  obtain ⟨fss, hfss⟩ := hpairs
  simp only [compareExecutions, hm, hfss, bind, Except.bind, pure, Except.pure]
  exact ⟨_, rfl⟩

theorem comparePositions_ok : ∃ fs, comparePositions i = .ok fs := by
  obtain ⟨m, hm, -⟩ := pairPoints_ok (positions_ordered i.expectedPositions)
    (positions_ordered i.observedPositions)
  obtain ⟨fss, hfss⟩ : ∃ fss, m.pairs.mapM (positionPair i) = .ok fss :=
    mapM_ok fun p _ => positionPair_ok p.1 p.2
  simp only [comparePositions, hm, hfss, bind, Except.bind, pure, Except.pure]
  exact ⟨_, rfl⟩

theorem metricDifference_ok (field : String) (t : Monitoring.DivergenceType) (tolerance : ℚ)
    {a b : Option ℚ} (h : ∀ x ∈ a, ∀ y ∈ b, ∃ d, difference x y = .ok d) :
    ∃ fs, metricDifference i field t tolerance a b = .ok fs := by
  obtain ⟨r, hr⟩ : ∃ r, paidDiffers tolerance a b = .ok r := paidDiffers_ok h
  simp only [metricDifference, hr, bind, Except.bind, pure, Except.pure]
  exact ⟨_, rfl⟩

theorem winRate_ok {v m : ℕ} (h : v ≤ m) (hm : m ≠ 0) :
    ∃ r, Decimal.div v m = some r ∧ 0 ≤ r ∧ r ≤ 2 := by
  have hpos : (0 : ℚ) < m := by exact_mod_cast Nat.pos_of_ne_zero hm
  have h0 : (0 : ℚ) ≤ v / m := div_nonneg (by exact_mod_cast Nat.zero_le v) hpos.le
  have h1 : (v : ℚ) / m ≤ 1 := by
    rw [div_le_one hpos]
    exact_mod_cast h
  have habs : |(v : ℚ) / m| ≤ 2 := by
    rw [abs_of_nonneg h0]
    linarith
  obtain ⟨r, hr⟩ := Decimal.fix_isSome_of_le_two habs
  exact ⟨r, hr, Decimal.fix_bounds h0 h1 hr⟩

theorem winRateDifference_ok (e o : PerformancePoint) : ∃ fs, winRateDifference i e o = .ok fs := by
  unfold winRateDifference
  split
  · next m n v w hm hn hv hw =>
    split
    · next hne =>
      obtain ⟨r, hr, hr0, hr2⟩ := winRate_ok (e.winning v hv m hm) hne.1
      obtain ⟨s, hs, hs0, hs2⟩ := winRate_ok (o.winning w hw n hn) hne.2
      have hle : |r - s| ≤ 2 := abs_le.mpr ⟨by linarith, by linarith⟩
      obtain ⟨d, hd⟩ := Decimal.fix_isSome_of_le_two hle
      have hdiff : difference r s = .ok |d| := difference_ok hd
      simp only [hr, hs, arithmetic, hdiff, bind, Except.bind, pure, Except.pure]
      exact ⟨_, rfl⟩
    · exact ⟨_, rfl⟩
  · exact ⟨_, rfl⟩

theorem comparePerformance_ok (h : ReturnsFit i) : ∃ fs, comparePerformance i = .ok fs := by
  unfold comparePerformance
  dsimp only
  split
  · exact ⟨_, rfl⟩
  · exact ⟨_, rfl⟩
  · exact ⟨_, rfl⟩
  · next e o he ho =>
    obtain ⟨htotal, hbench⟩ := h e he o ho
    have hsub : ∀ {a b : ℚ}, (∃ d, Decimal.sub a b = some d) → ∃ d, difference a b = .ok d :=
      fun ⟨d, hd⟩ => ⟨_, difference_ok hd⟩
    have hamounts : ∀ {a b : Option ℚ}, (∀ x ∈ a, 0 ≤ x ∧ IsDecimal x) →
        (∀ y ∈ b, 0 ≤ y ∧ IsDecimal y) → ∀ x ∈ a, ∀ y ∈ b, ∃ d, difference x y = .ok d :=
      fun ha hb x hx y hy => difference_amounts (ha x hx).1 (hb y hy).1 (ha x hx).2 (hb y hy).2
    obtain ⟨a, ha⟩ := metricDifference_ok (i := i) "total_return" .returnDifference
      i.policy.returnTolerance fun x hx y hy => hsub (htotal x hx y hy)
    obtain ⟨b, hb⟩ := metricDifference_ok (i := i) "max_drawdown" .drawdownDifference
      i.policy.drawdownTolerance (hamounts
        (fun x hx => ⟨e.nonnegative.1 x hx, e.decimals _ (by simp) x hx⟩)
        fun y hy => ⟨o.nonnegative.1 y hy, o.decimals _ (by simp) y hy⟩)
    obtain ⟨c, hc⟩ := metricDifference_ok (i := i) "annualized_volatility" .volatilityDifference
      i.policy.volatilityTolerance (hamounts
        (fun x hx => ⟨e.nonnegative.2 x hx, e.decimals _ (by simp) x hx⟩)
        fun y hy => ⟨o.nonnegative.2 y hy, o.decimals _ (by simp) y hy⟩)
    obtain ⟨d, hd⟩ := metricDifference_ok (i := i) "benchmark_return" .benchmarkRelativeDifference
      i.policy.benchmarkRelativeTolerance fun x hx y hy => hsub (hbench x hx y hy)
    obtain ⟨w, hw⟩ := winRateDifference_ok (i := i) e o
    simp only [ha, hb, hc, hd, hw, bind, Except.bind, pure, Except.pure]
    exact ⟨_, rfl⟩

/-- Evidence that sorts and whose arithmetic fits is compared. -/
theorem allFindings_ok (hs : Sortable i.toEvidenceTuples) (h : Fits i) :
    ∃ fs, allFindings i = .ok fs := by
  obtain ⟨s, hsig⟩ := compareSignals_ok hs
  obtain ⟨c, hc⟩ := compareCandles_ok h
  obtain ⟨x, hx⟩ := compareExecutions_ok hs h
  obtain ⟨p, hp⟩ := comparePositions_ok (i := i)
  obtain ⟨m, hm⟩ := comparePerformance_ok h.performance
  simp only [allFindings, hsig, hc, hx, hp, hm, bind, Except.bind, pure, Except.pure]
  exact ⟨_, rfl⟩

/-! ### Reordered evidence -/

/-- Records of one tuple that agree on the time and the pairing key are equal. -/
structure Unambiguous (e : EvidenceTuples) : Prop where
  expectedSignals : TiesEqual (·.eventTime) SignalPoint.key e.expectedSignals
  observedSignals : TiesEqual (·.eventTime) SignalPoint.key e.observedSignals
  expectedCandles : TiesEqual (·.timestamp) CandlePoint.key e.expectedCandles
  observedCandles : TiesEqual (·.timestamp) CandlePoint.key e.observedCandles
  expectedExecutions : TiesEqual (·.executionTime) ExecutionPoint.key e.expectedExecutions
  observedExecutions : TiesEqual (·.executionTime) ExecutionPoint.key e.observedExecutions
  expectedPositions : TiesEqual (·.timestamp) PositionPoint.key e.expectedPositions
  observedPositions : TiesEqual (·.timestamp) PositionPoint.key e.observedPositions

variable {e : EvidenceTuples}

theorem compareSignals_reordered (h : Unambiguous i.toEvidenceTuples)
    (he : Reordered i.toEvidenceTuples e) : compareSignals (i.withTuples e) = compareSignals i := by
  have hpair := pairPoints_perm h.expectedSignals h.observedSignals he.expectedSignals
    he.observedSignals
  unfold compareSignals
  rw [hpair]
  rfl

theorem compareCandles_reordered (h : Unambiguous i.toEvidenceTuples)
    (he : Reordered i.toEvidenceTuples e) : compareCandles (i.withTuples e) = compareCandles i := by
  have hpair := pairPoints_perm h.expectedCandles h.observedCandles he.expectedCandles
    he.observedCandles
  unfold compareCandles
  rw [hpair]
  rfl

theorem compareExecutions_reordered (h : Unambiguous i.toEvidenceTuples)
    (he : Reordered i.toEvidenceTuples e) :
    compareExecutions (i.withTuples e) = compareExecutions i := by
  have hpair := pairPoints_perm h.expectedExecutions h.observedExecutions he.expectedExecutions
    he.observedExecutions
  unfold compareExecutions
  rw [hpair]
  rfl

theorem comparePositions_reordered (h : Unambiguous i.toEvidenceTuples)
    (he : Reordered i.toEvidenceTuples e) :
    comparePositions (i.withTuples e) = comparePositions i := by
  have hpair := pairPoints_perm h.expectedPositions h.observedPositions he.expectedPositions
    he.observedPositions
  unfold comparePositions
  rw [hpair]
  rfl

theorem allFindings_reordered (h : Unambiguous i.toEvidenceTuples)
    (he : Reordered i.toEvidenceTuples e) {fs : List DivergenceFinding} (hfs : allFindings i = .ok fs) :
    ∃ gs, allFindings (i.withTuples e) = .ok gs ∧ ∀ x, x ∈ gs ↔ x ∈ fs := by
  have hperformance : comparePerformance (i.withTuples e) = comparePerformance i := rfl
  obtain ⟨s, c, x, p, m, hs, hc, hx, hp, hm, heq⟩ := allFindings_parts hfs
  unfold allFindings
  rw [compareSignals_reordered h he, compareCandles_reordered h he, compareExecutions_reordered h he,
    comparePositions_reordered h he, hperformance]
  simp only [hs, hc, hx, hp, hm, bind, Except.bind, pure, Except.pure]
  refine ⟨_, rfl, fun f => ?_⟩
  have hissues : f ∈ e.observedDataIssues.map (issueFinding i) ↔
      f ∈ i.observedDataIssues.map (issueFinding i) :=
    (he.observedDataIssues.map _).symm.mem_iff
  have hidentity : identityFindings (i.withTuples e) = identityFindings i := rfl
  have hissue : issueFinding (i.withTuples e) = issueFinding i := rfl
  have htuple : (i.withTuples e).observedDataIssues = e.observedDataIssues := rfl
  rw [heq, hidentity, hissue, htuple]
  simp only [List.mem_append, hissues]

theorem orderIndependent_of_fits {digest : FindingPayload → ℕ} (hdigest : CollisionFree digest i)
    (hs : Sortable i.toEvidenceTuples) (hf : Fits i) (h : Unambiguous i.toEvidenceTuples) :
    OrderIndependent digest i := by
  obtain ⟨fs, hfs⟩ := allFindings_ok hs hf
  have hdetermined := hdigest.determined hfs
  refine ⟨resultOf i digest fs, fun e he => ?_⟩
  obtain ⟨gs, hgs, hmem⟩ := allFindings_reordered h he hfs
  have hresult : resultOf (i.withTuples e) digest gs = resultOf i digest fs :=
    hdetermined.resultOf_eq hmem rfl
  simp only [compare, hgs, hresult, bind, Except.bind, pure, Except.pure]

def sampleIdentity : StrategyVersionIdentity where
  strategyId := 1
  strategyVersionId := 2
  strategyVersionNumber := 1
  strategyDefinitionHash := String.ofList (List.replicate 64 'a')

def zeroTolerance : ComparisonPolicy where
  signalTimingToleranceSeconds := 0
  marketTimestampToleranceSeconds := 0
  ohlcToleranceBps := 0
  volumeTolerance := 0
  executionDelayToleranceSeconds := 0
  executionPriceToleranceBps := 0
  feeTolerance := 0
  slippageTolerance := 0
  exposureTolerance := 0
  returnTolerance := 0
  drawdownTolerance := 0
  volatilityTolerance := 0
  tradeCountTolerance := 0
  winRateTolerance := 0
  benchmarkRelativeTolerance := 0

/-- One hour without evidence. -/
def quietHour : ComparisonInput where
  strategy := sampleIdentity
  referenceStrategy := sampleIdentity
  policy := zeroTolerance
  windowStart := 0
  windowEnd := hour
  referenceSource := []
  observedSource := []
  referenceComplete := true
  observedComplete := true

/-- An event with an id and one without. -/
def mixedIds : ComparisonInput :=
  quietHour.withTuples
    { expectedSignals :=
        [{ assetId := 1, eventType := .exit, eventTime := minute },
          { assetId := 1, eventType := .exit, eventTime := minute, signalId := some "stop" }] }

instance {α : Type} [DecidableEq α] (time : α → ℤ) (key : α → List Atom) (xs : List α) :
    Decidable (TiesEqual time key xs) := by unfold TiesEqual; infer_instance

/-- Two entries that the live log lacks, one of them stated twice. -/
def twoEntries : ComparisonInput :=
  quietHour.withTuples
    { expectedSignals :=
        [{ assetId := 1, eventType := .entry, eventTime := 2 * minute, signalId := some "rise" },
          { assetId := 1, eventType := .entry, eventTime := minute, signalId := some "rise" },
          { assetId := 1, eventType := .entry, eventTime := minute, signalId := some "rise" }] }

/-- A fingerprint that tells findings of different times apart. -/
def timeDigest (p : FindingPayload) : ℕ := (p.timestamp.getD 0).toNat

end Quantive.Divergence
