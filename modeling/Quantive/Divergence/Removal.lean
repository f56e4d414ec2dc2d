import Quantive.Divergence.EvidenceOrder

/-!
# Missing evidence

What `compare` reports when the observed records are the expected ones without some of them.
-/

namespace Quantive.Divergence

open PythonTuple (Atom)
open KeyedPairing (Matching Distinct Trailing)

/-! ### The pairing of what is left -/

section
variable {α : Type} {time : α → ℤ} {key : α → List Atom} {expected observed removed : List α}

theorem pairPoints_trailing (hordered : Ordered time key expected) (hdist : Distinct key time expected)
    (hperm : expected.Perm (observed ++ removed)) (htrail : Trailing key time observed removed) :
    ∃ m, pairPoints time key expected observed = .ok m ∧ (∀ p ∈ m.pairs, p.1 = p.2) ∧
      m.expectedOnly.Perm removed ∧ m.observedOnly = [] := by
  have hobserved : Ordered time key observed :=
    hordered.mono fun y hy => hperm.mem_iff.mpr (List.mem_append_left _ hy)
  obtain ⟨r, hr, -⟩ := hordered.chronological
  obtain ⟨s, hs, -⟩ := hobserved.chronological
  obtain ⟨hrperm, hrsorted⟩ := chronological_spec hr
  obtain ⟨hsperm, hssorted⟩ := chronological_spec hs
  have hrs : r.Perm (s ++ removed) := (hrperm.trans hperm).trans (hsperm.symm.append_right removed)
  have hst : Trailing key time s removed := fun x hx y hy => htrail x hx y (hsperm.mem_iff.mp hy)
  obtain ⟨hpairs, honly, hnil⟩ := hst.pairUp (hdist.perm hrperm.symm) hrs hrsorted hssorted
  have hempty : chronological time key (KeyedPairing.pairUp key r s).observedOnly = .ok [] := by
    rw [hnil]
    rfl
  refine ⟨{ KeyedPairing.pairUp key r s with observedOnly := [] }, ?_, hpairs, honly, rfl⟩
  simp [pairPoints, hr, hs, hempty, bind, Except.bind, pure, Except.pure]

theorem trailing_of_pairPoints {m : Matching α} (hm : pairPoints time key expected observed = .ok m)
    (hdist : Distinct key time expected) (hperm : expected.Perm (observed ++ removed))
    (honly : ∀ x ∈ m.expectedOnly, x ∈ removed) : Trailing key time observed removed := by
  obtain ⟨r, s, u, hr, hs, -, rfl⟩ := pairPoints_spec hm
  obtain ⟨hrperm, hrsorted⟩ := chronological_spec hr
  obtain ⟨hsperm, -⟩ := chronological_spec hs
  have hrs : r.Perm (s ++ removed) := (hrperm.trans hperm).trans (hsperm.symm.append_right removed)
  have htrail := KeyedPairing.trailing_of_expectedOnly (hdist.perm hrperm.symm) hrs hrsorted honly
  exact fun x hx y hy => htrail x hx y (hsperm.mem_iff.mpr hy)

end

/-! ### A record beside itself -/

section
variable {i : ComparisonInput}

theorem not_beyond_self (tolerance : ℕ) (t : ℤ) : beyond tolerance t t = false := by
  have h : ¬ second * (tolerance : ℤ) < 0 := by
    have : (0 : ℤ) ≤ second * tolerance := by
      have : (0 : ℤ) ≤ tolerance := Int.natCast_nonneg _
      unfold second
      omega
    omega
  simp [beyond, h]

theorem bpsDifference_self (q : ℚ) : bpsDifference q q = .ok 0 := by
  unfold bpsDifference
  by_cases h : q = 0
  · simp [h, pure, Except.pure]
  · simp [h, arithmetic, bind, Except.bind, pure, Except.pure]

theorem difference_self (q : ℚ) : difference q q = .ok 0 := by
  simp [difference, arithmetic, bind, Except.bind, pure, Except.pure]

theorem paidDiffers_self {tolerance : ℚ} (h : 0 ≤ tolerance) (a : Option ℚ) :
    paidDiffers tolerance a a = .ok false := by
  cases a with
  | none => rfl
  | some q => simp [paidDiffers, difference_self, h, bind, Except.bind, pure, Except.pure]

theorem tolerance_nonneg {q : ℚ} (h : q ∈ [i.policy.ohlcToleranceBps, i.policy.volumeTolerance,
    i.policy.executionPriceToleranceBps, i.policy.feeTolerance, i.policy.slippageTolerance,
    i.policy.exposureTolerance, i.policy.returnTolerance, i.policy.drawdownTolerance,
    i.policy.volatilityTolerance, i.policy.winRateTolerance, i.policy.benchmarkRelativeTolerance]) :
    0 ≤ q :=
  (i.policy.nonnegative q h).1

theorem not_top_lt {q : ℚ} (h : 0 ≤ q) : ¬ (q : WithTop ℚ) < 0 := by
  rw [not_lt]
  exact_mod_cast h

theorem signalPair_self (p : SignalPoint) : signalPair i (p, p) = [] := by
  simp [signalPair, not_beyond_self]

theorem candlePair_self (p : CandlePoint) : candlePair i (p, p) = .ok [] := by
  have hprice : priceDifference p p = .ok 0 := by
    simp [priceDifference, bpsDifference_self, bind, Except.bind, pure, Except.pure]
  have hohlc := not_top_lt (tolerance_nonneg (i := i) (q := i.policy.ohlcToleranceBps) (by simp))
  have hvolume : ¬ i.policy.volumeTolerance < 0 := not_lt.mpr (tolerance_nonneg (i := i) (by simp))
  simp [candlePair, not_beyond_self, hprice, hohlc, hvolume, difference_self, bind, Except.bind,
    pure, Except.pure]
  cases p.revision <;> simp

theorem executionPair_self (p : ExecutionPoint) : executionPair i (p, p) = .ok [] := by
  have hprice := not_top_lt
    (tolerance_nonneg (i := i) (q := i.policy.executionPriceToleranceBps) (by simp))
  have hslip := paidDiffers_self (tolerance_nonneg (i := i) (q := i.policy.slippageTolerance)
    (by simp)) p.slippagePaid
  have hfees := paidDiffers_self (tolerance_nonneg (i := i) (q := i.policy.feeTolerance)
    (by simp)) p.feesPaid
  have hslipped : executionSlipped i p p = .ok false := by
    simp [executionSlipped, bpsDifference_self, hprice, hslip, bind, Except.bind]
  simp [executionPair, hslipped, hfees, not_beyond_self, bind, Except.bind, pure, Except.pure]

theorem mapM_self {α : Type} {pair : α × α → Except Raised (List DivergenceFinding)}
    (hself : ∀ x, pair (x, x) = .ok []) {ps : List (α × α)} (h : ∀ p ∈ ps, p.1 = p.2) :
    ∃ fss, ps.mapM pair = .ok fss ∧ fss.flatten = [] := by
  induction ps with
  | nil => exact ⟨[], rfl, rfl⟩
  | cons p ps ih =>
    obtain ⟨fss, hfss, hflat⟩ := ih fun q hq => h q (List.mem_cons_of_mem _ hq)
    have hp : pair p = .ok [] := by
      have hpp : p = (p.1, p.1) := Prod.ext rfl (h p List.mem_cons_self).symm
      rw [hpp]
      exact hself p.1
    refine ⟨[] :: fss, ?_, by simpa using hflat⟩
    simp [List.mapM_cons, hp, hfss, bind, Except.bind, pure, Except.pure]

/-! ### The removal -/

/-- `observed` evidence is `expected` evidence without the removed records; the times of a pairing
key differ, and there is no data issue. -/
structure Removed (i : ComparisonInput) (signals : List SignalPoint) (candles : List CandlePoint)
    (executions : List ExecutionPoint) : Prop where
  signals : i.expectedSignals.Perm (i.observedSignals ++ signals)
  candles : i.expectedCandles.Perm (i.observedCandles ++ candles)
  executions : i.expectedExecutions.Perm (i.observedExecutions ++ executions)
  signalTimes : Distinct SignalPoint.key (·.eventTime) i.expectedSignals
  candleTimes : Distinct CandlePoint.key (·.timestamp) i.expectedCandles
  executionTimes : Distinct ExecutionPoint.key (·.executionTime) i.expectedExecutions
  issues : i.observedDataIssues = []

def evidenceCategories : List String := ["signal", "market_data", "execution"]

/-- One missing-record finding for each removed record. -/
def missingFindings (i : ComparisonInput) (signals : List SignalPoint) (candles : List CandlePoint)
    (executions : List ExecutionPoint) : List DivergenceFinding :=
  signals.map (missingSignal i) ++ candles.map (missingCandle i) ++
    executions.map (missingExecution i)

/-- The findings of the three categories are the missing records and nothing else. -/
def ReportsMissing (digest : FindingPayload → ℕ) (i : ComparisonInput) (signals : List SignalPoint)
    (candles : List CandlePoint) (executions : List ExecutionPoint) : Prop :=
  ∃ r, compare i digest = .ok r ∧
    (r.findings.filter fun f => f.category ∈ evidenceCategories).Perm
      (missingFindings i signals candles executions)

/-- The removed records are later than what is left of their pairing keys. -/
structure RemovedLast (i : ComparisonInput) (signals : List SignalPoint) (candles : List CandlePoint)
    (executions : List ExecutionPoint) : Prop where
  signals : Trailing SignalPoint.key (·.eventTime) i.observedSignals signals
  candles : Trailing CandlePoint.key (·.timestamp) i.observedCandles candles
  executions : Trailing ExecutionPoint.key (·.executionTime) i.observedExecutions executions

theorem sub_of_paidDiffers {tolerance : ℚ} {a b : Option ℚ} {r : Bool}
    (h : paidDiffers tolerance a b = .ok r) : ∀ x ∈ a, ∀ y ∈ b, ∃ d, Decimal.sub x y = some d := by
  intro x hx y hy
  rw [Option.mem_def.mp hx, Option.mem_def.mp hy] at h
  cases hd : Decimal.sub x y with
  | some d => exact ⟨d, rfl⟩
  | none => simp [paidDiffers, difference, arithmetic, hd, bind, Except.bind] at h

theorem sub_of_metricDifference {field : String} {t : Monitoring.DivergenceType} {tolerance : ℚ}
    {a b : Option ℚ} {fs : List DivergenceFinding}
    (h : metricDifference i field t tolerance a b = .ok fs) :
    ∀ x ∈ a, ∀ y ∈ b, ∃ d, Decimal.sub x y = some d := by
  unfold metricDifference at h
  cases hp : paidDiffers tolerance a b with
  | error e => simp [hp, bind, Except.bind] at h
  | ok r => exact sub_of_paidDiffers hp

theorem returnsFit_of_comparePerformance {fs : List DivergenceFinding}
    (h : comparePerformance i = .ok fs) : ReturnsFit i := by
  intro e he o ho
  unfold comparePerformance at h
  rw [Option.mem_def.mp he, Option.mem_def.mp ho] at h
  dsimp only at h
  cases ha : metricDifference i "total_return" .returnDifference i.policy.returnTolerance
      e.totalReturn o.totalReturn with
  | error x => simp [ha, bind, Except.bind] at h
  | ok a =>
    cases hb : metricDifference i "max_drawdown" .drawdownDifference i.policy.drawdownTolerance
        e.maxDrawdown o.maxDrawdown with
    | error x => simp [ha, hb, bind, Except.bind] at h
    | ok b =>
      cases hc : metricDifference i "annualized_volatility" .volatilityDifference
          i.policy.volatilityTolerance e.annualizedVolatility o.annualizedVolatility with
      | error x => simp [ha, hb, hc, bind, Except.bind] at h
      | ok c =>
        cases hd : metricDifference i "benchmark_return" .benchmarkRelativeDifference
            i.policy.benchmarkRelativeTolerance e.benchmarkReturn o.benchmarkReturn with
        | error x => simp [ha, hb, hc, hd, bind, Except.bind] at h
        | ok d => exact ⟨sub_of_metricDifference ha, sub_of_metricDifference hd⟩

variable {signals : List SignalPoint} {candles : List CandlePoint} {executions : List ExecutionPoint}

theorem compareSignals_removed (h : Removed i signals candles executions)
    (hsort : Sortable i.toEvidenceTuples) (hlast : RemovedLast i signals candles executions) :
    ∃ s, compareSignals i = .ok s ∧ s.Perm (signals.map (missingSignal i)) := by
  obtain ⟨m, hm, hpairs, honly, hnil⟩ := pairPoints_trailing
    (signals_ordered.mpr hsort.expectedSignals) h.signalTimes h.signals hlast.signals
  have hflat : m.pairs.flatMap (signalPair i) = [] := by
    rw [List.flatMap_eq_nil_iff]
    intro p hp
    have hpp : p = (p.1, p.1) := Prod.ext rfl (hpairs p hp).symm
    rw [hpp]
    exact signalPair_self p.1
  simp only [compareSignals, hm, hflat, hnil, bind, Except.bind, pure, Except.pure]
  refine ⟨_, rfl, ?_⟩
  simpa using honly.map (missingSignal i)

theorem compareCandles_removed (h : Removed i signals candles executions)
    (hlast : RemovedLast i signals candles executions) :
    ∃ c, compareCandles i = .ok c ∧ c.Perm (candles.map (missingCandle i)) := by
  obtain ⟨m, hm, hpairs, honly, hnil⟩ := pairPoints_trailing
    (candles_ordered i.expectedCandles) h.candleTimes h.candles hlast.candles
  obtain ⟨fss, hfss, hflat⟩ := @mapM_self _ (candlePair i) candlePair_self _ hpairs
  simp only [compareCandles, hm, hfss, hflat, hnil, bind, Except.bind, pure, Except.pure]
  refine ⟨_, rfl, ?_⟩
  simpa using honly.map (missingCandle i)

theorem compareExecutions_removed (h : Removed i signals candles executions)
    (hsort : Sortable i.toEvidenceTuples) (hlast : RemovedLast i signals candles executions) :
    ∃ x, compareExecutions i = .ok x ∧ x.Perm (executions.map (missingExecution i)) := by
  obtain ⟨m, hm, hpairs, honly, hnil⟩ := pairPoints_trailing
    (executions_ordered.mpr hsort.expectedExecutions) h.executionTimes h.executions hlast.executions
  obtain ⟨fss, hfss, hflat⟩ := @mapM_self _ (executionPair i) executionPair_self _ hpairs
  simp only [compareExecutions, hm, hfss, hflat, hnil, bind, Except.bind, pure, Except.pure]
  refine ⟨_, rfl, ?_⟩
  simpa using honly.map (missingExecution i)

theorem missingSignal_injective : Function.Injective (missingSignal i) := fun x y h => by
  have hvalue := congrArg (fun f => f.expectedValue) h
  exact Evidence.signal.inj hvalue

theorem missingCandle_injective : Function.Injective (missingCandle i) := fun x y h => by
  have hvalue := congrArg (fun f => f.expectedValue) h
  exact Evidence.candle.inj hvalue

theorem missingExecution_injective : Function.Injective (missingExecution i) := fun x y h => by
  have hvalue := congrArg (fun f => f.expectedValue) h
  exact Evidence.execution.inj hvalue

theorem Removed.nodup (h : Removed i signals candles executions) :
    (missingFindings i signals candles executions).Nodup := by
  have hright : ∀ {α : Type} {xs ys zs : List α}, xs.Nodup → xs.Perm (ys ++ zs) → zs.Nodup :=
    fun hx hp => (List.nodup_append.mp (hp.nodup_iff.mp hx)).2.1
  have hs := (hright h.signalTimes.nodup h.signals).map (missingSignal_injective (i := i))
  have hc := (hright h.candleTimes.nodup h.candles).map (missingCandle_injective (i := i))
  have hx := (hright h.executionTimes.nodup h.executions).map (missingExecution_injective (i := i))
  refine (hs.append hc ?_).append hx ?_
  · intro f hf hg
    obtain ⟨x, -, rfl⟩ := List.mem_map.mp hf
    obtain ⟨y, -, hy⟩ := List.mem_map.mp hg
    have hvalue := congrArg (fun f => f.expectedValue) hy
    cases hvalue
  · intro f hf hg
    obtain ⟨y, -, rfl⟩ := List.mem_map.mp hg
    rcases List.mem_append.mp hf with hf | hf
    · obtain ⟨x, -, hx⟩ := List.mem_map.mp hf
      have hvalue := congrArg (fun f => f.expectedValue) hx
      cases hvalue
    · obtain ⟨x, -, hx⟩ := List.mem_map.mp hf
      have hvalue := congrArg (fun f => f.expectedValue) hx
      cases hvalue

/-- The findings of the three categories come from the three comparators. -/
theorem filter_mem {digest : FindingPayload → ℕ} (hdigest : CollisionFree digest i)
    (hissues : i.observedDataIssues = []) {fs s c x p m : List DivergenceFinding}
    (hall : allFindings i = .ok fs) (hs : compareSignals i = .ok s) (hc : compareCandles i = .ok c)
    (hx : compareExecutions i = .ok x) (hp : comparePositions i = .ok p)
    (hm : comparePerformance i = .ok m)
    (hfs : fs = identityFindings i ++ i.observedDataIssues.map (issueFinding i) ++ s ++ c ++ x ++ p ++ m)
    (f : DivergenceFinding) :
    f ∈ (resultOf i digest fs).findings.filter (fun f => f.category ∈ evidenceCategories) ↔
      (f ∈ s ∨ f ∈ c) ∨ f ∈ x := by
  have hmem := ((hdigest.determined hall).findings (i := i)).2 f
  rw [List.mem_filter, hmem, hfs, hissues]
  simp only [List.map_nil, List.mem_append, decide_eq_true_eq, List.not_mem_nil, or_false]
  constructor
  · rintro ⟨((((h | h) | h) | h) | h) | h, hcat⟩
    · obtain ⟨category, hlist, hissued⟩ := issued_identity h
      rw [hissued.category] at hcat
      have hnone : ∀ name ∈ ["coverage", "strategy_identity", "strategy_state"],
          name ∉ evidenceCategories := by decide
      exact absurd hcat (hnone category hlist)
    · exact Or.inl (Or.inl h)
    · exact Or.inl (Or.inr h)
    · exact Or.inr h
    · rw [(yields_positions p hp f h).category] at hcat
      exact absurd hcat (by decide)
    · rw [(yields_performance m hm f h).category] at hcat
      exact absurd hcat (by decide)
  · rintro ((h | h) | h)
    · exact ⟨by tauto, by rw [(yields_signals s hs f h).category]; decide⟩
    · exact ⟨by tauto, by rw [(yields_candles c hc f h).category]; decide⟩
    · exact ⟨by tauto, by rw [(yields_executions x hx f h).category]; decide⟩

theorem reportsMissing_of_last {digest : FindingPayload → ℕ} (hdigest : CollisionFree digest i)
    (h : Removed i signals candles executions) (hsort : Sortable i.toEvidenceTuples)
    (hlast : RemovedLast i signals candles executions) (hreturns : ReturnsFit i) :
    ReportsMissing digest i signals candles executions := by
  obtain ⟨s, hs, hsperm⟩ := compareSignals_removed h hsort hlast
  obtain ⟨c, hc, hcperm⟩ := compareCandles_removed h hlast
  obtain ⟨x, hx, hxperm⟩ := compareExecutions_removed h hsort hlast
  obtain ⟨p, hp⟩ := comparePositions_ok (i := i)
  obtain ⟨m, hm⟩ := comparePerformance_ok hreturns
  have hall : allFindings i = .ok (identityFindings i ++
      i.observedDataIssues.map (issueFinding i) ++ s ++ c ++ x ++ p ++ m) := by
    simp only [allFindings, hs, hc, hx, hp, hm, bind, Except.bind, pure, Except.pure]
  have hnodup := ((hdigest.determined hall).findings (i := i)).1
  simp only [ReportsMissing, compare, hall, bind, Except.bind, pure, Except.pure]
  refine ⟨_, rfl, ?_⟩
  rw [List.perm_ext_iff_of_nodup (hnodup.filter _) h.nodup]
  intro f
  rw [filter_mem hdigest h.issues hall hs hc hx hp hm rfl f]
  simp only [missingFindings, List.mem_append, hsperm.mem_iff, hcperm.mem_iff, hxperm.mem_iff]

theorem ReportsMissing.mem {digest : FindingPayload → ℕ} (hdigest : CollisionFree digest i)
    (h : Removed i signals candles executions)
    (hreports : ReportsMissing digest i signals candles executions) :
    ∃ s c x, compareSignals i = .ok s ∧ compareCandles i = .ok c ∧ compareExecutions i = .ok x ∧
      Sortable i.toEvidenceTuples ∧ ReturnsFit i ∧
      ∀ f, (f ∈ s ∨ f ∈ c) ∨ f ∈ x → f ∈ missingFindings i signals candles executions := by
  obtain ⟨r, hr, hperm⟩ := hreports
  cases hall : allFindings i with
  | error e => simp [compare, hall, bind, Except.bind] at hr
  | ok fs =>
    have hresult : resultOf i digest fs = r := by
      simpa [compare, hall, bind, Except.bind, pure, Except.pure] using hr
    obtain ⟨s, c, x, p, m, hs, hc, hx, hp, hm, hfs⟩ := allFindings_parts hall
    refine ⟨s, c, x, hs, hc, hx, sortable_of_allFindings hall,
      returnsFit_of_comparePerformance hm, fun f hf => ?_⟩
    rw [← hresult] at hperm
    exact hperm.mem_iff.mp ((filter_mem hdigest h.issues hall hs hc hx hp hm hfs f).mpr hf)

theorem compareSignals_only {s : List DivergenceFinding} (h : compareSignals i = .ok s) :
    ∃ m, pairPoints (·.eventTime) SignalPoint.key i.expectedSignals i.observedSignals = .ok m ∧
      ∀ y ∈ m.expectedOnly, missingSignal i y ∈ s := by
  unfold compareSignals at h
  cases hm : pairPoints (·.eventTime) SignalPoint.key i.expectedSignals i.observedSignals with
  | error e => simp [hm, bind, Except.bind] at h
  | ok m =>
    simp only [hm, bind, Except.bind, pure, Except.pure, Except.ok.injEq] at h
    refine ⟨m, rfl, fun y hy => ?_⟩
    have hin : missingSignal i y ∈ m.expectedOnly.map (missingSignal i) := List.mem_map_of_mem hy
    simp [← h, hin]

theorem compareCandles_only {c : List DivergenceFinding} (h : compareCandles i = .ok c) :
    ∃ m, pairPoints (·.timestamp) CandlePoint.key i.expectedCandles i.observedCandles = .ok m ∧
      ∀ y ∈ m.expectedOnly, missingCandle i y ∈ c := by
  unfold compareCandles at h
  cases hm : pairPoints (·.timestamp) CandlePoint.key i.expectedCandles i.observedCandles with
  | error e => simp [hm, bind, Except.bind] at h
  | ok m =>
    cases hp : m.pairs.mapM (candlePair i) with
    | error e => simp [hm, hp, bind, Except.bind] at h
    | ok fss =>
      simp only [hm, hp, bind, Except.bind, pure, Except.pure, Except.ok.injEq] at h
      refine ⟨m, rfl, fun y hy => ?_⟩
      have hin : missingCandle i y ∈ m.expectedOnly.map (missingCandle i) := List.mem_map_of_mem hy
      simp [← h, hin]

theorem compareExecutions_only {x : List DivergenceFinding} (h : compareExecutions i = .ok x) :
    ∃ m, pairPoints (·.executionTime) ExecutionPoint.key i.expectedExecutions i.observedExecutions =
        .ok m ∧ ∀ y ∈ m.expectedOnly, missingExecution i y ∈ x := by
  unfold compareExecutions at h
  cases hm : pairPoints (·.executionTime) ExecutionPoint.key i.expectedExecutions
      i.observedExecutions with
  | error e => simp [hm, bind, Except.bind] at h
  | ok m =>
    cases hp : m.pairs.mapM (executionPair i) with
    | error e => simp [hm, hp, bind, Except.bind] at h
    | ok fss =>
      simp only [hm, hp, bind, Except.bind, pure, Except.pure, Except.ok.injEq] at h
      refine ⟨m, rfl, fun y hy => ?_⟩
      have hin : missingExecution i y ∈ m.expectedOnly.map (missingExecution i) :=
        List.mem_map_of_mem hy
      simp [← h, hin]

/-- Whose missing-record finding it is can be read from its expected value. -/
theorem mem_missingFindings {f : DivergenceFinding}
    (h : f ∈ missingFindings i signals candles executions) :
    (∃ x ∈ signals, f.expectedValue = .signal x) ∨ (∃ x ∈ candles, f.expectedValue = .candle x) ∨
      ∃ x ∈ executions, f.expectedValue = .execution x := by
  simp only [missingFindings, List.mem_append, List.mem_map] at h
  rcases h with (⟨x, hx, rfl⟩ | ⟨x, hx, rfl⟩) | ⟨x, hx, rfl⟩
  · exact Or.inl ⟨x, hx, rfl⟩
  · exact Or.inr (Or.inl ⟨x, hx, rfl⟩)
  · exact Or.inr (Or.inr ⟨x, hx, rfl⟩)

/-- A record that the code finds alone is reported as missing, so it must be a removed one. -/
theorem ReportsMissing.last {digest : FindingPayload → ℕ} (hdigest : CollisionFree digest i)
    (h : Removed i signals candles executions)
    (hreports : ReportsMissing digest i signals candles executions) :
    RemovedLast i signals candles executions := by
  obtain ⟨s, c, x, hs, hc, hx, -, -, hmem⟩ := hreports.mem hdigest h
  obtain ⟨ms, hms, honlys⟩ := compareSignals_only hs
  obtain ⟨mc, hmc, honlyc⟩ := compareCandles_only hc
  obtain ⟨mx, hmx, honlyx⟩ := compareExecutions_only hx
  refine ⟨trailing_of_pairPoints hms h.signalTimes h.signals fun y hy => ?_,
    trailing_of_pairPoints hmc h.candleTimes h.candles fun y hy => ?_,
    trailing_of_pairPoints hmx h.executionTimes h.executions fun y hy => ?_⟩
  · rcases mem_missingFindings (hmem _ (Or.inl (Or.inl (honlys y hy)))) with
      ⟨z, hz, hv⟩ | ⟨z, -, hv⟩ | ⟨z, -, hv⟩
    · exact Evidence.signal.inj hv ▸ hz
    · cases hv
    · cases hv
  · rcases mem_missingFindings (hmem _ (Or.inl (Or.inr (honlyc y hy)))) with
      ⟨z, -, hv⟩ | ⟨z, hz, hv⟩ | ⟨z, -, hv⟩
    · cases hv
    · exact Evidence.candle.inj hv ▸ hz
    · cases hv
  · rcases mem_missingFindings (hmem _ (Or.inr (honlyx y hy))) with
      ⟨z, -, hv⟩ | ⟨z, -, hv⟩ | ⟨z, hz, hv⟩
    · cases hv
    · cases hv
    · exact Evidence.execution.inj hv ▸ hz

/-- Missing evidence is reported where it is missing exactly when it is missing at the end of its
pairing key. -/
theorem reportsMissing_iff (digest : FindingPayload → ℕ) (i : ComparisonInput)
    (signals : List SignalPoint) (candles : List CandlePoint) (executions : List ExecutionPoint)
    (hdigest : CollisionFree digest i) (h : Removed i signals candles executions) :
    ReportsMissing digest i signals candles executions ↔
      Sortable i.toEvidenceTuples ∧ RemovedLast i signals candles executions ∧ ReturnsFit i := by
  constructor
  · intro hreports
    obtain ⟨_, _, _, -, -, -, hsort, hreturns, -⟩ := hreports.mem hdigest h
    exact ⟨hsort, hreports.last hdigest h, hreturns⟩
  · rintro ⟨hsort, hlast, hreturns⟩
    exact reportsMissing_of_last hdigest h hsort hlast hreturns

/-! ### A candle missing in the middle -/

def candleAt (t : ℤ) : CandlePoint where
  assetId := 1
  timestamp := t
  «open» := 1
  high := 2
  low := 1
  close := 2
  volume := 3

/-- Two candles, the first of which was not observed. -/
def firstMissing : ComparisonInput :=
  quietHour.withTuples
    { expectedCandles := [candleAt minute, candleAt (2 * minute)]
      observedCandles := [candleAt (2 * minute)] }

/-- The first candle is not reported: it was paired with the second one. -/
theorem firstMissing_misreported :
    firstMissing.Accepted ∧ Removed firstMissing [] [candleAt minute] [] ∧
      ∀ digest, ¬ ReportsMissing digest firstMissing [] [candleAt minute] [] := by
  have hfindings : allFindings firstMissing = .ok
      [finding firstMissing .marketDataTimestampMismatch (some (2 * minute)) (.candle (candleAt minute))
        (.candle (candleAt (2 * minute))) "market_data" "Candle timestamps differ beyond the configured tolerance; this is a data discrepancy, not causal attribution.",
      missingCandle firstMissing (candleAt (2 * minute))] := by rfl
  refine ⟨by decide, ⟨List.Perm.refl _, List.Perm.swap _ _ _, List.Perm.refl _, List.Pairwise.nil,
    by unfold Distinct; decide, List.Pairwise.nil, rfl⟩, ?_⟩
  rintro digest ⟨r, hr, hperm⟩
  simp only [compare, hfindings, bind, Except.bind, pure, Except.pure, Except.ok.injEq] at hr
  have hin : missingCandle firstMissing (candleAt minute) ∈ r.findings :=
    List.mem_of_mem_filter (hperm.mem_iff.mpr List.mem_cons_self)
  rw [← hr] at hin
  have hmem := mem_of_findings hin
  revert hmem
  decide

/-- Two candles, the last of which was not observed. -/
def lastMissing : ComparisonInput :=
  quietHour.withTuples
    { expectedCandles := [candleAt (2 * minute), candleAt minute]
      observedCandles := [candleAt minute] }

theorem lastMissing_reported :
    ReportsMissing timeDigest lastMissing [] [candleAt (2 * minute)] [] := by
  have hfindings : allFindings lastMissing =
      .ok [missingCandle lastMissing (candleAt (2 * minute))] := by decide +kernel
  have hfree : CollisionFree timeDigest lastMissing := by
    intro fs hfs f hf g hg _
    rw [Except.ok.inj (hfs.symm.trans hfindings)] at hf hg
    rw [List.mem_singleton.mp hf, List.mem_singleton.mp hg]
  have hremoved : Removed lastMissing [] [candleAt (2 * minute)] [] :=
    ⟨List.Perm.refl _, List.Perm.swap _ _ _, List.Perm.refl _, List.Pairwise.nil,
      by unfold Distinct; decide, List.Pairwise.nil, rfl⟩
  have hsort : Sortable lastMissing.toEvidenceTuples := by constructor <;> decide
  have hlast : RemovedLast lastMissing [] [candleAt (2 * minute)] [] := by
    constructor <;> unfold Trailing <;> decide
  have hreturns : ReturnsFit lastMissing := (fun e he => by cases he)
  exact (reportsMissing_iff timeDigest lastMissing [] [candleAt (2 * minute)] [] hfree hremoved).mpr
    ⟨hsort, hlast, hreturns⟩

end

end Quantive.Divergence
