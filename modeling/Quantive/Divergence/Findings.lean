import Quantive.Divergence.Compare

/-!
# What the findings are

The pairing of sorted tuples, the category of each comparator's findings, and the result as a
function of the set of findings.
-/

namespace Quantive.Divergence

open Monitoring (ComparisonStatus DivergenceType)
open PythonTuple (Atom KeyLe KeyComparable)
open KeyedPairing (Matching)

/-! ### Sorting by time and key -/

section
variable {α : Type} {time : α → ℤ} {key : α → List Atom}

theorem lawful_chronological (time : α → ℤ) (key : α → List Atom) :
    RaisingSort.Lawful (fun x y => PythonTuple.keyLt (time x, key x) (time y, key y))
      (fun x y => KeyLe (time x, key x) (time y, key y))
      fun x y => KeyComparable (time x, key x) (time y, key y) :=
  PythonTuple.lawful_keyLt fun x => (time x, key x)

/-- No two records of a tuple agree on the time and differ first in a `None`. -/
def Ordered (time : α → ℤ) (key : α → List Atom) (xs : List α) : Prop :=
  ∀ x ∈ xs, ∀ y ∈ xs, KeyComparable (time x, key x) (time y, key y)

theorem Ordered.mono {xs ys : List α} (h : Ordered time key xs) (hsub : ∀ y ∈ ys, y ∈ xs) :
    Ordered time key ys :=
  fun x hx y hy => h x (hsub x hx) y (hsub y hy)

theorem Ordered.chronological {xs : List α} (h : Ordered time key xs) :
    ∃ r, chronological time key xs = .ok r ∧ r.Perm xs := by
  have hpair := List.pairwise_of_forall_mem_list h
  obtain ⟨r, hr, hperm, -⟩ := (lawful_chronological time key).sorted_ok hpair
  refine ⟨r, ?_, hperm⟩
  simp [Divergence.chronological, hr, Except.mapError]

theorem chronological_ok {xs r : List α} (h : chronological time key xs = .ok r) :
    RaisingSort.sorted (fun x y => PythonTuple.keyLt (time x, key x) (time y, key y)) xs = .ok r := by
  unfold chronological at h
  cases hs : RaisingSort.sorted (fun x y => PythonTuple.keyLt (time x, key x) (time y, key y)) xs with
  | error e => simp [hs, Except.mapError] at h
  | ok s => simpa [hs, Except.mapError] using h

theorem ordered_of_chronological {xs r : List α} (h : chronological time key xs = .ok r) :
    Ordered time key xs := by
  have hpair := (lawful_chronological time key).comparable_of_sorted (chronological_ok h)
  have hrefl : ∀ x ∈ xs, KeyComparable (time x, key x) (time x, key x) :=
    fun x _ _ => PythonTuple.Comparable.refl _
  have hflip : xs.Pairwise fun x y => KeyComparable (time y, key y) (time x, key x) :=
    hpair.imp fun hxy ht => (hxy ht.symm).symm
  intro x hx y hy
  exact List.Pairwise.forall_of_forall_of_flip hrefl hpair hflip hx hy

theorem chronological_spec {xs r : List α} (h : chronological time key xs = .ok r) :
    r.Perm xs ∧ KeyedPairing.InOrder time r := by
  obtain ⟨hperm, hpair⟩ := (lawful_chronological time key).sorted_spec (chronological_ok h)
  exact ⟨hperm, hpair.imp fun hle => hle.time_le⟩

theorem chronological_error {xs : List α} (h : ¬ Ordered time key xs) :
    chronological time key xs = .error .typeError := by
  unfold chronological
  cases hs : RaisingSort.sorted (fun x y => PythonTuple.keyLt (time x, key x) (time y, key y)) xs with
  | error e => rfl
  | ok r =>
    refine absurd (ordered_of_chronological (r := r) ?_) h
    simp [chronological, hs, Except.mapError]

/-- Records that tie in time and key are equal. -/
def TiesEqual (time : α → ℤ) (key : α → List Atom) (xs : List α) : Prop :=
  ∀ x ∈ xs, ∀ y ∈ xs, time x = time y → key x = key y → x = y

theorem chronological_perm {xs ys : List α} (hties : TiesEqual time key xs) (hp : xs.Perm ys) :
    chronological time key xs = chronological time key ys := by
  by_cases hx : Ordered time key xs
  · obtain ⟨r, hr, -⟩ := hx.chronological
    obtain ⟨s, hs, -⟩ := (hx.mono fun y hy => hp.mem_iff.mpr hy).chronological
    have heq : r = s := by
      refine (lawful_chronological time key).sorted_perm hp (fun x hx y hy hxy hyx => ?_)
        (chronological_ok hr) (chronological_ok hs)
      have hkey := hxy.antisymm hyx
      exact hties x hx y hy (congrArg Prod.fst hkey) (congrArg Prod.snd hkey)
    rw [hr, hs, heq]
  · have hy : ¬ Ordered time key ys := fun h => hx (h.mono fun x hx => hp.mem_iff.mp hx)
    rw [chronological_error hx, chronological_error hy]

/-- `_pair_points` depends on the evidence only, not on its order. -/
theorem pairPoints_perm {es es' os os' : List α} (he : TiesEqual time key es)
    (ho : TiesEqual time key os) (hes : es.Perm es') (hos : os.Perm os') :
    pairPoints time key es os = pairPoints time key es' os' := by
  unfold pairPoints
  rw [chronological_perm he hes, chronological_perm ho hos]

/-- `_pair_points` of sortable tuples. -/
theorem pairPoints_ok {es os : List α} (he : Ordered time key es) (ho : Ordered time key os) :
    ∃ m, pairPoints time key es os = .ok m ∧
      ∀ p ∈ m.pairs, p.1 ∈ es ∧ p.2 ∈ os ∧ key p.2 = key p.1 := by
  obtain ⟨r, hr, hrperm⟩ := he.chronological
  obtain ⟨s, hs, hsperm⟩ := ho.chronological
  have hleft : Ordered time key (KeyedPairing.pairUp key r s).observedOnly :=
    ho.mono fun y hy => hsperm.mem_iff.mp (KeyedPairing.observedOnly_mem hy)
  obtain ⟨u, hu, -⟩ := hleft.chronological
  refine ⟨{ KeyedPairing.pairUp key r s with observedOnly := u }, ?_, fun p hp => ?_⟩
  · simp [pairPoints, hr, hs, hu, bind, Except.bind, pure, Except.pure]
  · obtain ⟨h₁, h₂, h₃⟩ := KeyedPairing.pair_mem hp
    exact ⟨hrperm.mem_iff.mp h₁, hsperm.mem_iff.mp h₂, h₃⟩

theorem pairPoints_spec {es os : List α} {m : Matching α} (h : pairPoints time key es os = .ok m) :
    ∃ r s u, chronological time key es = .ok r ∧ chronological time key os = .ok s ∧
      chronological time key (KeyedPairing.pairUp key r s).observedOnly = .ok u ∧
      m = { KeyedPairing.pairUp key r s with observedOnly := u } := by
  unfold pairPoints at h
  cases hs : chronological time key os with
  | error e => simp [hs, bind, Except.bind] at h
  | ok s =>
    cases hr : chronological time key es with
    | error e => simp [hs, hr, bind, Except.bind] at h
    | ok r =>
      cases hu : chronological time key (KeyedPairing.pairUp key r s).observedOnly with
      | error e => simp [hs, hr, hu, bind, Except.bind] at h
      | ok u =>
        refine ⟨r, s, u, rfl, rfl, hu, ?_⟩
        simpa [hs, hr, hu, bind, Except.bind, pure, Except.pure] using h.symm

end

/-! ### The findings of one comparator -/

section
variable (i : ComparisonInput)

/-- What `_finding` gives every finding besides its arguments. -/
structure Issued (category : String) (f : DivergenceFinding) : Prop where
  severity : f.severity = i.policy.severityFor f.divergenceType
  status : f.resolutionStatus = .open
  category : f.category = category

/-- A comparator that returns gives findings of one category. -/
def Yields (category : String) (run : Except Raised (List DivergenceFinding)) : Prop :=
  ∀ fs, run = .ok fs → ∀ f ∈ fs, Issued i category f

variable {i} {category : String}

theorem issued_finding (t : DivergenceType) (time : Option ℤ) (e o : Evidence) (text : String) :
    Issued i category (finding i t time e o category text) :=
  ⟨rfl, rfl, rfl⟩

theorem yields_pure {fs : List DivergenceFinding} (h : ∀ f ∈ fs, Issued i category f) :
    Yields i category (pure fs) := by
  intro gs hgs
  cases hgs
  exact h

theorem yields_bind {α : Type} {x : Except Raised α} {k : α → Except Raised (List DivergenceFinding)}
    (h : ∀ a, x = .ok a → Yields i category (k a)) : Yields i category (x >>= k) := by
  intro fs hfs
  cases hx : x with
  | error e => simp [hx, bind, Except.bind] at hfs
  | ok a => exact h a hx fs (by simpa [hx, bind, Except.bind] using hfs)

theorem mapM_ok_mem {α β ε : Type} {f : α → Except ε β} {xs : List α} {ys : List β}
    (h : xs.mapM f = .ok ys) : ∀ y ∈ ys, ∃ x ∈ xs, f x = .ok y := by
  induction xs generalizing ys with
  | nil =>
    have hnil : ys = [] := (Except.ok.inj h).symm
    simp [hnil]
  | cons x xs ih =>
    rw [List.mapM_cons] at h
    cases hx : f x with
    | error e => simp [hx, bind, Except.bind] at h
    | ok z =>
      cases hrest : xs.mapM f with
      | error e => simp [hx, hrest, bind, Except.bind] at h
      | ok zs =>
        have hys : ys = z :: zs := by
          simpa [hx, hrest, bind, Except.bind, pure, Except.pure] using h.symm
        intro y hy
        rw [hys] at hy
        rcases List.mem_cons.mp hy with rfl | hy
        · exact ⟨x, List.mem_cons_self, hx⟩
        · obtain ⟨x', hx', hfx⟩ := ih hrest y hy
          exact ⟨x', List.mem_cons_of_mem _ hx', hfx⟩

theorem issued_pairs {α : Type} {pair : α × α → Except Raised (List DivergenceFinding)}
    (hpair : ∀ p, Yields i category (pair p)) {ps : List (α × α)} {fss : List (List DivergenceFinding)}
    (h : ps.mapM pair = .ok fss) : ∀ f ∈ fss.flatten, Issued i category f := by
  intro f hf
  obtain ⟨fs, hfs, hf⟩ := List.mem_flatten.mp hf
  obtain ⟨p, -, hp⟩ := mapM_ok_mem h fs hfs
  exact hpair p fs hp f hf

theorem issued_append {fs gs : List DivergenceFinding} (hf : ∀ f ∈ fs, Issued i category f)
    (hg : ∀ f ∈ gs, Issued i category f) : ∀ f ∈ fs ++ gs, Issued i category f := by
  intro f h
  rcases List.mem_append.mp h with h | h
  · exact hf f h
  · exact hg f h

theorem issued_map {α : Type} {xs : List α} {g : α → DivergenceFinding}
    (h : ∀ x, Issued i category (g x)) : ∀ f ∈ xs.map g, Issued i category f := by
  intro f hf
  obtain ⟨x, -, rfl⟩ := List.mem_map.mp hf
  exact h x

theorem issued_flatMap {α : Type} {xs : List α} {g : α → List DivergenceFinding}
    (h : ∀ x, ∀ f ∈ g x, Issued i category f) : ∀ f ∈ xs.flatMap g, Issued i category f := by
  intro f hf
  obtain ⟨x, -, hx⟩ := List.mem_flatMap.mp hf
  exact h x f hx

/-- A finding that is reported under a condition. -/
theorem issued_ite {c : Prop} [Decidable c] (t : DivergenceType) (time : Option ℤ) (e o : Evidence)
    (text : String) :
    ∀ f ∈ (if c then [finding i t time e o category text] else []), Issued i category f := by
  intro f hf
  split at hf
  · rw [List.mem_singleton.mp hf]
    exact issued_finding t time e o text
  · cases hf

theorem issued_unless {c : Prop} [Decidable c] (t : DivergenceType) (time : Option ℤ)
    (e o : Evidence) (text : String) :
    ∀ f ∈ (if c then [] else [finding i t time e o category text]), Issued i category f := by
  intro f hf
  split at hf
  · cases hf
  · rw [List.mem_singleton.mp hf]
    exact issued_finding t time e o text

theorem yields_signals : Yields i "signal" (compareSignals i) := by
  refine yields_bind fun m _ => yields_pure ?_
  refine issued_append (issued_append (issued_flatMap fun p => ?_) (issued_map fun _ => ?_))
    (issued_map fun _ => ?_)
  · exact issued_ite _ _ _ _ _
  · exact issued_finding _ _ _ _ _
  · exact issued_finding _ _ _ _ _

theorem yields_candlePair (p : CandlePoint × CandlePoint) :
    Yields i "market_data" (candlePair i p) := by
  obtain ⟨e, o⟩ := p
  unfold candlePair
  dsimp only
  split
  · exact yields_pure fun f hf => by
      rw [List.mem_singleton.mp hf]
      exact issued_finding _ _ _ _ _
  · refine yields_bind fun price _ => yields_bind fun v _ => yields_pure ?_
    refine issued_append (issued_append ?_ (issued_ite _ _ _ _ _)) (issued_ite _ _ _ _ _)
    split
    · exact issued_ite _ _ _ _ _
    · simp

theorem yields_candles : Yields i "market_data" (compareCandles i) := by
  refine yields_bind fun m _ => yields_bind fun fss hfss => yields_pure ?_
  refine issued_append (issued_append (issued_pairs yields_candlePair hfss) (issued_map fun _ => ?_))
    (issued_map fun _ => ?_)
  · exact issued_finding _ _ _ _ _
  · exact issued_finding _ _ _ _ _

theorem yields_executionPair (p : ExecutionPoint × ExecutionPoint) :
    Yields i "execution" (executionPair i p) := by
  obtain ⟨e, o⟩ := p
  refine yields_bind fun slipped _ => yields_bind fun charged _ => yields_pure ?_
  exact issued_append (issued_append (issued_ite _ _ _ _ _) (issued_ite _ _ _ _ _))
    (issued_ite _ _ _ _ _)

theorem yields_executions : Yields i "execution" (compareExecutions i) := by
  refine yields_bind fun m _ => yields_bind fun fss hfss => yields_pure ?_
  refine issued_append (issued_append (issued_pairs yields_executionPair hfss)
    (issued_map fun _ => ?_)) (issued_map fun _ => ?_)
  · exact issued_finding _ _ _ _ _
  · exact issued_finding _ _ _ _ _

theorem yields_positionPair (p : PositionPoint × PositionPoint) :
    Yields i "position" (positionPair i p) := by
  obtain ⟨e, o⟩ := p
  refine yields_bind fun differs _ => yields_pure ?_
  exact issued_append (issued_ite _ _ _ _ _) (issued_ite _ _ _ _ _)

theorem yields_positions : Yields i "position" (comparePositions i) := by
  refine yields_bind fun m _ => yields_bind fun fss hfss => yields_pure ?_
  refine issued_append (issued_append (issued_pairs yields_positionPair hfss)
    (issued_map fun _ => ?_)) (issued_flatMap fun _ => ?_)
  · exact issued_finding _ _ _ _ _
  · exact issued_ite _ _ _ _ _

theorem yields_metric (field : String) (t : DivergenceType) (tolerance : ℚ)
    (expected observed : Option ℚ) :
    Yields i "performance" (metricDifference i field t tolerance expected observed) :=
  yields_bind fun _ _ => yields_pure (issued_ite _ _ _ _ _)

theorem yields_winRate (e o : PerformancePoint) : Yields i "performance" (winRateDifference i e o) := by
  unfold winRateDifference
  split
  · split
    · exact yields_bind fun _ _ => yields_bind fun _ _ => yields_bind fun _ _ =>
        yields_pure (issued_ite _ _ _ _ _)
    · exact yields_pure fun f hf => by cases hf
  · exact yields_pure fun f hf => by cases hf

theorem issued_tradeCount (e o : PerformancePoint) :
    ∀ f ∈ tradeCountDifference i e o, Issued i "performance" f := by
  unfold tradeCountDifference
  split
  · exact issued_ite _ _ _ _ _
  · simp

theorem yields_performance : Yields i "performance" (comparePerformance i) := by
  have hone : ∀ t time e o text, Yields i "performance"
      (pure [finding i t time e o "performance" text]) := by
    intro t time e o text
    exact yields_pure fun f hf => by
      rw [List.mem_singleton.mp hf]
      exact issued_finding _ _ _ _ _
  unfold comparePerformance
  dsimp only
  split
  · exact yields_pure fun f hf => by cases hf
  · exact hone _ _ _ _ _
  · exact hone _ _ _ _ _
  · refine yields_bind fun a ha => yields_bind fun b hb => yields_bind fun c hc =>
      yields_bind fun d hd => yields_bind fun rate hrate => yields_pure ?_
    have hmetrics := issued_append (issued_append (issued_append (yields_metric _ _ _ _ _ a ha)
      (yields_metric _ _ _ _ _ b hb)) (yields_metric _ _ _ _ _ c hc)) (yields_metric _ _ _ _ _ d hd)
    exact issued_append (issued_append hmetrics (issued_tradeCount _ _)) (yields_winRate _ _ rate hrate)

/-- The findings of a comparison that returns, comparator by comparator. -/
theorem allFindings_parts {fs : List DivergenceFinding} (h : allFindings i = .ok fs) :
    ∃ s c x p m, compareSignals i = .ok s ∧ compareCandles i = .ok c ∧ compareExecutions i = .ok x ∧
      comparePositions i = .ok p ∧ comparePerformance i = .ok m ∧
      fs = identityFindings i ++ i.observedDataIssues.map (issueFinding i) ++ s ++ c ++ x ++ p ++ m := by
  unfold allFindings at h
  cases hs : compareSignals i with
  | error e => simp [hs, bind, Except.bind] at h
  | ok s =>
    cases hc : compareCandles i with
    | error e => simp [hs, hc, bind, Except.bind] at h
    | ok c =>
      cases hx : compareExecutions i with
      | error e => simp [hs, hc, hx, bind, Except.bind] at h
      | ok x =>
        cases hp : comparePositions i with
        | error e => simp [hs, hc, hx, hp, bind, Except.bind] at h
        | ok p =>
          cases hm : comparePerformance i with
          | error e => simp [hs, hc, hx, hp, hm, bind, Except.bind] at h
          | ok m =>
            have hfs : fs = identityFindings i ++ i.observedDataIssues.map (issueFinding i) ++ s ++
                c ++ x ++ p ++ m := by
              simpa [hs, hc, hx, hp, hm, bind, Except.bind, pure, Except.pure] using h.symm
            exact ⟨s, c, x, p, m, rfl, rfl, rfl, rfl, rfl, hfs⟩

/-- The findings that come before the comparators. -/
theorem issued_identity {f : DivergenceFinding} (h : f ∈ identityFindings i) :
    ∃ category ∈ ["coverage", "strategy_identity", "strategy_state"], Issued i category f := by
  unfold identityFindings at h
  simp only [List.mem_append] at h
  rcases h with (h | h) | h
  · exact ⟨"coverage", by simp, issued_unless _ _ _ _ _ f h⟩
  · exact ⟨"strategy_identity", by simp, issued_ite _ _ _ _ _ f h⟩
  · split at h
    · exact ⟨"strategy_state", by simp, issued_ite _ _ _ _ _ f h⟩
    · cases h

/-- Every finding of the list is built by `_finding` for this input. -/
theorem allFindings_issued {fs : List DivergenceFinding} (h : allFindings i = .ok fs) :
    ∀ f ∈ fs, ∃ category, Issued i category f := by
  obtain ⟨s, c, x, p, m, hs, hc, hx, hp, hm, rfl⟩ := allFindings_parts h
  intro f hf
  simp only [List.mem_append] at hf
  rcases hf with (((((h | h) | h) | h) | h) | h) | h
  · obtain ⟨category, -, hissued⟩ := issued_identity h
    exact ⟨category, hissued⟩
  · obtain ⟨issue, -, rfl⟩ := List.mem_map.mp h
    exact ⟨_, issued_finding _ _ _ _ _⟩
  · exact ⟨_, yields_signals s hs f h⟩
  · exact ⟨_, yields_candles c hc f h⟩
  · exact ⟨_, yields_executions x hx f h⟩
  · exact ⟨_, yields_positions p hp f h⟩
  · exact ⟨_, yields_performance m hm f h⟩

end

/-! ### The result -/

section
variable {digest : FindingPayload → ℕ}

/-- Findings with one fingerprint are one finding. -/
def Determined (digest : FindingPayload → ℕ) (fs : List DivergenceFinding) : Prop :=
  ∀ f ∈ fs, ∀ g ∈ fs, f.fingerprint digest = g.fingerprint digest → f = g

/-- No two findings of this comparison share a fingerprint. -/
def CollisionFree (digest : FindingPayload → ℕ) (i : ComparisonInput) : Prop :=
  ∀ fs, allFindings i = .ok fs → ∀ f ∈ fs, ∀ g ∈ fs,
    digest f.toFindingPayload = digest g.toFindingPayload → f.toFindingPayload = g.toFindingPayload

theorem CollisionFree.determined {i : ComparisonInput} (hdigest : CollisionFree digest i)
    {fs : List DivergenceFinding} (hfs : allFindings i = .ok fs) : Determined digest fs := by
  have h := allFindings_issued hfs
  intro f hf g hg heq
  obtain ⟨_, hif⟩ := h f hf
  obtain ⟨_, hig⟩ := h g hg
  have hpayload : f.toFindingPayload = g.toFindingPayload := hdigest fs hfs f hf g hg heq
  obtain ⟨pf, sf, rf⟩ := f
  obtain ⟨pg, sg, rg⟩ := g
  have hsf := hif.severity
  have hsg := hig.severity
  have hrf := hif.status
  have hrg := hig.status
  simp only at hpayload hsf hsg hrf hrg
  subst hpayload
  rw [hsf, hsg, hrf, hrg]

theorem Determined.mem_setItem {f g : DivergenceFinding} {d fs : List DivergenceFinding}
    (h : Determined digest fs) (hf : f ∈ fs) (hd : ∀ x ∈ d, x ∈ fs) :
    g ∈ setItem digest f d ↔ g = f ∨ g ∈ d := by
  induction d with
  | nil => simp [setItem]
  | cons x d ih =>
    have hx : x ∈ fs := hd x List.mem_cons_self
    by_cases heq : x.fingerprint digest = f.fingerprint digest
    · have hxf : x = f := h x hx f hf heq
      subst hxf
      simp [setItem]
    · have hrest := ih fun y hy => hd y (List.mem_cons_of_mem _ hy)
      simp only [setItem, if_neg heq, List.mem_cons, hrest]
      tauto

theorem Determined.nodup_setItem {f : DivergenceFinding} {d fs : List DivergenceFinding}
    (h : Determined digest fs) (hf : f ∈ fs) (hd : ∀ x ∈ d, x ∈ fs) (hnodup : d.Nodup) :
    (setItem digest f d).Nodup := by
  induction d with
  | nil => simp [setItem]
  | cons x d ih =>
    have hx : x ∈ fs := hd x List.mem_cons_self
    have hd' : ∀ y ∈ d, y ∈ fs := fun y hy => hd y (List.mem_cons_of_mem _ hy)
    have hc := List.nodup_cons.mp hnodup
    by_cases heq : x.fingerprint digest = f.fingerprint digest
    · have hxf : x = f := h x hx f hf heq
      simpa [setItem, heq, hxf] using hxf ▸ hc
    · have hne : x ≠ f := fun hxf => heq (congrArg _ hxf)
      have hnot : x ∉ setItem digest f d := by
        rw [h.mem_setItem hf hd']
        exact fun hor => hor.elim hne hc.1
      simpa [setItem, heq, hnot] using ih hd' hc.2

theorem Determined.foldl {fs gs d : List DivergenceFinding} (h : Determined digest fs)
    (hd : ∀ x ∈ d, x ∈ fs) (hnodup : d.Nodup) (hgs : ∀ g ∈ gs, g ∈ fs) :
    (gs.foldl (fun d f => setItem digest f d) d).Nodup ∧
      ∀ x, x ∈ gs.foldl (fun d f => setItem digest f d) d ↔ x ∈ gs ∨ x ∈ d := by
  induction gs generalizing d with
  | nil => exact ⟨hnodup, fun x => by simp⟩
  | cons g gs ih =>
    have hg : g ∈ fs := hgs g List.mem_cons_self
    have hmem : ∀ x, x ∈ setItem digest g d ↔ x = g ∨ x ∈ d := fun x => h.mem_setItem hg hd
    have hin : ∀ x ∈ setItem digest g d, x ∈ fs := by
      intro x hx
      rcases (hmem x).mp hx with rfl | hx
      · exact hg
      · exact hd x hx
    obtain ⟨hnd, hiff⟩ := ih hin (h.nodup_setItem hg hd hnodup)
      fun x hx => hgs x (List.mem_cons_of_mem _ hx)
    refine ⟨hnd, fun x => ?_⟩
    rw [List.foldl_cons, hiff x, hmem x, List.mem_cons]
    tauto

theorem mem_of_setItem {f g : DivergenceFinding} {d : List DivergenceFinding}
    (h : g ∈ setItem digest f d) : g = f ∨ g ∈ d := by
  induction d with
  | nil => simpa [setItem] using h
  | cons x d ih =>
    unfold setItem at h
    split at h
    · rcases List.mem_cons.mp h with rfl | h
      · exact Or.inl rfl
      · exact Or.inr (List.mem_cons_of_mem _ h)
    · rcases List.mem_cons.mp h with rfl | h
      · exact Or.inr List.mem_cons_self
      · exact (ih h).imp_right (List.mem_cons_of_mem _)

/-- Whatever the fingerprints, no finding is made up. -/
theorem mem_of_findings {i : ComparisonInput} {fs : List DivergenceFinding} {f : DivergenceFinding}
    (h : f ∈ (resultOf i digest fs).findings) : f ∈ fs := by
  have hfold : ∀ gs d : List DivergenceFinding, f ∈ gs.foldl (fun d f => setItem digest f d) d →
      f ∈ gs ∨ f ∈ d := by
    intro gs
    induction gs with
    | nil => intro d hd; exact Or.inr hd
    | cons g gs ih =>
      intro d hd
      rcases ih _ hd with hin | hin
      · exact Or.inl (List.mem_cons_of_mem _ hin)
      · rcases mem_of_setItem hin with rfl | hin
        · exact Or.inl List.mem_cons_self
        · exact Or.inr hin
  have hd : f ∈ Divergence.deduped digest fs := (List.perm_insertionSort _ _).mem_iff.mp h
  exact (hfold fs [] hd).resolve_right List.not_mem_nil

theorem Determined.deduped {fs : List DivergenceFinding} (h : Determined digest fs) :
    (deduped digest fs).Nodup ∧ ∀ x, x ∈ deduped digest fs ↔ x ∈ fs := by
  have hnone : ∀ x ∈ ([] : List DivergenceFinding), x ∈ fs := fun x hx => by cases hx
  have hall := h.foldl hnone List.nodup_nil fun g hg => hg
  exact ⟨hall.1, fun x => by simpa [Divergence.deduped] using hall.2 x⟩

theorem Determined.findings {i : ComparisonInput} {fs : List DivergenceFinding}
    (h : Determined digest fs) :
    (resultOf i digest fs).findings.Nodup ∧ ∀ x, x ∈ (resultOf i digest fs).findings ↔ x ∈ fs := by
  have hd := h.deduped
  have hperm := List.perm_insertionSort (fun f g => findingKey i digest f ≤ findingKey i digest g)
    (Divergence.deduped digest fs)
  exact ⟨hperm.nodup_iff.mpr hd.1, fun x => hperm.mem_iff.trans (hd.2 x)⟩

/-- The result depends on which findings there are, not on their order. -/
theorem Determined.resultOf_eq {i j : ComparisonInput} {fs gs : List DivergenceFinding}
    (h : Determined digest fs) (hmem : ∀ x, x ∈ gs ↔ x ∈ fs) (hstart : j.windowStart = i.windowStart) :
    resultOf j digest gs = resultOf i digest fs := by
  have hg : Determined digest gs := fun f hf g hg' => h f ((hmem f).mp hf) g ((hmem g).mp hg')
  have hkey : findingKey j digest = findingKey i digest := by
    funext f
    simp [findingKey, hstart]
  have hperm : (Divergence.deduped digest gs).Perm (Divergence.deduped digest fs) := by
    rw [List.perm_ext_iff_of_nodup hg.deduped.1 h.deduped.1]
    intro x
    rw [hg.deduped.2, h.deduped.2, hmem]
  have htotal : Std.Total fun f g => findingKey i digest f ≤ findingKey i digest g :=
    ⟨fun f g => le_total _ _⟩
  have htrans : IsTrans DivergenceFinding fun f g => findingKey i digest f ≤ findingKey i digest g :=
    ⟨fun f g k => le_trans⟩
  have hsorted : (Divergence.deduped digest gs).insertionSort
        (fun f g => findingKey i digest f ≤ findingKey i digest g) =
      (Divergence.deduped digest fs).insertionSort
        fun f g => findingKey i digest f ≤ findingKey i digest g := by
    refine (((List.perm_insertionSort _ _).trans hperm).trans
      (List.perm_insertionSort _ _).symm).eq_of_pairwise (fun f g hf hg' hfg hgf => ?_)
      (List.pairwise_insertionSort _ _) (List.pairwise_insertionSort _ _)
    have hf' := (List.perm_insertionSort _ _).mem_iff.mp hf
    have hg'' := (List.perm_insertionSort _ _).mem_iff.mp hg'
    have hle := le_antisymm hfg hgf
    have hdigest : f.fingerprint digest = g.fingerprint digest := by
      have hpair := congrArg (fun k => (ofLex (ofLex k).2).2) hle
      exact hpair
    exact h f ((hmem f).mp ((hg.deduped.2 f).mp hf')) g ((h.deduped.2 g).mp hg'') hdigest
  unfold resultOf
  rw [hkey, hsorted]

end

end Quantive.Divergence
