import Quantive.Candles.NormalForm

/-!
# Detection of missing intervals

The sweep of `detect_missing_ranges` under its two caps: an interval may be wider than the gap it
stands for, but no minute without coverage is left out.
-/

namespace Quantive.Candles
open Quantive.ReadCommitted Prog

/-- Intervals of the window, in order and at most `maxGaps` of them. -/
structure Listed (start stop : ℤ) (maxGaps : ℕ) (gaps : List (ℤ × ℤ)) : Prop where
  nonempty : ∀ g ∈ gaps, g.1 < g.2
  inside : ∀ g ∈ gaps, start ≤ g.1 ∧ g.2 ≤ stop
  apart : gaps.Pairwise fun g g' => g.2 ≤ g'.1
  few : gaps.length ≤ maxGaps

def Within (t : ℤ) (rs : List (ℤ × ℤ)) : Prop := ∃ r ∈ rs, r.1 ≤ t ∧ t ≤ r.2

/-- Every instant of the window that is not covered is in an interval. -/
def Complete (start stop : ℤ) (covers : ℤ → Prop) (gaps : List (ℤ × ℤ)) : Prop :=
  ∀ t, start ≤ t → t ≤ stop → ¬ covers t → Within t gaps

/-- The state of the sweep: what lies before the pointer is settled. -/
structure Swept (start stop : ℤ) (maxGaps : ℕ) (covers : ℤ → Prop) (gaps : List (ℤ × ℤ))
    (pointer : ℤ) : Prop where
  listed : Listed start stop maxGaps gaps
  behind : ∀ g ∈ gaps, g.2 ≤ pointer
  begun : start ≤ pointer
  reached : pointer = start ∨ covers pointer
  complete : ∀ t, start ≤ t → t < pointer → t ≤ stop → ¬ covers t → Within t gaps

section
variable {start stop : ℤ} {maxGaps : ℕ} {covers : ℤ → Prop} {gaps : List (ℤ × ℤ)} {pointer : ℤ}

theorem Within.append {t : ℤ} {rs : List (ℤ × ℤ)} (h : Within t rs) (more : List (ℤ × ℤ)) :
    Within t (rs ++ more) := by
  obtain ⟨r, hr, hin⟩ := h
  exact ⟨r, List.mem_append_left _ hr, hin⟩

/-- A gap from the pointer on is appended below the cap. -/
theorem Swept.listed_append (h : Swept start stop maxGaps covers gaps pointer)
    (hfew : gaps.length < maxGaps) {last : ℤ} (hlt : pointer < last) (hstop : last ≤ stop) :
    Listed start stop maxGaps (gaps ++ [(pointer, last)]) := by
  constructor
  · intro g hg
    rcases List.mem_append.mp hg with hg | hg
    · exact h.listed.nonempty g hg
    · obtain rfl := List.mem_singleton.mp hg
      exact hlt
  · intro g hg
    rcases List.mem_append.mp hg with hg | hg
    · exact h.listed.inside g hg
    · obtain rfl := List.mem_singleton.mp hg
      exact ⟨h.begun, hstop⟩
  · refine List.pairwise_append.mpr ⟨h.listed.apart, List.pairwise_singleton _ _, fun g hg g' hg' => ?_⟩
    obtain rfl := List.mem_singleton.mp hg'
    exact h.behind g hg
  · rw [List.length_append, List.length_singleton]
    omega

/-- At the cap the last interval reaches to the end of the window. -/
theorem Swept.extendLast (h : Swept start stop maxGaps covers gaps pointer) (hpos : 0 < maxGaps)
    (hcap : maxGaps ≤ gaps.length) :
    Listed start stop maxGaps (scanRanges.extendLast gaps stop) ∧
      Complete start stop covers (scanRanges.extendLast gaps stop) := by
  rcases List.eq_nil_or_concat gaps with rfl | ⟨init, last, rfl⟩
  · rw [List.length_nil] at hcap
    omega
  · have hextend : scanRanges.extendLast (init ++ [last]) stop = init ++ [(last.1, stop)] := by
      unfold scanRanges.extendLast
      rw [List.getLast?_concat, List.dropLast_concat]
    rw [List.concat_eq_append] at h hcap ⊢
    rw [hextend]
    have hlast : last ∈ init ++ [last] := List.mem_append_right _ (List.mem_singleton_self _)
    have hinit : ∀ g ∈ init, g ∈ init ++ [last] := fun g hg => List.mem_append_left _ hg
    obtain ⟨hbegin, hend⟩ := h.listed.inside last hlast
    have hnonempty := h.listed.nonempty last hlast
    obtain ⟨hpairs, -, hbefore⟩ := List.pairwise_append.mp h.listed.apart
    constructor
    · constructor
      · intro g hg
        rcases List.mem_append.mp hg with hg | hg
        · exact h.listed.nonempty g (hinit g hg)
        · obtain rfl := List.mem_singleton.mp hg
          exact lt_of_lt_of_le hnonempty hend
      · intro g hg
        rcases List.mem_append.mp hg with hg | hg
        · exact h.listed.inside g (hinit g hg)
        · obtain rfl := List.mem_singleton.mp hg
          exact ⟨hbegin, le_rfl⟩
      · refine List.pairwise_append.mpr ⟨hpairs, List.pairwise_singleton _ _, fun g hg g' hg' => ?_⟩
        obtain rfl := List.mem_singleton.mp hg'
        exact hbefore g hg last (List.mem_singleton_self _)
      · have hfew := h.listed.few
        rw [List.length_append, List.length_singleton] at hfew ⊢
        exact hfew
    · intro t ht hstop hnot
      have hwide : last.1 ≤ t → Within t (init ++ [(last.1, stop)]) := fun hfrom =>
        ⟨_, List.mem_append_right _ (List.mem_singleton_self _), hfrom, hstop⟩
      rcases lt_or_ge t pointer with hbefore' | hafter
      · obtain ⟨g, hg, hlow, hhigh⟩ := h.complete t ht hbefore' hstop hnot
        rcases List.mem_append.mp hg with hg | hg
        · exact ⟨g, List.mem_append_left _ hg, hlow, hhigh⟩
        · obtain rfl := List.mem_singleton.mp hg
          exact hwide hlow
      · have hreach := h.behind last hlast
        exact hwide (by omega)

theorem extendLast_twice (gaps : List (ℤ × ℤ)) :
    scanRanges.extendLast (scanRanges.extendLast gaps stop) stop = scanRanges.extendLast gaps stop := by
  rcases List.eq_nil_or_concat gaps with rfl | ⟨init, last, rfl⟩
  · rfl
  · unfold scanRanges.extendLast
    simp only [List.concat_eq_append, List.getLast?_concat, List.dropLast_concat]

theorem extendLast_length (gaps : List (ℤ × ℤ)) :
    (scanRanges.extendLast gaps stop).length = gaps.length := by
  rcases List.eq_nil_or_concat gaps with rfl | ⟨init, last, rfl⟩
  · rfl
  · unfold scanRanges.extendLast
    simp only [List.concat_eq_append, List.getLast?_concat, List.dropLast_concat, List.length_append,
      List.length_singleton]

/-- One range takes the pointer past its end. -/
theorem Swept.advance (h : Swept start stop maxGaps covers gaps pointer) {r : ℤ × ℤ}
    (hordered : r.1 ≤ r.2) (hcovers : ∀ t, r.1 ≤ t → t ≤ r.2 → covers t) {gaps' : List (ℤ × ℤ)}
    (hlisted : Listed start stop maxGaps gaps')
    (hgaps : pointer < r.1 ∧ gaps' = gaps ++ [(pointer, r.1)] ∨ r.1 ≤ pointer ∧ gaps' = gaps) :
    Swept start stop maxGaps covers gaps' (max pointer r.2) := by
  have hbegun := h.begun
  refine ⟨hlisted, fun g hg => ?_, by omega, ?_, fun t ht hbefore hstop hnot => ?_⟩
  · rcases hgaps with ⟨-, rfl⟩ | ⟨-, rfl⟩
    · rcases List.mem_append.mp hg with hg | hg
      · have hold := h.behind g hg
        omega
      · obtain rfl := List.mem_singleton.mp hg
        dsimp only
        omega
    · have hold := h.behind g hg
      omega
  · rcases le_total pointer r.2 with hle | hle
    · rw [max_eq_right hle]
      exact .inr (hcovers r.2 hordered le_rfl)
    · rw [max_eq_left hle]
      exact h.reached
  · rcases lt_or_ge t pointer with hold | hnew
    · have hfound := h.complete t ht hold hstop hnot
      rcases hgaps with ⟨-, rfl⟩ | ⟨-, rfl⟩
      · exact hfound.append _
      · exact hfound
    · -- between the pointer and the range
      have hfront : t < r.1 := by
        by_contra hin
        exact hnot (hcovers t (not_lt.mp hin) (by omega))
      rcases hgaps with ⟨-, rfl⟩ | ⟨hle, -⟩
      · exact ⟨_, List.mem_append_right _ (List.mem_singleton_self _), hnew, hfront.le⟩
      · omega

theorem scanRanges_swept (hpos : 0 < maxGaps) {rows : List (ℤ × ℤ)}
    (hrows : ∀ r ∈ rows, r.1 ≤ r.2 ∧ r.1 ≤ stop ∧ ∀ t, r.1 ≤ t → t ≤ r.2 → covers t)
    (h : Swept start stop maxGaps covers gaps pointer) :
    let swept := scanRanges stop maxGaps rows gaps pointer
    Swept start stop maxGaps covers swept.1 swept.2 ∨
      (Listed start stop maxGaps swept.1 ∧ Complete start stop covers swept.1) ∧
        maxGaps ≤ swept.1.length ∧ scanRanges.extendLast swept.1 stop = swept.1 := by
  induction rows generalizing gaps pointer with
  | nil => exact .inl h
  | cons r rows ih =>
    obtain ⟨hordered, hstop, hcovers⟩ := hrows r List.mem_cons_self
    have hrest := fun r hr => hrows r (List.mem_cons_of_mem _ hr)
    unfold scanRanges
    by_cases hgap : pointer < r.1
    · rw [if_pos hgap]
      by_cases hfew : gaps.length < maxGaps
      · rw [if_pos hfew]
        have hnext := h.advance hordered hcovers (h.listed_append hfew hgap hstop) (.inl ⟨hgap, rfl⟩)
        dsimp only
        split
        · exact .inl hnext
        · exact ih hrest hnext
      · rw [if_neg hfew]
        dsimp only
        have hcap : maxGaps ≤ gaps.length := by omega
        refine .inr ⟨h.extendLast hpos hcap, ?_, extendLast_twice gaps⟩
        rw [extendLast_length]
        exact hcap
    · rw [if_neg hgap]
      have hnext := h.advance hordered hcovers h.listed (.inr ⟨not_lt.mp hgap, rfl⟩)
      dsimp only
      split
      · exact .inl hnext
      · exact ih hrest hnext

theorem missingRanges_complete (hlt : start < stop) {maxRanges : ℕ} (hpos : 0 < maxGaps)
    {rows : List (ℤ × ℤ)}
    (hrows : ∀ r ∈ rows, r.1 ≤ r.2 ∧ r.1 ≤ stop ∧ ∀ t, r.1 ≤ t → t ≤ r.2 → covers t) :
    Listed start stop maxGaps (missingRanges rows start stop maxRanges maxGaps) ∧
      Complete start stop covers (missingRanges rows start stop maxRanges maxGaps) := by
  have hstart : Swept start stop maxGaps covers [] start := by
    refine ⟨⟨?_, ?_, List.Pairwise.nil, Nat.zero_le _⟩, ?_, le_rfl, .inl rfl, fun t ht hbefore => ?_⟩
    all_goals first | omega | simp
  have htaken : ∀ r ∈ rows.take maxRanges,
      r.1 ≤ r.2 ∧ r.1 ≤ stop ∧ ∀ t, r.1 ≤ t → t ≤ r.2 → covers t :=
    fun r hr => hrows r (List.mem_of_mem_take hr)
  have hswept := scanRanges_swept hpos htaken hstart
  unfold missingRanges
  generalize scanRanges stop maxGaps (rows.take maxRanges) [] start = swept at hswept ⊢
  obtain ⟨gaps, pointer⟩ := swept
  dsimp only at hswept ⊢
  rcases hswept with h | ⟨hdone, hcap, hextended⟩
  · by_cases hopen : pointer < stop
    · rw [if_pos hopen]
      by_cases hfew : gaps.length < maxGaps
      · rw [if_pos hfew]
        refine ⟨h.listed_append hfew hopen le_rfl, fun t ht hstop hnot => ?_⟩
        rcases lt_or_ge t pointer with hbefore | hafter
        · exact (h.complete t ht hbefore hstop hnot).append _
        · exact ⟨_, List.mem_append_right _ (List.mem_singleton_self _), hafter, hstop⟩
      · rw [if_neg hfew]
        exact h.extendLast hpos (by omega)
    · rw [if_neg hopen]
      refine ⟨h.listed, fun t ht hstop hnot => ?_⟩
      rcases lt_or_ge t pointer with hbefore | hafter
      · exact h.complete t ht hbefore hstop hnot
      · -- the pointer stands on the end of the window, where a range ended
        have hsame : t = pointer := by omega
        rcases h.reached with hnone | hcovers
        · omega
        · exact absurd (hsame ▸ hcovers) hnot
  · rw [if_neg (by omega : ¬ gaps.length < maxGaps), hextended, ite_self]
    exact hdone

/-- An end of the window, or of a range. -/
structure Bounded (start stop : ℤ) (rows : List (ℤ × ℤ)) (g : ℤ × ℤ) : Prop where
  left : g.1 = start ∨ ∃ r ∈ rows, g.1 = r.2
  right : g.2 = stop ∨ ∃ r ∈ rows, g.2 = r.1

theorem bounded_extendLast {rows : List (ℤ × ℤ)} (h : ∀ g ∈ gaps, Bounded start stop rows g) :
    ∀ g ∈ scanRanges.extendLast gaps stop, Bounded start stop rows g := by
  rcases List.eq_nil_or_concat gaps with rfl | ⟨init, last, rfl⟩
  · exact h
  · have hextend : scanRanges.extendLast (init ++ [last]) stop = init ++ [(last.1, stop)] := by
      unfold scanRanges.extendLast
      rw [List.getLast?_concat, List.dropLast_concat]
    rw [List.concat_eq_append] at h ⊢
    rw [hextend]
    intro g hg
    rcases List.mem_append.mp hg with hg | hg
    · exact h g (List.mem_append_left _ hg)
    · obtain rfl := List.mem_singleton.mp hg
      exact ⟨(h last (List.mem_append_right _ (List.mem_singleton_self _))).left, .inl rfl⟩

theorem bounded_append {rows : List (ℤ × ℤ)} (h : ∀ g ∈ gaps, Bounded start stop rows g) {last : ℤ × ℤ}
    (hlast : Bounded start stop rows last) : ∀ g ∈ gaps ++ [last], Bounded start stop rows g := by
  intro g hg
  rcases List.mem_append.mp hg with hg | hg
  · exact h g hg
  · exact List.mem_singleton.mp hg ▸ hlast

theorem scanRanges_bounded {all rows : List (ℤ × ℤ)} (hrows : ∀ r ∈ rows, r ∈ all)
    (hgaps : ∀ g ∈ gaps, Bounded start stop all g) (hpointer : pointer = start ∨ ∃ r ∈ all, pointer = r.2) :
    (∀ g ∈ (scanRanges stop maxGaps rows gaps pointer).1, Bounded start stop all g) ∧
      ((scanRanges stop maxGaps rows gaps pointer).2 = start ∨
        ∃ r ∈ all, (scanRanges stop maxGaps rows gaps pointer).2 = r.2) := by
  induction rows generalizing gaps pointer with
  | nil => exact ⟨hgaps, hpointer⟩
  | cons r rows ih =>
    have hr := hrows r List.mem_cons_self
    have hrest : ∀ r ∈ rows, r ∈ all := fun r hr => hrows r (List.mem_cons_of_mem _ hr)
    have hnext : max pointer r.2 = start ∨ ∃ q ∈ all, max pointer r.2 = q.2 := by
      rcases max_choice pointer r.2 with h | h
      · rwa [h]
      · exact .inr ⟨r, hr, h⟩
    unfold scanRanges
    by_cases hgap : pointer < r.1
    · rw [if_pos hgap]
      by_cases hfew : gaps.length < maxGaps
      · rw [if_pos hfew]
        have hgapEnds : Bounded start stop all (pointer, r.1) := ⟨hpointer, .inr ⟨r, hr, rfl⟩⟩
        have hmore := bounded_append hgaps hgapEnds
        dsimp only
        split
        · exact ⟨hmore, hnext⟩
        · exact ih hrest hmore hnext
      · rw [if_neg hfew]
        exact ⟨bounded_extendLast hgaps, hpointer⟩
    · rw [if_neg hgap]
      dsimp only
      split
      · exact ⟨hgaps, hnext⟩
      · exact ih hrest hgaps hnext

/-- A gap begins and ends with the window or where a range does. -/
theorem missingRanges_bounded (rows : List (ℤ × ℤ)) (maxRanges : ℕ) :
    ∀ g ∈ missingRanges rows start stop maxRanges maxGaps, Bounded start stop rows g := by
  have hbounded := @scanRanges_bounded start stop maxGaps [] start rows (rows.take maxRanges)
    (fun _ => List.mem_of_mem_take) (List.forall_mem_nil _) (.inl rfl)
  unfold missingRanges
  generalize scanRanges stop maxGaps (rows.take maxRanges) [] start = swept at hbounded ⊢
  obtain ⟨gaps, pointer⟩ := swept
  obtain ⟨hgaps, hpointer⟩ := hbounded
  dsimp only
  split
  · split
    · exact bounded_append hgaps ⟨hpointer, .inl rfl⟩
    · exact bounded_extendLast hgaps
  · exact hgaps

/-- One range over the whole window leaves no gap. -/
theorem missingRanges_nil {rows : List (ℤ × ℤ)} {maxRanges : ℕ} (hpos : 0 < maxRanges)
    (hrows : ∀ r ∈ rows, r.1 ≤ start ∧ stop ≤ r.2) (hsome : rows ≠ []) :
    missingRanges rows start stop maxRanges maxGaps = [] := by
  obtain ⟨r, rest, rfl⟩ := List.exists_cons_of_ne_nil hsome
  obtain ⟨hlow, hhigh⟩ := hrows r List.mem_cons_self
  obtain ⟨n, rfl⟩ : ∃ n, maxRanges = n + 1 := ⟨maxRanges - 1, by omega⟩
  unfold missingRanges
  rw [List.take_succ_cons]
  unfold scanRanges
  rw [if_neg (not_lt.mpr hlow)]
  have hreached : stop ≤ max start r.2 := le_max_of_le_right hhigh
  dsimp only
  rw [if_pos hreached]
  exact if_neg (not_lt.mpr hreached)

end

/-- `t` lies in a range of the asset. -/
def Database.Covers (d : Database) (assetId : ℕ) (t : ℤ) : Prop :=
  ∃ r ∈ d.coverage assetId, r.1 ≤ t ∧ t ≤ r.2

theorem mem_rangesIn {d : Database} {assetId : ℕ} {start stop : ℤ} {r : ℤ × ℤ}
    (h : r ∈ d.rangesIn assetId start stop) : r ∈ d.coverage assetId ∧ r.1 ≤ r.2 ∧ r.1 ≤ stop := by
  unfold Database.rangesIn at h
  rw [List.mem_insertionSort] at h
  obtain ⟨e, he, rfl⟩ := List.mem_map.mp h
  obtain ⟨hmem, hmeets⟩ := List.mem_filter.mp he
  simp only [Bool.and_eq_true, decide_eq_true_eq] at hmeets
  exact ⟨⟨e.1, e.2, AList.mem_lookup_iff.mpr hmem, hmeets.1.1, rfl⟩, e.2.ordered, hmeets.2⟩

/-- What is reported as missing is a bounded list of disjoint intervals of the window that leaves
out no instant without coverage; this also holds in whichever order the rows are returned. -/
theorem detectMissingRanges_complete {ans : ℕ → (q : Question) → Answer q}
    (s : Alone Database Write Lock) (limits : DetectionLimits) (assetId : ℕ) {start stop : ℤ}
    (hlt : start < stop) :
    (Yields ans (detectMissingRanges limits assetId start stop) s fun gaps s' => s' = s ∧
      Listed start stop limits.maxGaps gaps ∧ Complete start stop (s.view.Covers assetId) gaps) ∧
    ∀ rows, rows.Perm (s.view.rangesIn assetId start stop) →
      Listed start stop limits.maxGaps
        (missingRanges rows start stop limits.maxRanges limits.maxGaps) ∧
      Complete start stop (s.view.Covers assetId)
        (missingRanges rows start stop limits.maxRanges limits.maxGaps) := by
  have hany : ∀ rows, rows.Perm (s.view.rangesIn assetId start stop) →
      Listed start stop limits.maxGaps
        (missingRanges rows start stop limits.maxRanges limits.maxGaps) ∧
      Complete start stop (s.view.Covers assetId)
        (missingRanges rows start stop limits.maxRanges limits.maxGaps) := by
    intro rows hperm
    refine missingRanges_complete hlt limits.positive.2 fun r hr => ?_
    obtain ⟨hmem, hordered, hstop⟩ := mem_rangesIn (hperm.mem_iff.mp hr)
    exact ⟨hordered, hstop, fun t hlow hhigh => ⟨r, hmem, hlow, hhigh⟩⟩
  refine ⟨?_, hany⟩
  unfold detectMissingRanges
  rw [if_neg (not_le.mpr hlt)]
  exact yields_view (yields_pure ⟨rfl, hany _ (List.Perm.refl _)⟩)

/-- The second and the fourth of five minutes are missing. -/
def fragmented : Database :=
  { syncRanges := ((AList.insert 0 ⟨1, 0, 0, by decide⟩ ∅).insert 1 ⟨1, 2 * minute, 2 * minute, by decide⟩).insert
      2 ⟨1, 4 * minute, 4 * minute, by decide⟩ }

/-- Two rows are read, and one interval is reported for both gaps. -/
theorem detectMissingRanges_capped :
    missingRanges [(0, 0), (2 * minute, 2 * minute), (4 * minute, 4 * minute)] 0 (5 * minute) 2 1 =
      [(0, 5 * minute)] ∧
    Complete 0 (5 * minute) (fragmented.Covers 1) (missingRanges
      [(0, 0), (2 * minute, 2 * minute), (4 * minute, 4 * minute)] 0 (5 * minute) 2 1) := by
  constructor
  · decide
  · exact ((@detectMissingRanges_complete (fun _ => steady 0) { db := fragmented }
      ⟨2, 1, by decide⟩ 1 0 (5 * minute) (by decide)).2 _ (by decide)).2

end Quantive.Candles
