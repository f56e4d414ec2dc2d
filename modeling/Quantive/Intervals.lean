import Mathlib.Data.List.Sort
import Mathlib.Data.Prod.Lex
import Mathlib.Order.MinMax

/-!
# Subtraction of intervals

The parts of `[start, stop)` that a collection of half-open intervals leaves uncovered:
the clipped intervals are scanned in order with a cursor that only moves forward.
-/

namespace Quantive
variable {α : Type} [LinearOrder α]

def uncoveredFrom (stop : α) : List (α × α) → α → List (α × α)
  | [], cursor => if cursor < stop then [(cursor, stop)] else []
  | (currentStart, currentEnd) :: rest, cursor =>
    if currentEnd ≤ cursor then uncoveredFrom stop rest cursor
    else
      let found := if cursor < currentStart then [(cursor, currentStart)] else []
      let next := max cursor currentEnd
      if stop ≤ next then found else found ++ uncoveredFrom stop rest next

def clip (start stop : α) (existing : List (α × α)) : List (α × α) :=
  ((existing.filter fun r => r.1 < stop && start < r.2).map fun r =>
    (max start r.1, min stop r.2)).insertionSort fun r s => toLex r ≤ toLex s

def uncoveredIntervals (start stop : α) (existing : List (α × α)) : List (α × α) :=
  uncoveredFrom stop (clip start stop existing) start

theorem mem_clip {start stop : α} {existing : List (α × α)} {r : α × α}
    (h : r ∈ clip start stop existing) :
    ∃ e ∈ existing, e.1 < stop ∧ start < e.2 ∧ r = (max start e.1, min stop e.2) := by
  rw [clip, List.mem_insertionSort] at h
  obtain ⟨e, he, rfl⟩ := List.mem_map.mp h
  obtain ⟨hmem, hmeet⟩ := List.mem_filter.mp he
  simp only [Bool.and_eq_true, decide_eq_true_eq] at hmeet
  exact ⟨e, hmem, hmeet.1, hmeet.2, rfl⟩

/-! ### What the scan finds -/

/-- Every point behind the cursor is in an interval or in an uncovered part. -/
theorem covered_or_uncovered {stop : α} (intervals : List (α × α)) {cursor t : α}
    (hlow : cursor ≤ t) (hhigh : t < stop) :
    (∃ r ∈ intervals, r.1 ≤ t ∧ t < r.2) ∨ ∃ r ∈ uncoveredFrom stop intervals cursor, r.1 ≤ t ∧ t < r.2 := by
  induction intervals generalizing cursor with
  | nil =>
    right
    have hopen : cursor < stop := lt_of_le_of_lt hlow hhigh
    exact ⟨(cursor, stop), by simp [uncoveredFrom, hopen], hlow, hhigh⟩
  | cons r rest ih =>
    obtain ⟨s, e⟩ := r
    unfold uncoveredFrom
    by_cases hskip : e ≤ cursor
    · rw [if_pos hskip]
      rcases ih hlow with ⟨r, hr, hin⟩ | hfound
      · exact Or.inl ⟨r, List.mem_cons_of_mem _ hr, hin⟩
      · exact Or.inr hfound
    · rw [if_neg hskip]
      have hforward : max cursor e = e := max_eq_right (le_of_lt (not_le.mp hskip))
      rw [hforward]
      rcases lt_or_ge t s with hs | hs
      · right
        have hgap : cursor < s := lt_of_le_of_lt hlow hs
        refine ⟨(cursor, s), ?_, hlow, hs⟩
        by_cases hstop : stop ≤ e
        · simp [hgap, hstop]
        · simp [hgap, hstop]
      · rcases lt_or_ge t e with he | he
        · exact Or.inl ⟨(s, e), List.mem_cons_self, hs, he⟩
        · have hgo : ¬ stop ≤ e := fun h => absurd (lt_of_lt_of_le hhigh h) (not_lt.mpr he)
          rcases ih he with ⟨r, hr, hin⟩ | ⟨r, hr, hin⟩
          · exact Or.inl ⟨r, List.mem_cons_of_mem _ hr, hin⟩
          · right
            exact ⟨r, by simp [hgo, hr], hin⟩

/-- The uncovered parts are nonempty, in bounds and behind the cursor. -/
theorem uncoveredFrom_bounds {stop : α} (intervals : List (α × α)) {cursor : α}
    (hstarts : ∀ r ∈ intervals, r.1 < stop) {p : α × α}
    (hp : p ∈ uncoveredFrom stop intervals cursor) : cursor ≤ p.1 ∧ p.1 < p.2 ∧ p.2 ≤ stop := by
  induction intervals generalizing cursor with
  | nil =>
    by_cases hopen : cursor < stop
    · simp only [uncoveredFrom, hopen, if_true, List.mem_singleton] at hp
      subst hp
      exact ⟨le_refl _, hopen, le_refl _⟩
    · simp [uncoveredFrom, hopen] at hp
  | cons r rest ih =>
    obtain ⟨s, e⟩ := r
    have hs : s < stop := hstarts (s, e) List.mem_cons_self
    have hrest : ∀ r ∈ rest, r.1 < stop := fun r hr => hstarts r (List.mem_cons_of_mem _ hr)
    unfold uncoveredFrom at hp
    by_cases hskip : e ≤ cursor
    · rw [if_pos hskip] at hp
      exact ih hrest hp
    · rw [if_neg hskip] at hp
      have hfound : ∀ q ∈ (if cursor < s then [(cursor, s)] else []),
          cursor ≤ q.1 ∧ q.1 < q.2 ∧ q.2 ≤ stop := by
        intro q hq
        by_cases hgap : cursor < s
        · rw [if_pos hgap, List.mem_singleton] at hq
          subst hq
          exact ⟨le_refl _, hgap, le_of_lt hs⟩
        · simp [hgap] at hq
      by_cases hstop : stop ≤ max cursor e
      · rw [if_pos hstop] at hp
        exact hfound p hp
      · rw [if_neg hstop] at hp
        rcases List.mem_append.mp hp with hp | hp
        · exact hfound p hp
        · obtain ⟨hlow, hlt, hhigh⟩ := ih hrest hp
          exact ⟨(le_max_left _ _).trans hlow, hlt, hhigh⟩

/-- The uncovered parts follow each other. -/
theorem uncoveredFrom_pairwise {stop : α} {intervals : List (α × α)} {cursor : α}
    (hstarts : ∀ r ∈ intervals, r.1 < stop) (hlt : ∀ r ∈ intervals, r.1 < r.2) :
    (uncoveredFrom stop intervals cursor).Pairwise fun p q => p.2 ≤ q.1 := by
  induction intervals generalizing cursor with
  | nil =>
    unfold uncoveredFrom
    split
    · exact List.pairwise_singleton _ _
    · exact List.Pairwise.nil
  | cons r rest ih =>
    obtain ⟨s, e⟩ := r
    have hse : s < e := hlt (s, e) List.mem_cons_self
    have hrest : ∀ r ∈ rest, r.1 < stop := fun r hr => hstarts r (List.mem_cons_of_mem _ hr)
    have htail : ∀ c, (uncoveredFrom stop rest c).Pairwise fun p q => p.2 ≤ q.1 := fun c =>
      ih hrest fun r hr => hlt r (List.mem_cons_of_mem _ hr)
    unfold uncoveredFrom
    by_cases hskip : e ≤ cursor
    · rw [if_pos hskip]
      exact htail cursor
    · rw [if_neg hskip]
      have hfound : (if cursor < s then [(cursor, s)] else []).Pairwise
          fun p q : α × α => p.2 ≤ q.1 := by
        split
        · exact List.pairwise_singleton _ _
        · exact List.Pairwise.nil
      by_cases hstop : stop ≤ max cursor e
      · rw [if_pos hstop]
        exact hfound
      · rw [if_neg hstop, List.pairwise_append]
        refine ⟨hfound, htail _, fun p hp q hq => ?_⟩
        have hq' := (uncoveredFrom_bounds rest hrest hq).1
        by_cases hgap : cursor < s
        · rw [if_pos hgap, List.mem_singleton] at hp
          subst hp
          exact hse.le.trans ((le_max_right cursor e).trans hq')
        · simp [hgap] at hp

/-- An uncovered part meets no interval. -/
theorem uncoveredFrom_apart {stop : α} {intervals : List (α × α)} {cursor : α}
    (hstarts : ∀ r ∈ intervals, r.1 < stop) (hlt : ∀ r ∈ intervals, r.1 < r.2)
    (hsorted : intervals.Pairwise fun r s => r.1 ≤ s.1) {p r : α × α}
    (hp : p ∈ uncoveredFrom stop intervals cursor) (hr : r ∈ intervals) :
    r.2 ≤ p.1 ∨ p.2 ≤ r.1 := by
  induction intervals generalizing cursor with
  | nil => cases hr
  | cons x rest ih =>
    obtain ⟨s, e⟩ := x
    have hrest : ∀ r ∈ rest, r.1 < stop := fun r hr => hstarts r (List.mem_cons_of_mem _ hr)
    obtain ⟨hfirst, hsorted⟩ := List.pairwise_cons.mp hsorted
    have htail : ∀ c, p ∈ uncoveredFrom stop rest c → e ≤ c → r.2 ≤ p.1 ∨ p.2 ≤ r.1 := by
      intro c hpc hec
      rcases List.mem_cons.mp hr with rfl | hr
      · exact Or.inl (hec.trans (uncoveredFrom_bounds rest hrest hpc).1)
      · exact ih hrest (fun r hr => hlt r (List.mem_cons_of_mem _ hr)) hsorted hpc hr
    unfold uncoveredFrom at hp
    by_cases hskip : e ≤ cursor
    · rw [if_pos hskip] at hp
      exact htail cursor hp hskip
    · rw [if_neg hskip] at hp
      have hfound : p ∈ (if cursor < s then [(cursor, s)] else []) → p.2 ≤ r.1 := by
        intro hq
        by_cases hgap : cursor < s
        · rw [if_pos hgap, List.mem_singleton] at hq
          subst hq
          rcases List.mem_cons.mp hr with rfl | hr
          · exact le_refl _
          · exact hfirst r hr
        · simp [hgap] at hq
      by_cases hstop : stop ≤ max cursor e
      · rw [if_pos hstop] at hp
        exact Or.inr (hfound hp)
      · rw [if_neg hstop] at hp
        rcases List.mem_append.mp hp with hp | hp
        · exact Or.inr (hfound hp)
        · exact htail _ hp (le_max_right _ _)

/-- Subtraction loses no point. -/
theorem mem_existing_or_uncovered {start stop t : α} (existing : List (α × α)) (hlow : start ≤ t)
    (hhigh : t < stop) :
    (∃ r ∈ existing, r.1 ≤ t ∧ t < r.2) ∨
      ∃ r ∈ uncoveredIntervals start stop existing, r.1 ≤ t ∧ t < r.2 := by
  rcases covered_or_uncovered (clip start stop existing) hlow hhigh with ⟨r, hr, hin⟩ | hfound
  · obtain ⟨e, he, -, -, rfl⟩ := mem_clip hr
    exact Or.inl ⟨e, he, (le_max_right _ _).trans hin.1, lt_of_lt_of_le hin.2 (min_le_right _ _)⟩
  · exact Or.inr hfound

theorem uncoveredIntervals_bounds {start stop : α} {existing : List (α × α)} {p : α × α}
    (hlt : start < stop) (hp : p ∈ uncoveredIntervals start stop existing) :
    start ≤ p.1 ∧ p.1 < p.2 ∧ p.2 ≤ stop := by
  refine uncoveredFrom_bounds _ (fun r hr => ?_) hp
  obtain ⟨e, -, he, -, rfl⟩ := mem_clip hr
  exact max_lt hlt he

theorem clip_bounds {start stop : α} {existing : List (α × α)} (hlt : start < stop)
    (hexisting : ∀ e ∈ existing, e.1 < e.2) {r : α × α} (hr : r ∈ clip start stop existing) :
    r.1 < stop ∧ r.1 < r.2 := by
  obtain ⟨e, he, hstop, hstart, rfl⟩ := mem_clip hr
  have hfirst : max start e.1 < stop := max_lt hlt hstop
  exact ⟨hfirst, lt_min hfirst (max_lt hstart (hexisting e he))⟩

theorem uncoveredIntervals_pairwise {start stop : α} {existing : List (α × α)} (hlt : start < stop)
    (hexisting : ∀ e ∈ existing, e.1 < e.2) :
    (uncoveredIntervals start stop existing).Pairwise fun p q => p.2 ≤ q.1 :=
  uncoveredFrom_pairwise (fun _ hr => (clip_bounds hlt hexisting hr).1)
    fun _ hr => (clip_bounds hlt hexisting hr).2

/-- What subtraction leaves meets none of the existing intervals. -/
theorem uncoveredIntervals_apart {start stop : α} {existing : List (α × α)} (hlt : start < stop)
    (hexisting : ∀ e ∈ existing, e.1 < e.2) {p e : α × α}
    (hp : p ∈ uncoveredIntervals start stop existing) (he : e ∈ existing) :
    e.2 ≤ p.1 ∨ p.2 ≤ e.1 := by
  obtain ⟨hlow, hpart, hhigh⟩ := uncoveredIntervals_bounds hlt hp
  rcases le_or_gt stop e.1 with hafter | hstop
  · exact Or.inr (hhigh.trans hafter)
  rcases le_or_gt e.2 start with hbefore | hstart
  · exact Or.inl (hbefore.trans hlow)
  have hclip : (max start e.1, min stop e.2) ∈ clip start stop existing := by
    rw [clip, List.mem_insertionSort]
    refine List.mem_map.mpr ⟨e, List.mem_filter.mpr ⟨he, ?_⟩, rfl⟩
    simp [hstop, hstart]
  have hsorted : (clip start stop existing).Pairwise fun r s => r.1 ≤ s.1 :=
    (List.pairwise_insertionSort (fun r s : α × α => toLex r ≤ toLex s) _).imp fun h =>
      (Prod.Lex.toLex_le_toLex.mp h).elim le_of_lt fun h => h.1.le
  rcases uncoveredFrom_apart (fun _ hr => (clip_bounds hlt hexisting hr).1)
    (fun _ hr => (clip_bounds hlt hexisting hr).2) hsorted hp hclip with hend | hbegin
  · rcases min_le_iff.mp hend with hstop' | hend
    · exact absurd hpart (not_lt.mpr (hhigh.trans hstop'))
    · exact Or.inl hend
  · rcases le_max_iff.mp hbegin with hstart' | hbegin
    · exact absurd hpart (not_lt.mpr (hstart'.trans hlow))
    · exact Or.inr hbegin

/-- Without existing intervals everything is left. -/
theorem uncoveredIntervals_nil {start stop : α} (hlt : start < stop) :
    uncoveredIntervals start stop [] = [(start, stop)] := by
  simp [uncoveredIntervals, clip, uncoveredFrom, hlt]

/-! ### Tables of intervals -/

/-- Rows with different ids do not overlap. -/
def Separate (table : ℕ → Option (α × α)) : Prop :=
  ∀ i j v w, table i = some v → table j = some w → i ≠ j → v.2 ≤ w.1 ∨ w.2 ≤ v.1

section
variable {β : Type}

/-- The intervals added as rows `n`, `n + 1`, …. -/
def placed (table : ℕ → Option (β × β)) : ℕ → List (β × β) → ℕ → Option (β × β)
  | _, [] => table
  | n, w :: ws => placed (Function.update table n (some w)) (n + 1) ws

theorem placed_eq {table : ℕ → Option (β × β)} {n : ℕ} {ws : List (β × β)}
    (hfresh : ∀ i, n ≤ i → table i = none) (i : ℕ) :
    placed table n ws i = if i < n then table i else ws[i - n]? := by
  induction ws generalizing table n with
  | nil =>
    unfold placed
    split
    · rfl
    · rename_i hge
      exact hfresh i (not_lt.mp hge)
  | cons w ws ih =>
    have hnext : ∀ i, n + 1 ≤ i → Function.update table n (some w) i = none := by
      intro j hj
      have hne : j ≠ n := by omega
      rw [Function.update_of_ne hne]
      exact hfresh j (by omega)
    unfold placed
    rw [ih hnext]
    rcases lt_trichotomy i n with hlt | rfl | hgt
    · have hne : i ≠ n := by omega
      rw [if_pos (by omega), if_pos hlt, Function.update_of_ne hne]
    · rw [if_pos (Nat.lt_succ_self i), if_neg (lt_irrefl i), Function.update_self, Nat.sub_self]
      rfl
    · obtain ⟨k, hk⟩ := Nat.exists_eq_add_of_lt hgt
      rw [if_neg (by omega), if_neg (by omega), hk]
      have hsub : n + k + 1 - n = k + 1 := by omega
      have hsub' : n + k + 1 - (n + 1) = k := by omega
      rw [hsub, hsub', List.getElem?_cons_succ]

end

/-- The rows of `before` are kept, and disjoint rows of `[start, stop)` are added until all of it
is covered. -/
structure Completes (start stop : α) (before after : ℕ → Option (α × α)) : Prop where
  kept : ∀ i w, before i = some w → after i = some w
  created : ∀ i w, before i = none → after i = some w → start ≤ w.1 ∧ w.1 < w.2 ∧ w.2 ≤ stop
  apart : Separate after
  covered : ∀ t, start ≤ t → t < stop → ∃ i w, after i = some w ∧ w.1 ≤ t ∧ t < w.2

theorem Completes.refl {start stop : α} (h : stop ≤ start) {table : ℕ → Option (α × α)}
    (hapart : Separate table) : Completes start stop table table := by
  refine ⟨fun _ _ h => h, fun i w hnone hsome => ?_, hapart, fun t hlow hhigh => ?_⟩
  · rw [hnone] at hsome
    cases hsome
  · exact absurd (lt_of_le_of_lt hlow hhigh) (not_lt.mpr h)

/-- Placing what the rows of a table leave uncovered completes the table. -/
theorem placed_completes {start stop : α} (hlt : start < stop) {table : ℕ → Option (α × α)} {n : ℕ}
    (hfresh : ∀ i, n ≤ i → table i = none) (hvalid : ∀ i w, table i = some w → w.1 < w.2)
    (hapart : Separate table) {existing : List (α × α)}
    (hexisting : ∀ e, e ∈ existing ↔ ∃ i, table i = some e ∧ e.1 < stop ∧ start < e.2) :
    Completes start stop table (placed table n (uncoveredIntervals start stop existing)) := by
  have hordered : ∀ e ∈ existing, e.1 < e.2 := by
    intro e he
    obtain ⟨i, hi, -⟩ := (hexisting e).mp he
    exact hvalid i e hi
  have hrow : ∀ {i w}, placed table n (uncoveredIntervals start stop existing) i = some w →
      i < n ∧ table i = some w ∨ n ≤ i ∧ (uncoveredIntervals start stop existing)[i - n]? = some w := by
    intro i w hw
    rw [placed_eq hfresh] at hw
    split at hw
    · rename_i hold
      exact .inl ⟨hold, hw⟩
    · rename_i hnew
      exact .inr ⟨not_lt.mp hnew, hw⟩
  -- a new row and one that was there
  have hmixed : ∀ {i v w}, table i = some v → w ∈ uncoveredIntervals start stop existing →
      v.2 ≤ w.1 ∨ w.2 ≤ v.1 := by
    intro i v w hv hw
    obtain ⟨hlow, -, hhigh⟩ := uncoveredIntervals_bounds hlt hw
    by_cases hmeets : v.1 < stop ∧ start < v.2
    · exact uncoveredIntervals_apart hlt hordered hw ((hexisting v).mpr ⟨i, hv, hmeets⟩)
    · rcases not_and_or.mp hmeets with hafter | hbefore
      · exact .inr (hhigh.trans (not_lt.mp hafter))
      · exact .inl ((not_lt.mp hbefore).trans hlow)
  constructor
  · intro i w hw
    have hold : i < n := by
      by_contra hge
      rw [hfresh i (not_lt.mp hge)] at hw
      cases hw
    rw [placed_eq hfresh, if_pos hold, hw]
  · intro i w hnone hw
    rcases hrow hw with ⟨-, hold⟩ | ⟨-, hnew⟩
    · rw [hnone] at hold
      cases hold
    · exact uncoveredIntervals_bounds hlt (List.mem_of_getElem? hnew)
  · intro i j v w hv hw hne
    rcases hrow hv with ⟨-, hv⟩ | ⟨hi, hv⟩
    · rcases hrow hw with ⟨-, hw⟩ | ⟨-, hw⟩
      · exact hapart i j v w hv hw hne
      · exact hmixed hv (List.mem_of_getElem? hw)
    · rcases hrow hw with ⟨-, hw⟩ | ⟨hj, hw⟩
      · exact (hmixed hw (List.mem_of_getElem? hv)).symm
      · have hpairs := uncoveredIntervals_pairwise hlt hordered
        obtain ⟨hi', rfl⟩ := List.getElem?_eq_some_iff.mp hv
        obtain ⟨hj', rfl⟩ := List.getElem?_eq_some_iff.mp hw
        rcases lt_trichotomy (i - n) (j - n) with hlt' | heq | hgt
        · exact .inl (List.pairwise_iff_getElem.mp hpairs _ _ hi' hj' hlt')
        · exact absurd (by omega : i = j) hne
        · exact .inr (List.pairwise_iff_getElem.mp hpairs _ _ hj' hi' hgt)
  · intro t hlow hhigh
    rcases mem_existing_or_uncovered existing hlow hhigh with ⟨e, he, hin⟩ | ⟨w, hw, hin⟩
    · obtain ⟨i, hi, -⟩ := (hexisting e).mp he
      have hold : i < n := by
        by_contra hge
        rw [hfresh i (not_lt.mp hge)] at hi
        cases hi
      exact ⟨i, e, by rw [placed_eq hfresh, if_pos hold, hi], hin⟩
    · obtain ⟨k, hk⟩ := List.mem_iff_getElem?.mp hw
      have hge : ¬ n + k < n := by omega
      have hsub : n + k - n = k := by omega
      exact ⟨n + k, w, by rw [placed_eq hfresh, if_neg hge, hsub, hk], hin⟩

end Quantive
