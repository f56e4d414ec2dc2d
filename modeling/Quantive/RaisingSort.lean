import Mathlib.Data.List.Sort

/-!
# Sorting with a comparison that may raise

A stable sort that only asks `lt`. An answer of `lt` may be an exception, which the sort
passes on; whether one is met does not depend on the order of the input.
-/

namespace Quantive.RaisingSort

variable {α ε : Type}

/-- `x` goes behind the elements that are not greater. -/
def insert (lt : α → α → Except ε Bool) (x : α) : List α → Except ε (List α)
  | [] => pure [x]
  | y :: ys => do
    if ← lt x y then pure (x :: y :: ys)
    else
      let rest ← insert lt x ys
      pure (y :: rest)

def insertAll (lt : α → α → Except ε Bool) : List α → List α → Except ε (List α)
  | done, [] => pure done
  | done, x :: xs => do
    let done ← insert lt x done
    insertAll lt done xs

/-- `sorted` -/
def sorted (lt : α → α → Except ε Bool) (xs : List α) : Except ε (List α) := insertAll lt [] xs

/-- `lt` answers for comparable elements only, and then as a total preorder does. Comparability
reaches across everything that lies between two elements. -/
structure Lawful (lt : α → α → Except ε Bool) (le comparable : α → α → Prop) : Prop where
  less : ∀ x y, lt x y = .ok true ↔ comparable x y ∧ ¬ le y x
  notLess : ∀ x y, lt x y = .ok false ↔ comparable x y ∧ le y x
  total : ∀ x y, le x y ∨ le y x
  trans : ∀ x y z, le x y → le y z → le x z
  symm : ∀ x y, comparable x y → comparable y x
  between : ∀ x y z, comparable x y → comparable y z → le x y → le y z → comparable x z

variable {lt : α → α → Except ε Bool} {le comparable : α → α → Prop}

theorem Lawful.answer (h : Lawful lt le comparable) {x y : α} (hc : comparable x y) :
    (lt x y = .ok true ∧ le x y) ∨ (lt x y = .ok false ∧ le y x) := by
  by_cases hle : le y x
  · exact Or.inr ⟨(h.notLess x y).2 ⟨hc, hle⟩, hle⟩
  · have hxy : le x y := (h.total x y).resolve_right hle
    exact Or.inl ⟨(h.less x y).2 ⟨hc, hle⟩, hxy⟩

/-- An insertion among comparable elements succeeds. -/
theorem Lawful.insert_ok (h : Lawful lt le comparable) {x : α} {ys : List α}
    (hsorted : ys.Pairwise le) (hx : ∀ y ∈ ys, comparable x y) :
    ∃ r, insert lt x ys = .ok r ∧ r.Perm (x :: ys) ∧ r.Pairwise le := by
  induction ys with
  | nil => exact ⟨[x], rfl, List.Perm.refl _, List.pairwise_singleton _ _⟩
  | cons y ys ih =>
    have hys := List.pairwise_cons.mp hsorted
    have hc : comparable x y := hx y List.mem_cons_self
    rcases h.answer hc with ⟨hlt, hxy⟩ | ⟨hlt, hyx⟩
    · have hall : ∀ z ∈ y :: ys, le x z := by
        intro z hz
        rcases List.mem_cons.mp hz with rfl | hz
        · exact hxy
        · exact h.trans x y z hxy (hys.1 z hz)
      have hrun : insert lt x (y :: ys) = .ok (x :: y :: ys) := by
        simp [insert, hlt, bind, Except.bind, pure, Except.pure]
      exact ⟨_, hrun, List.Perm.refl _, List.pairwise_cons.mpr ⟨hall, hsorted⟩⟩
    · obtain ⟨r, hr, hperm, hpair⟩ := ih hys.2 fun z hz => hx z (List.mem_cons_of_mem y hz)
      have hrun : insert lt x (y :: ys) = .ok (y :: r) := by
        simp [insert, hlt, hr, bind, Except.bind, pure, Except.pure]
      have hall : ∀ z ∈ r, le y z := by
        intro z hz
        rcases List.mem_cons.mp (hperm.mem_iff.mp hz) with rfl | hz
        · exact hyx
        · exact hys.1 z hz
      exact ⟨_, hrun, (hperm.cons y).trans (List.Perm.swap x y ys),
        List.pairwise_cons.mpr ⟨hall, hpair⟩⟩

/-- An insertion that succeeds compared `x` with every element, or might have. -/
theorem Lawful.comparable_of_insert (h : Lawful lt le comparable) {x : α} {ys r : List α}
    (hsorted : ys.Pairwise le) (hys : ys.Pairwise comparable) (hr : insert lt x ys = .ok r) :
    ∀ y ∈ ys, comparable x y := by
  induction ys generalizing r with
  | nil => intro y hy; cases hy
  | cons y ys ih =>
    have hs := List.pairwise_cons.mp hsorted
    have hc := List.pairwise_cons.mp hys
    intro z hz
    cases hlt : lt x y with
    | error e => simp [insert, hlt, bind, Except.bind] at hr
    | ok b =>
      cases b with
      | true =>
        obtain ⟨hxy, hnot⟩ := (h.less x y).1 hlt
        rcases List.mem_cons.mp hz with rfl | hz
        · exact hxy
        · have hle : le x y := (h.total x y).resolve_right hnot
          exact h.between x y z hxy (hc.1 z hz) hle (hs.1 z hz)
      | false =>
        obtain ⟨hxy, -⟩ := (h.notLess x y).1 hlt
        rcases List.mem_cons.mp hz with rfl | hz
        · exact hxy
        · cases hins : insert lt x ys with
          | error e => simp [insert, hlt, hins, bind, Except.bind] at hr
          | ok r' => exact ih hs.2 hc.2 hins z hz

theorem Lawful.insertAll_ok (h : Lawful lt le comparable) {xs done : List α}
    (hdone : done.Pairwise le) (hall : (done ++ xs).Pairwise comparable) :
    ∃ r, insertAll lt done xs = .ok r ∧ r.Perm (done ++ xs) ∧ r.Pairwise le := by
  induction xs generalizing done with
  | nil => exact ⟨done, rfl, by simp, hdone⟩
  | cons x xs ih =>
    have hsplit := List.pairwise_append.mp hall
    have hx : ∀ y ∈ done, comparable x y := fun y hy =>
      h.symm y x (hsplit.2.2 y hy x List.mem_cons_self)
    obtain ⟨r, hr, hperm, hpair⟩ := h.insert_ok hdone hx
    have hmid : (x :: done ++ xs).Perm (done ++ x :: xs) := List.perm_middle.symm
    have hto : (r ++ xs).Perm (done ++ x :: xs) := (hperm.append_right xs).trans hmid
    have hsymm : ∀ {a b : α}, comparable a b → comparable b a := fun hab => h.symm _ _ hab
    obtain ⟨s, hs, hsperm, hspair⟩ := ih hpair ((hto.pairwise_iff hsymm).mpr hall)
    refine ⟨s, ?_, hsperm.trans hto, hspair⟩
    simpa [insertAll, hr, bind, Except.bind] using hs

theorem Lawful.comparable_of_insertAll (h : Lawful lt le comparable) {xs done r : List α}
    (hdone : done.Pairwise le) (hc : done.Pairwise comparable)
    (hr : insertAll lt done xs = .ok r) : (done ++ xs).Pairwise comparable := by
  induction xs generalizing done with
  | nil => simpa using hc
  | cons x xs ih =>
    cases hins : insert lt x done with
    | error e => simp [insertAll, hins, bind, Except.bind] at hr
    | ok next =>
      have hx := h.comparable_of_insert hdone hc hins
      obtain ⟨r', hr', hperm, hpair⟩ := h.insert_ok hdone hx
      have hnext : next = r' := Except.ok.inj (hins.symm.trans hr')
      have hsymm : ∀ {a b : α}, comparable a b → comparable b a := fun hab => h.symm _ _ hab
      have hcr : next.Pairwise comparable := by
        rw [hnext]
        exact (hperm.pairwise_iff hsymm).mpr (List.pairwise_cons.mpr ⟨hx, hc⟩)
      have hrest : insertAll lt next xs = .ok r := by
        simpa [insertAll, hins, bind, Except.bind] using hr
      have hall := ih (hnext ▸ hpair) hcr hrest
      have hto : (next ++ xs).Perm (done ++ x :: xs) := by
        rw [hnext]
        exact (hperm.append_right xs).trans List.perm_middle.symm
      exact (hto.pairwise_iff hsymm).mp hall

/-- The sort of comparable elements returns them in order. -/
theorem Lawful.sorted_ok (h : Lawful lt le comparable) {xs : List α}
    (hc : xs.Pairwise comparable) : ∃ r, sorted lt xs = .ok r ∧ r.Perm xs ∧ r.Pairwise le :=
  h.insertAll_ok List.Pairwise.nil hc

/-- It returns only when all elements are comparable. -/
theorem Lawful.comparable_of_sorted (h : Lawful lt le comparable) {xs r : List α}
    (hr : sorted lt xs = .ok r) : xs.Pairwise comparable :=
  h.comparable_of_insertAll List.Pairwise.nil List.Pairwise.nil hr

theorem Lawful.sorted_spec (h : Lawful lt le comparable) {xs r : List α}
    (hr : sorted lt xs = .ok r) : r.Perm xs ∧ r.Pairwise le := by
  obtain ⟨s, hs, hperm, hpair⟩ := h.sorted_ok (h.comparable_of_sorted hr)
  have heq : r = s := Except.ok.inj (hr.symm.trans hs)
  rw [heq]
  exact ⟨hperm, hpair⟩

/-- Where tied elements are equal, the order of the input does not matter. -/
theorem Lawful.sorted_perm (h : Lawful lt le comparable) {xs ys r s : List α} (hxy : xs.Perm ys)
    (hties : ∀ x ∈ xs, ∀ y ∈ xs, le x y → le y x → x = y) (hr : sorted lt xs = .ok r)
    (hs : sorted lt ys = .ok s) : r = s := by
  obtain ⟨hrperm, hrpair⟩ := h.sorted_spec hr
  obtain ⟨hsperm, hspair⟩ := h.sorted_spec hs
  have hperm : r.Perm s := (hrperm.trans hxy).trans hsperm.symm
  refine hperm.eq_of_pairwise (fun x y hx hy hle hle' => ?_) hrpair hspair
  have hx' : x ∈ xs := hrperm.mem_iff.mp hx
  have hy' : y ∈ xs := hxy.mem_iff.mpr (hsperm.mem_iff.mp hy)
  exact hties x hx' y hy' hle hle'

end Quantive.RaisingSort
