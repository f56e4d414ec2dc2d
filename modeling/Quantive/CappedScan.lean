import Mathlib.Algebra.BigOperators.Group.List.Basic
import Mathlib.Algebra.GroupWithZero.Nat

/-!
# Scans under a cap

A scan counts a weight for every item it goes through and stops once the count reaches the cap.
`reached` is what it goes through, `tally` what it counted.
-/

namespace Quantive
variable {ι : Type}

def reached (cap : ℕ) (weight : ι → ℕ) : List ι → ℕ → List ι
  | [], _ => []
  | x :: xs, n =>
    if cap ≤ n then [] else x :: reached cap weight xs (n + min (cap - n) (weight x))

def tally (cap : ℕ) (weight : ι → ℕ) : List ι → ℕ → ℕ
  | [], n => n
  | x :: xs, n => if cap ≤ n then n else tally cap weight xs (n + min (cap - n) (weight x))

section
variable {cap n : ℕ} {weight pieces : ι → ℕ} {xs ys : List ι}

theorem reached_full (h : cap ≤ n) (xs : List ι) : reached cap weight xs n = [] := by
  cases xs with
  | nil => rfl
  | cons x xs => exact if_pos h

theorem tally_full (h : cap ≤ n) (xs : List ι) : tally cap weight xs n = n := by
  cases xs with
  | nil => rfl
  | cons x xs => exact if_pos h

theorem tally_append (xs ys : List ι) (n : ℕ) :
    tally cap weight (xs ++ ys) n = tally cap weight ys (tally cap weight xs n) := by
  induction xs generalizing n with
  | nil => rfl
  | cons x xs ih =>
    rw [List.cons_append, tally, tally]
    by_cases h : cap ≤ n
    · rw [if_pos h, if_pos h, tally_full h]
    · rw [if_neg h, if_neg h, ih]

theorem reached_append (xs ys : List ι) (n : ℕ) :
    reached cap weight (xs ++ ys) n =
      reached cap weight xs n ++ reached cap weight ys (tally cap weight xs n) := by
  induction xs generalizing n with
  | nil => rfl
  | cons x xs ih =>
    rw [List.cons_append, reached, reached, tally]
    by_cases h : cap ≤ n
    · rw [if_pos h, if_pos h, if_pos h, reached_full h, List.append_nil]
    · rw [if_neg h, if_neg h, if_neg h, ih, List.cons_append]

theorem reached_sublist : (reached cap weight xs n).Sublist xs := by
  induction xs generalizing n with
  | nil => exact List.Sublist.refl _
  | cons x xs ih =>
    rw [reached]
    split
    · exact List.nil_sublist _
    · exact ih.cons_cons x

/-- A scan that ends below the cap went through everything. -/
theorem reached_all (h : tally cap weight xs n < cap) : reached cap weight xs n = xs := by
  induction xs generalizing n with
  | nil => rfl
  | cons x xs ih =>
    rw [tally] at h
    rw [reached]
    by_cases hfull : cap ≤ n
    · rw [if_pos hfull] at h
      omega
    · rw [if_neg hfull] at h ⊢
      rw [ih h]

/-- What the items come to stays below the cap exactly when it does at every item before which the
weights do. -/
theorem reached_sum_le_iff {m : ℕ} (hm : m ≤ cap) :
    m + ((reached cap weight xs n).map pieces).sum ≤ cap ↔
      ∀ before x after, xs = before ++ x :: after → n + (before.map weight).sum < cap →
        m + (before.map pieces).sum + pieces x ≤ cap := by
  induction xs generalizing n m with
  | nil => simp [reached, hm]
  | cons y ys ih =>
    rw [reached]
    by_cases hfull : cap ≤ n
    · rw [if_pos hfull]
      refine iff_of_true hm fun before x after _ hlt => ?_
      omega
    · rw [if_neg hfull, List.map_cons, List.sum_cons]
      by_cases hfirst : m + pieces y ≤ cap
      · rw [← Nat.add_assoc, ih hfirst]
        constructor
        · intro hrest before x after hsplit hlt
          cases before with
          | nil =>
            obtain ⟨rfl, rfl⟩ := List.cons.inj hsplit
            exact hfirst
          | cons z before =>
            obtain ⟨rfl, rfl⟩ := List.cons.inj hsplit
            rw [List.map_cons, List.sum_cons] at hlt ⊢
            have hnext := hrest before x after rfl (by omega)
            omega
        · intro hall before x after hsplit hlt
          have hnext := hall (y :: before) x after (by rw [hsplit, List.cons_append])
          rw [List.map_cons, List.map_cons, List.sum_cons, List.sum_cons] at hnext
          have hbound := hnext (by omega)
          omega
      · refine iff_of_false (by omega) fun hall => hfirst ?_
        have hhere := hall [] y ys rfl
        simp only [List.map_nil, List.sum_nil, Nat.add_zero] at hhere
        exact hhere (by omega)

end

end Quantive
