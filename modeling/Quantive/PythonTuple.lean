import Mathlib.Data.Prod.Lex
import Mathlib.Data.String.Basic
import Quantive.RaisingSort

/-!
# Tuples as sort keys

Python compares tuples at the first place where they differ. Two numbers or two strings have
an order; `None` has none, and a number and a string have none.
-/

namespace Quantive.PythonTuple

inductive Atom where
  | none
  | number (n : ℕ)
  | text (s : String)
  deriving DecidableEq, Repr

def Atom.optional : Option String → Atom
  | .none => .none
  | .some s => .text s

theorem Atom.optional_injective : Function.Injective Atom.optional := by
  intro a b h
  cases a <;> cases b <;> simp_all [Atom.optional]

inductive TypeError where
  | notOrdered
  deriving DecidableEq, Repr

def Atom.lt : Atom → Atom → Except TypeError Bool
  | number m, number n => .ok (m < n)
  | text s, text t => .ok (s < t)
  | _, _ => .error .notOrdered

def tupleLt : List Atom → List Atom → Except TypeError Bool
  | [], [] => .ok false
  | [], _ :: _ => .ok true
  | _ :: _, [] => .ok false
  | a :: as, b :: bs => if a = b then tupleLt as bs else a.lt b

/-- The key `(time, tuple)`. -/
def keyLt (x y : ℤ × List Atom) : Except TypeError Bool :=
  if x.1 = y.1 then tupleLt x.2 y.2 else .ok (x.1 < y.1)

def Atom.SameKind : Atom → Atom → Prop
  | number _, number _ => True
  | text _, text _ => True
  | _, _ => False

instance : DecidableRel Atom.SameKind := fun a b => by
  cases a <;> cases b <;> unfold Atom.SameKind <;> infer_instance

/-- The first difference is between two numbers or two strings. -/
def Comparable : List Atom → List Atom → Prop
  | a :: as, b :: bs => if a = b then Comparable as bs else a.SameKind b
  | _, _ => True

/-- An order of all atoms that agrees with Python's where that one answers. -/
def Atom.place : Atom → ℕ ×ₗ ℕ ×ₗ String
  | none => toLex (0, toLex (0, ""))
  | number n => toLex (1, toLex (n, ""))
  | text s => toLex (2, toLex (0, s))

theorem Atom.place_injective : Function.Injective Atom.place := by
  intro a b h
  cases a <;> cases b <;> simp_all [Atom.place]

def TupleLe : List Atom → List Atom → Prop
  | [], _ => True
  | _ :: _, [] => False
  | a :: as, b :: bs => a.place < b.place ∨ a = b ∧ TupleLe as bs

theorem Atom.lt_eq {a b : Atom} (h : a ≠ b) :
    a.lt b = if a.SameKind b then .ok (decide (a.place < b.place)) else .error .notOrdered := by
  cases a <;> cases b <;> simp_all [Atom.lt, Atom.SameKind, Atom.place, Prod.Lex.toLex_lt_toLex]

theorem TupleLe.total (x y : List Atom) : TupleLe x y ∨ TupleLe y x := by
  induction x generalizing y with
  | nil => exact Or.inl trivial
  | cons a as ih =>
    cases y with
    | nil => exact Or.inr trivial
    | cons b bs =>
      rcases lt_trichotomy a.place b.place with h | h | h
      · exact Or.inl (Or.inl h)
      · have hab := Atom.place_injective h
        rcases ih bs with h' | h'
        · exact Or.inl (Or.inr ⟨hab, h'⟩)
        · exact Or.inr (Or.inr ⟨hab.symm, h'⟩)
      · exact Or.inr (Or.inl h)

theorem TupleLe.trans {x y z : List Atom} (hxy : TupleLe x y) (hyz : TupleLe y z) :
    TupleLe x z := by
  induction x generalizing y z with
  | nil => trivial
  | cons a as ih =>
    cases y with
    | nil => exact hxy.elim
    | cons b bs =>
      cases z with
      | nil => exact hyz.elim
      | cons c cs =>
        rcases hxy with hab | ⟨rfl, hxy⟩
        · rcases hyz with hbc | ⟨rfl, -⟩
          · exact Or.inl (lt_trans hab hbc)
          · exact Or.inl hab
        · rcases hyz with hbc | ⟨rfl, hyz⟩
          · exact Or.inl hbc
          · exact Or.inr ⟨rfl, ih hxy hyz⟩

theorem TupleLe.antisymm {x y : List Atom} (hxy : TupleLe x y) (hyx : TupleLe y x) : x = y := by
  induction x generalizing y with
  | nil =>
    cases y with
    | nil => rfl
    | cons b bs => exact hyx.elim
  | cons a as ih =>
    cases y with
    | nil => exact hxy.elim
    | cons b bs =>
      rcases hxy with hab | ⟨rfl, hxy⟩
      · rcases hyx with hba | ⟨rfl, -⟩
        · exact absurd hba (lt_asymm hab)
        · exact absurd hab (lt_irrefl _)
      · rcases hyx with hba | ⟨-, hyx⟩
        · exact absurd hba (lt_irrefl _)
        · rw [ih hxy hyx]

theorem Atom.SameKind.symm {a b : Atom} (h : a.SameKind b) : b.SameKind a := by
  cases a <;> cases b <;> simp_all [Atom.SameKind]

theorem Atom.SameKind.trans {a b c : Atom} (h : a.SameKind b) (h' : b.SameKind c) :
    a.SameKind c := by
  cases a <;> cases b <;> cases c <;> simp_all [Atom.SameKind]

theorem Comparable.refl (x : List Atom) : Comparable x x := by
  induction x with
  | nil => trivial
  | cons a as ih => simpa [Comparable] using ih

theorem Comparable.symm {x y : List Atom} (h : Comparable x y) : Comparable y x := by
  induction x generalizing y with
  | nil => cases y <;> trivial
  | cons a as ih =>
    cases y with
    | nil => trivial
    | cons b bs =>
      by_cases hab : a = b
      · subst hab
        simpa [Comparable] using ih (by simpa [Comparable] using h)
      · have hba : ¬ b = a := fun h' => hab h'.symm
        simp only [Comparable, hab, hba, if_false] at h ⊢
        exact h.symm

theorem Comparable.between {x y z : List Atom} (hxy : Comparable x y) (hyz : Comparable y z)
    (hle : TupleLe x y) (hle' : TupleLe y z) : Comparable x z := by
  induction x generalizing y z with
  | nil => trivial
  | cons a as ih =>
    cases y with
    | nil => exact hle.elim
    | cons b bs =>
      cases z with
      | nil => trivial
      | cons c cs =>
        by_cases hab : a = b
        · subst hab
          by_cases hac : a = c
          · subst hac
            simp only [Comparable, if_true] at hxy hyz ⊢
            have has : TupleLe as bs := (hle.resolve_left (lt_irrefl _)).2
            have hbs : TupleLe bs cs := (hle'.resolve_left (lt_irrefl _)).2
            exact ih hxy hyz has hbs
          · simpa [Comparable, hac] using hyz
        · have hab' : a.SameKind b := by simpa [Comparable, hab] using hxy
          have hlt : a.place < b.place := hle.resolve_right fun h => hab h.1
          have hac : ¬ a = c := by
            rintro rfl
            rcases hle' with h | ⟨h, -⟩
            · exact lt_asymm hlt h
            · exact hab h.symm
          have hkind : a.SameKind c := by
            by_cases hbc : b = c
            · exact hbc ▸ hab'
            · have hbc' : b.SameKind c := by simpa [Comparable, hbc] using hyz
              exact hab'.trans hbc'
          simpa [Comparable, hac] using hkind

theorem tupleLt_eq (x y : List Atom) [Decidable (Comparable x y)] [Decidable (TupleLe y x)] :
    tupleLt x y = if Comparable x y then .ok (decide ¬ TupleLe y x) else .error .notOrdered := by
  classical
  induction x generalizing y with
  | nil => cases y <;> simp [tupleLt, Comparable, TupleLe]
  | cons a as ih =>
    cases y with
    | nil => simp [tupleLt, Comparable, TupleLe]
    | cons b bs =>
      by_cases hab : a = b
      · subst hab
        simp [tupleLt, Comparable, TupleLe, ih bs]
      · have hba : ¬ b = a := fun h => hab h.symm
        have hplace : a.place ≠ b.place := fun h => hab (Atom.place_injective h)
        have hnot : (¬ b.place < a.place) ↔ a.place < b.place := by
          rw [not_lt]
          exact ⟨fun h => lt_of_le_of_ne h hplace, le_of_lt⟩
        simp [tupleLt, Comparable, TupleLe, hab, hba, Atom.lt_eq hab, ← hnot]

/-! ### The keys with a time in front -/

def KeyLe (x y : ℤ × List Atom) : Prop := x.1 < y.1 ∨ x.1 = y.1 ∧ TupleLe x.2 y.2

def KeyComparable (x y : ℤ × List Atom) : Prop := x.1 = y.1 → Comparable x.2 y.2

theorem KeyLe.time_le {x y : ℤ × List Atom} (h : KeyLe x y) : x.1 ≤ y.1 := by
  rcases h with h | h
  · exact le_of_lt h
  · exact le_of_eq h.1

theorem KeyLe.antisymm {x y : ℤ × List Atom} (hxy : KeyLe x y) (hyx : KeyLe y x) : x = y := by
  have ht : x.1 = y.1 := le_antisymm hxy.time_le hyx.time_le
  rcases hxy with h | ⟨-, h⟩
  · omega
  · rcases hyx with h' | ⟨-, h'⟩
    · omega
    · exact Prod.ext ht (h.antisymm h')

/-- The comparison of keys, for any records they are taken from. -/
theorem lawful_keyLt {α : Type} (f : α → ℤ × List Atom) :
    RaisingSort.Lawful (fun x y => keyLt (f x) (f y)) (fun x y => KeyLe (f x) (f y))
      (fun x y => KeyComparable (f x) (f y)) where
  less x y := by
    classical
    by_cases h : (f x).1 = (f y).1
    · by_cases hc : Comparable (f x).2 (f y).2 <;>
        simp [keyLt, KeyComparable, KeyLe, h, tupleLt_eq, hc]
    · have hle : ((f x).1 < (f y).1) ↔ ¬ (f y).1 < (f x).1 := by omega
      simp [keyLt, KeyComparable, KeyLe, h, Ne.symm h, hle]
  notLess x y := by
    classical
    by_cases h : (f x).1 = (f y).1
    · by_cases hc : Comparable (f x).2 (f y).2 <;>
        simp [keyLt, KeyComparable, KeyLe, h, tupleLt_eq, hc]
    · have hle : ((f y).1 ≤ (f x).1) ↔ (f y).1 < (f x).1 := by omega
      simp [keyLt, KeyComparable, KeyLe, h, Ne.symm h, hle]
  total x y := by
    rcases lt_trichotomy (f x).1 (f y).1 with h | h | h
    · exact Or.inl (Or.inl h)
    · exact (TupleLe.total (f x).2 (f y).2).imp (fun hl => Or.inr ⟨h, hl⟩)
        fun hl => Or.inr ⟨h.symm, hl⟩
    · exact Or.inr (Or.inl h)
  trans x y z hxy hyz := by
    rcases hxy with h | ⟨h, hl⟩
    · exact Or.inl (lt_of_lt_of_le h hyz.time_le)
    · rcases hyz with h' | ⟨h', hl'⟩
      · exact Or.inl (h ▸ h')
      · exact Or.inr ⟨h.trans h', hl.trans hl'⟩
  symm x y h ht := (h ht.symm).symm
  between x y z hxy hyz hle hle' ht := by
    have h₁ := hle.time_le
    have h₂ := hle'.time_le
    have hxy' : (f x).1 = (f y).1 := by omega
    have hyz' : (f y).1 = (f z).1 := by omega
    have hl : TupleLe (f x).2 (f y).2 := (hle.resolve_left (by omega)).2
    have hl' : TupleLe (f y).2 (f z).2 := (hle'.resolve_left (by omega)).2
    exact (hxy hxy').between (hyz hyz') hl hl'

end Quantive.PythonTuple
