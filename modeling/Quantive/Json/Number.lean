import Mathlib.Algebra.Order.Ring.Nat
import Mathlib.Data.Nat.Digits.Defs
import Mathlib.Tactic.Ring

/-!
# Numbers as JSON text

A finite float is known by the shortest decimal that reads back as it, which is what `repr`
shows. A number is written as a decimal literal, with a point or an exponent if it is a float; a
column of type `jsonb` keeps the exact decimal of a literal and shows it without an exponent.
-/

namespace Quantive

/-! ### Digits -/

/-- What follows is not part of a run of digits. -/
def NoDigit (cs : List Char) : Prop := ∀ c ∈ cs.head?, c.isDigit = false

theorem digits_append_inj {xs ys cs ds : List Char} (hxs : ∀ c ∈ xs, c.isDigit = true)
    (hys : ∀ c ∈ ys, c.isDigit = true) (hcs : NoDigit cs) (hds : NoDigit ds)
    (h : xs ++ cs = ys ++ ds) : xs = ys ∧ cs = ds := by
  induction xs generalizing ys with
  | nil =>
    cases ys with
    | nil => exact ⟨rfl, h⟩
    | cons y ys =>
      rw [List.nil_append] at h
      subst h
      have hy := hys y List.mem_cons_self
      rw [hcs y rfl] at hy
      cases hy
  | cons x xs ih =>
    cases ys with
    | nil =>
      rw [List.nil_append] at h
      subst h
      have hx := hxs x List.mem_cons_self
      rw [hds x rfl] at hx
      cases hx
    | cons y ys =>
      obtain ⟨rfl, hrest⟩ := List.cons.inj h
      obtain ⟨rfl, hcs⟩ := ih (fun c hc => hxs c (List.mem_cons_of_mem _ hc))
        (fun c hc => hys c (List.mem_cons_of_mem _ hc)) hrest
      exact ⟨rfl, hcs⟩

/-- The digits of a number, with leading zeros up to a width. -/
def paddedDigits (width n : ℕ) : List Char := (Nat.toDigits 10 n).leftpad width '0'

theorem isDigit_padded {width n : ℕ} {c : Char} (h : c ∈ paddedDigits width n) :
    c.isDigit = true := by
  rcases List.mem_append.mp h with h | h
  · rw [List.eq_of_mem_replicate h]
    decide
  · exact Nat.isDigit_of_mem_toDigits (by decide) (by decide) h

theorem ofDigitChars_padded (width n : ℕ) : Nat.ofDigitChars 10 (paddedDigits width n) 0 = n := by
  unfold paddedDigits List.leftpad
  rw [Nat.ofDigitChars_append, Nat.ofDigitChars_replicate_zero]
  simp

theorem length_padded (width n : ℕ) : width ≤ (paddedDigits width n).length := by
  unfold paddedDigits List.leftpad
  rw [List.length_append, List.length_replicate]
  omega

theorem padded_ne_nil (width n : ℕ) : paddedDigits width n ≠ [] := by
  intro h
  exact Nat.toDigits_ne_nil (List.append_eq_nil_iff.mp h).2

/-- The number of digits. -/
def decimalWidth (n : ℕ) : ℕ := (Nat.toDigits 10 n).length

/-! ### Literals -/

/-- The number `coefficient * 10 ^ (exponent - places)`, with `places` digits after the point. -/
structure Literal where
  negative : Bool
  coefficient : ℕ
  places : ℕ
  exponent : Option ℤ
  deriving DecidableEq

namespace Literal

def signText (negative : Bool) : List Char := if negative then ['-'] else []

def exponentText : Option ℤ → List Char
  | none => []
  | some e => 'e' :: (if e < 0 then '-' else '+') :: paddedDigits 2 e.natAbs

def whole (l : Literal) : List Char :=
  let digits := paddedDigits (l.places + 1) l.coefficient
  digits.take (digits.length - l.places)

def fraction (l : Literal) : List Char :=
  let digits := paddedDigits (l.places + 1) l.coefficient
  digits.drop (digits.length - l.places)

def text (l : Literal) : List Char :=
  signText l.negative ++ l.whole ++ (if l.places = 0 then [] else '.' :: l.fraction) ++
    exponentText l.exponent

theorem whole_ne_nil (l : Literal) : l.whole ≠ [] := by
  have hlength := length_padded (l.places + 1) l.coefficient
  intro h
  have hzero := congrArg List.length h
  simp only [whole, List.length_take, List.length_nil] at hzero
  omega

theorem isDigit_whole {l : Literal} {c : Char} (h : c ∈ l.whole) : c.isDigit = true :=
  isDigit_padded (List.mem_of_mem_take h)

theorem isDigit_fraction {l : Literal} {c : Char} (h : c ∈ l.fraction) : c.isDigit = true :=
  isDigit_padded (List.mem_of_mem_drop h)

theorem length_fraction (l : Literal) : l.fraction.length = l.places := by
  have hlength := length_padded (l.places + 1) l.coefficient
  simp only [fraction, List.length_drop]
  omega

theorem ofDigitChars_parts (l : Literal) :
    Nat.ofDigitChars 10 (l.whole ++ l.fraction) 0 = l.coefficient := by
  rw [whole, fraction, List.take_append_drop]
  exact ofDigitChars_padded _ _

theorem fraction_eq_nil {l : Literal} (h : l.places = 0) : l.fraction = [] := by
  rw [← List.length_eq_zero_iff, l.length_fraction, h]

/-- What follows is no part of a number. -/
def Ends (cs : List Char) : Prop := ∀ c ∈ cs.head?, c.isDigit = false ∧ c ≠ '.' ∧ c ≠ 'e'

theorem exponentText_inj {e e' : Option ℤ} {cs ds : List Char} (hcs : Ends cs) (hds : Ends ds)
    (h : exponentText e ++ cs = exponentText e' ++ ds) : e = e' ∧ cs = ds := by
  have hnone : ∀ (e : ℤ) (cs ds : List Char), Ends cs → cs ≠ exponentText (some e) ++ ds := by
    intro e cs ds hends heq
    subst heq
    exact (hends 'e' rfl).2.2 rfl
  cases e with
  | none =>
    cases e' with
    | none => exact ⟨rfl, h⟩
    | some e' => exact (hnone e' cs ds hcs h).elim
  | some e =>
    cases e' with
    | none => exact (hnone e ds cs hds h.symm).elim
    | some e' =>
      simp only [exponentText, List.cons_append, List.cons.injEq, true_and] at h
      obtain ⟨hsign, hdigits⟩ := h
      obtain ⟨hdigits, hrest⟩ := digits_append_inj (fun c => isDigit_padded)
        (fun c => isDigit_padded) (fun c hc => (hcs c hc).1) (fun c hc => (hds c hc).1) hdigits
      have habs := congrArg (Nat.ofDigitChars 10 · 0) hdigits
      simp only [ofDigitChars_padded] at habs
      refine ⟨congrArg some ?_, hrest⟩
      by_cases he : e < 0 <;> by_cases he' : e' < 0 <;> simp [he, he'] at hsign <;> omega

/-- The text of a literal tells the literal, and where it ends. -/
theorem text_inj {l l' : Literal} {cs ds : List Char} (hcs : Ends cs) (hds : Ends ds)
    (h : l.text ++ cs = l'.text ++ ds) : l = l' ∧ cs = ds := by
  have hfirst : ∀ (l : Literal) (rest : List Char), ∃ c tail,
      l.whole ++ rest = c :: tail ∧ c.isDigit = true := by
    intro l rest
    cases hwhole : l.whole with
    | nil => exact (l.whole_ne_nil hwhole).elim
    | cons c tail => exact ⟨c, tail ++ rest, rfl, isDigit_whole (hwhole ▸ List.mem_cons_self)⟩
  -- the parts after the sign
  let tail (l : Literal) (cs : List Char) : List Char :=
    (if l.places = 0 then [] else '.' :: l.fraction) ++ (exponentText l.exponent ++ cs)
  have htext : ∀ (l : Literal) (cs : List Char),
      l.text ++ cs = signText l.negative ++ (l.whole ++ tail l cs) := by
    intro l cs
    simp only [text, tail, List.append_assoc]
  have htail : ∀ (l : Literal) (cs : List Char), Ends cs → NoDigit (tail l cs) := by
    intro l cs hends c hc
    by_cases hplaces : l.places = 0
    · cases hexponent : l.exponent with
      | none =>
        simp only [tail, hplaces, hexponent, exponentText, if_true, List.nil_append] at hc
        exact (hends c hc).1
      | some e =>
        simp only [tail, hplaces, hexponent, exponentText, if_true, List.nil_append,
          List.cons_append, List.head?_cons, Option.mem_def, Option.some.injEq] at hc
        rw [← hc]
        decide
    · simp only [tail, hplaces, if_false, List.cons_append, List.head?_cons, Option.mem_def,
        Option.some.injEq] at hc
      rw [← hc]
      decide
  rw [htext, htext] at h
  have hsign : l.negative = l'.negative ∧ l.whole ++ tail l cs = l'.whole ++ tail l' ds := by
    obtain ⟨c, t, heq, hc⟩ := hfirst l (tail l cs)
    obtain ⟨c', t', heq', hc'⟩ := hfirst l' (tail l' ds)
    have hminus : ('-').isDigit = false := by decide
    rw [heq, heq'] at h ⊢
    cases hn : l.negative <;> cases hn' : l'.negative <;>
      simp only [hn, hn', signText, if_true, List.nil_append, List.cons_append, List.cons.injEq,
        true_and, Bool.false_eq_true, if_false] at h ⊢
    · exact h
    · rw [h.1, hminus] at hc
      cases hc
    · rw [← h.1, hminus] at hc'
      cases hc'
    · exact h
  obtain ⟨hnegative, hrest⟩ := hsign
  obtain ⟨hwhole, hrest⟩ := digits_append_inj (fun c => isDigit_whole) (fun c => isDigit_whole)
    (htail l cs hcs) (htail l' ds hds) hrest
  have hexponentHead : ∀ (e : Option ℤ) (cs : List Char), Ends cs →
      NoDigit (exponentText e ++ cs) ∧ ∀ c ∈ (exponentText e ++ cs).head?, c ≠ '.' := by
    intro e cs hends
    cases e with
    | none => exact ⟨fun c hc => (hends c hc).1, fun c hc => (hends c hc).2.1⟩
    | some e =>
      constructor <;> intro c hc <;>
        simp only [exponentText, List.cons_append, List.head?_cons, Option.mem_def,
          Option.some.injEq] at hc <;> rw [← hc] <;> decide
  have hparts : l.places = l'.places ∧ l.fraction = l'.fraction ∧
      exponentText l.exponent ++ cs = exponentText l'.exponent ++ ds := by
    by_cases hplaces : l.places = 0 <;> by_cases hplaces' : l'.places = 0 <;>
      simp only [tail, hplaces, hplaces', if_true, if_false, List.nil_append, List.cons_append,
        List.cons.injEq, true_and] at hrest
    · exact ⟨by omega, by rw [fraction_eq_nil hplaces, fraction_eq_nil hplaces'], hrest⟩
    · have hhead := (hexponentHead l.exponent cs hcs).2 '.' (by rw [hrest]; rfl)
      exact (hhead rfl).elim
    · have hhead := (hexponentHead l'.exponent ds hds).2 '.' (by rw [← hrest]; rfl)
      exact (hhead rfl).elim
    · obtain ⟨hfraction, hrest⟩ := digits_append_inj (fun c => isDigit_fraction)
        (fun c => isDigit_fraction) (hexponentHead l.exponent cs hcs).1
        (hexponentHead l'.exponent ds hds).1 hrest
      have hlength := congrArg List.length hfraction
      rw [l.length_fraction, l'.length_fraction] at hlength
      exact ⟨hlength, hfraction, hrest⟩
  obtain ⟨hplaces, hfraction, hrest⟩ := hparts
  obtain ⟨hexponent, hrest⟩ := exponentText_inj hcs hds hrest
  have hcoefficient := l.ofDigitChars_parts
  rw [hwhole, hfraction, l'.ofDigitChars_parts] at hcoefficient
  refine ⟨?_, hrest⟩
  cases l
  cases l'
  simp_all

end Literal

/-! ### Numbers -/

/-- A finite float: `digits * 10 ^ exponent` is the shortest decimal that reads back as it. That
seventeen digits are enough for every float is not used. -/
structure PyFloat where
  negative : Bool
  digits : ℕ
  exponent : ℤ
  normal : digits % 10 ≠ 0 ∨ digits = 0 ∧ exponent = 0
  deriving DecidableEq

namespace PyFloat

/-- The place of the decimal point: the float is below `10 ^ point` in size. -/
def point (f : PyFloat) : ℤ := decimalWidth f.digits + f.exponent

/-- `float.__repr__` -/
def repr (f : PyFloat) : Literal :=
  if f.digits = 0 then ⟨f.negative, 0, 1, none⟩
  else if -4 < f.point ∧ f.point ≤ 16 then
    if f.exponent < 0 then ⟨f.negative, f.digits, f.exponent.natAbs, none⟩
    else ⟨f.negative, f.digits * 10 ^ (f.exponent.toNat + 1), 1, none⟩
  else ⟨f.negative, f.digits, decimalWidth f.digits - 1, some (f.point - 1)⟩

/-- Python's `==` on floats. -/
def eq (f g : PyFloat) : Bool :=
  f.digits = g.digits && f.exponent = g.exponent && (f.negative = g.negative || f.digits = 0)

end PyFloat

inductive Number where
  | int (z : ℤ)
  | float (f : PyFloat)
  deriving DecidableEq

/-- `json.dumps` of a number. -/
def Number.literal : Number → Literal
  | int z => ⟨z < 0, z.natAbs, 0, none⟩
  | float f => f.repr

section
variable {f g : PyFloat}

theorem eq_of_mul_pow {m n a b : ℕ} (hm : m % 10 ≠ 0) (hn : n % 10 ≠ 0)
    (h : m * 10 ^ a = n * 10 ^ b) : m = n ∧ a = b := by
  have hdvd : ∀ {k c : ℕ}, k * 10 ^ (c + 1) = k * 10 ^ c * 10 := by
    intro k c
    rw [pow_succ, Nat.mul_assoc]
  induction a generalizing b with
  | zero =>
    cases b with
    | zero => exact ⟨by simpa using h, rfl⟩
    | succ b =>
      rw [hdvd] at h
      omega
  | succ a ih =>
    cases b with
    | zero =>
      rw [hdvd] at h
      omega
    | succ b =>
      rw [hdvd, hdvd] at h
      obtain ⟨hmn, hab⟩ := ih (Nat.eq_of_mul_eq_mul_right (by decide) h)
      exact ⟨hmn, congrArg (· + 1) hab⟩

theorem PyFloat.digits_mod (h : f.digits ≠ 0) : f.digits % 10 ≠ 0 := by
  rcases f.normal with hnormal | hzero
  · exact hnormal
  · exact (h hzero.1).elim

theorem PyFloat.ext_of (hn : f.negative = g.negative) (hd : f.digits = g.digits)
    (he : f.exponent = g.exponent) : f = g := by
  cases f
  cases g
  simp_all

theorem decimalWidth_pos (n : ℕ) : 0 < decimalWidth n := Nat.length_toDigits_pos

/-- The kinds of a float's text. -/
theorem PyFloat.repr_cases (f : PyFloat) :
    (f.digits = 0 ∧ f.exponent = 0 ∧ f.repr = ⟨f.negative, 0, 1, none⟩) ∨
    (f.digits ≠ 0 ∧ f.exponent < 0 ∧ f.point ≤ 16 ∧
      f.repr = ⟨f.negative, f.digits, f.exponent.natAbs, none⟩) ∨
    (f.digits ≠ 0 ∧ 0 ≤ f.exponent ∧ f.point ≤ 16 ∧
      f.repr = ⟨f.negative, f.digits * 10 ^ (f.exponent.toNat + 1), 1, none⟩) ∨
    (f.digits ≠ 0 ∧ (f.point ≤ -4 ∨ 16 < f.point) ∧
      f.repr = ⟨f.negative, f.digits, decimalWidth f.digits - 1, some (f.point - 1)⟩) := by
  by_cases hzero : f.digits = 0
  · refine Or.inl ⟨hzero, ?_, if_pos hzero⟩
    rcases f.normal with hnormal | hnormal
    · rw [hzero] at hnormal
      exact (hnormal rfl).elim
    · exact hnormal.2
  · by_cases hpoint : -4 < f.point ∧ f.point ≤ 16
    · have hrepr : f.repr = if f.exponent < 0 then ⟨f.negative, f.digits, f.exponent.natAbs, none⟩
          else ⟨f.negative, f.digits * 10 ^ (f.exponent.toNat + 1), 1, none⟩ := by
        rw [PyFloat.repr, if_neg hzero, if_pos hpoint]
      by_cases he : f.exponent < 0
      · exact Or.inr (Or.inl ⟨hzero, he, hpoint.2, hrepr.trans (if_pos he)⟩)
      · exact Or.inr (Or.inr (Or.inl ⟨hzero, by omega, hpoint.2, hrepr.trans (if_neg he)⟩))
    · refine Or.inr (Or.inr (Or.inr ⟨hzero, by omega, ?_⟩))
      rw [PyFloat.repr, if_neg hzero, if_neg hpoint]

theorem mul_pow_mod (n k : ℕ) : n * 10 ^ (k + 1) % 10 = 0 := by
  rw [pow_succ, ← Nat.mul_assoc]
  exact Nat.mul_mod_left _ _

/-- The shortest decimals of two floats are different. -/
theorem PyFloat.repr_inj (h : f.repr = g.repr) : f = g := by
  have hne : ∀ {n k : ℕ}, n ≠ 0 → n * 10 ^ k ≠ 0 := fun hn =>
    Nat.mul_ne_zero hn (Nat.pow_pos (by decide)).ne'
  rcases f.repr_cases with ⟨hf, hfe, hrf⟩ | ⟨hf, hfe, _, hrf⟩ | ⟨hf, hfe, _, hrf⟩ | ⟨hf, hfp, hrf⟩ <;>
    rcases g.repr_cases with ⟨hg, hge, hrg⟩ | ⟨hg, hge, _, hrg⟩ | ⟨hg, hge, _, hrg⟩ | ⟨hg, hgp, hrg⟩ <;>
    rw [hrf, hrg, Literal.mk.injEq] at h
  · exact ext_of h.1 (hf.trans hg.symm) (hfe.trans hge.symm)
  · exact (hg h.2.1.symm).elim
  · exact (hne hg h.2.1.symm).elim
  · cases h.2.2.2
  · exact (hf h.2.1).elim
  · exact ext_of h.1 h.2.1 (by omega)
  · have hmod := mul_pow_mod g.digits g.exponent.toNat
    rw [← h.2.1] at hmod
    exact (digits_mod hf hmod).elim
  · cases h.2.2.2
  · exact (hne hf h.2.1).elim
  · have hmod := mul_pow_mod f.digits f.exponent.toNat
    rw [h.2.1] at hmod
    exact (digits_mod hg hmod).elim
  · obtain ⟨hdigits, hexponent⟩ := eq_of_mul_pow (digits_mod hf) (digits_mod hg) h.2.1
    exact ext_of h.1 hdigits (by omega)
  · cases h.2.2.2
  · cases h.2.2.2
  · cases h.2.2.2
  · cases h.2.2.2
  · have hpoint : f.point = g.point := by
      have hexponent := Option.some.inj h.2.2.2
      omega
    unfold PyFloat.point at hpoint
    rw [h.2.1] at hpoint
    exact ext_of h.1 h.2.1 (by omega)

/-- A float is written with a point or an exponent. -/
theorem PyFloat.repr_marked (f : PyFloat) : f.repr.places ≠ 0 ∨ f.repr.exponent ≠ none := by
  rcases f.repr_cases with ⟨_, _, h⟩ | ⟨_, he, _, h⟩ | ⟨_, _, _, h⟩ | ⟨_, _, h⟩ <;> rw [h]
  · exact Or.inl (by simp)
  · exact Or.inl (by simp only [ne_eq, Int.natAbs_eq_zero]; omega)
  · exact Or.inl (by simp)
  · exact Or.inr (by simp)

theorem Number.literal_inj {m n : Number} (h : m.literal = n.literal) : m = n := by
  cases m with
  | int z =>
    cases n with
    | int z' =>
      simp only [Number.literal, Literal.mk.injEq, decide_eq_decide] at h
      exact congrArg Number.int (by omega)
    | float f =>
      have hmarked := f.repr_marked
      rw [show f.repr = _ from h.symm] at hmarked
      simp [Number.literal] at hmarked
  | float f =>
    cases n with
    | int z =>
      have hmarked := f.repr_marked
      rw [show f.repr = _ from h] at hmarked
      simp [Number.literal] at hmarked
    | float g => exact congrArg Number.float (PyFloat.repr_inj h)

end

/-! ### Numbers in a `jsonb` column -/

/-- The text of a `jsonb` number: the exact decimal, with the places that the literal had. -/
def Literal.numeric (l : Literal) : Literal :=
  let shift : ℤ := l.places - l.exponent.getD 0
  ⟨l.negative && l.coefficient ≠ 0, l.coefficient * 10 ^ (-shift).toNat, shift.toNat, none⟩

/-- A factor `10 ^ k` of a coefficient goes to its exponent. -/
def stripZeros : ℕ → ℕ → ℤ → ℕ × ℤ
  | 0, c, e => (c, e)
  | fuel + 1, c, e => if c % 10 = 0 then stripZeros fuel (c / 10) (e + 1) else (c, e)

theorem stripZeros_mul_pow {m k fuel : ℕ} (hm : m % 10 ≠ 0) (hk : k < fuel) (e : ℤ) :
    stripZeros fuel (m * 10 ^ k) e = (m, e + k) := by
  induction k generalizing fuel e with
  | zero =>
    cases fuel with
    | zero => omega
    | succ fuel =>
      rw [pow_zero, Nat.mul_one, stripZeros, if_neg hm]
      simp
  | succ k ih =>
    cases fuel with
    | zero => omega
    | succ fuel =>
      have hdiv : m * 10 ^ (k + 1) / 10 = m * 10 ^ k := by
        rw [pow_succ, ← Nat.mul_assoc, Nat.mul_div_cancel _ (by decide)]
      rw [stripZeros, if_pos (mul_pow_mod m k), hdiv, ih (by omega)]
      push_cast
      rw [add_assoc, add_comm 1]

theorem stripZeros_mod {fuel c : ℕ} (hc : c ≠ 0) (hfuel : c < 10 ^ fuel) (e : ℤ) :
    (stripZeros fuel c e).1 % 10 ≠ 0 := by
  induction fuel generalizing c e with
  | zero => simp at hfuel; omega
  | succ fuel ih =>
    unfold stripZeros
    split
    · rw [pow_succ] at hfuel
      exact ih (by omega) (by omega) _
    · assumption

theorem PyFloat.zero_normal : 0 % 10 ≠ 0 ∨ 0 = 0 ∧ (0 : ℤ) = 0 := Or.inr ⟨rfl, rfl⟩

/-- `float` of a decimal, as far as the decimal is the one that `repr` shows. -/
def PyFloat.ofDecimal (negative : Bool) (c : ℕ) (e : ℤ) : PyFloat :=
  if h : c = 0 then ⟨negative, 0, 0, PyFloat.zero_normal⟩
  else ⟨negative, (stripZeros c c e).1, (stripZeros c c e).2,
    Or.inl (stripZeros_mod h (Nat.lt_pow_self (by decide)) e)⟩

theorem PyFloat.ofDecimal_mul_pow {f : PyFloat} (h : f.digits ≠ 0) {k : ℕ} {e : ℤ}
    (he : f.exponent = e + k) :
    PyFloat.ofDecimal f.negative (f.digits * 10 ^ k) e = f := by
  have hpos : f.digits * 10 ^ k ≠ 0 := Nat.mul_ne_zero h (Nat.pow_pos (by decide)).ne'
  have hfuel : k < f.digits * 10 ^ k := by
    have hpow : k < 10 ^ k := Nat.lt_pow_self (by decide)
    have hle : 10 ^ k ≤ f.digits * 10 ^ k := Nat.le_mul_of_pos_left _ (by omega)
    omega
  have hstrip := stripZeros_mul_pow (digits_mod h) hfuel e
  unfold PyFloat.ofDecimal
  rw [dif_neg hpos]
  exact ext_of rfl (congrArg Prod.fst hstrip) ((congrArg Prod.snd hstrip).trans he.symm)

/-- `json.loads` of a number: an int without point and exponent, a float otherwise. -/
def Literal.read (l : Literal) : Number :=
  if l.places = 0 ∧ l.exponent = none then .int (if l.negative then -l.coefficient else l.coefficient)
  else .float (PyFloat.ofDecimal l.negative l.coefficient (l.exponent.getD 0 - l.places))

/-- A number that was stored and read again. -/
def Number.reread (n : Number) : Number := n.literal.numeric.read

theorem reread_int (z : ℤ) : (Number.int z).reread = .int z := by
  have hread : (Number.int z).literal.numeric =
      ⟨decide (z < 0) && z.natAbs ≠ 0, z.natAbs, 0, none⟩ := by
    simp [Number.literal, Literal.numeric]
  rw [Number.reread, hread, Literal.read, if_pos ⟨rfl, rfl⟩]
  refine congrArg Number.int ?_
  by_cases hz : z < 0
  · have hne : z.natAbs ≠ 0 := by omega
    simp only [hz, hne, decide_true, ne_eq, not_false_eq_true, Bool.and_self, if_true]
    omega
  · simp only [hz, decide_false, Bool.false_and, Bool.false_eq_true, if_false]
    omega

namespace PyFloat
variable {f : PyFloat}

/-- The column shows the float without a point: `|f| ≥ 10 ^ 16`. -/
def Large (f : PyFloat) : Prop := f.digits ≠ 0 ∧ 16 < f.point ∧ 0 ≤ f.exponent

def NegativeZero (f : PyFloat) : Prop := f.negative = true ∧ f.digits = 0

instance (f : PyFloat) : Decidable f.Large := inferInstanceAs (Decidable (_ ∧ _ ∧ _))
instance (f : PyFloat) : Decidable f.NegativeZero := inferInstanceAs (Decidable (_ ∧ _))

/-- The column has no negative zero. -/
theorem reread_zero (h : f.digits = 0) :
    (Number.float f).reread = .float ⟨false, 0, 0, Or.inr ⟨rfl, rfl⟩⟩ := by
  rcases f.repr_cases with ⟨_, _, hrepr⟩ | ⟨hne, _⟩ | ⟨hne, _⟩ | ⟨hne, _⟩
  · simp [Number.reread, Number.literal, hrepr, Literal.numeric, Literal.read, ofDecimal]
  · exact (hne h).elim
  · exact (hne h).elim
  · exact (hne h).elim

theorem reread_large (h : f.Large) : (Number.float f).reread =
    .int (if f.negative then -(f.digits * 10 ^ f.exponent.toNat : ℕ)
      else (f.digits * 10 ^ f.exponent.toNat : ℕ)) := by
  obtain ⟨hne, hpoint, he⟩ := h
  rcases f.repr_cases with ⟨hzero, _⟩ | ⟨_, _, hle, _⟩ | ⟨_, _, hle, _⟩ | ⟨_, _, hrepr⟩
  · exact (hne hzero).elim
  · omega
  · omega
  · have hwidth := decimalWidth_pos f.digits
    have hshift : ((decimalWidth f.digits - 1 : ℕ) : ℤ) - (f.point - 1) = -f.exponent := by
      unfold point
      omega
    have hnumeric : f.repr.numeric =
        ⟨f.negative, f.digits * 10 ^ f.exponent.toNat, 0, none⟩ := by
      simp only [hrepr, Literal.numeric, Option.getD_some, hshift, neg_neg, Literal.mk.injEq,
        Bool.and_eq_left_iff_imp, decide_eq_true_eq, and_true, true_and]
      exact ⟨fun _ => hne, by omega⟩
    rw [Number.reread, Number.literal, hnumeric, Literal.read, if_pos ⟨rfl, rfl⟩]

theorem reread_plain (hzero : ¬ f.NegativeZero) (hlarge : ¬ f.Large) :
    (Number.float f).reread = .float f := by
  have hsign : ∀ {k : ℕ}, f.digits ≠ 0 →
      (f.negative && decide (f.digits * 10 ^ k ≠ 0)) = f.negative := by
    intro k hne
    have hpos : f.digits * 10 ^ k ≠ 0 := Nat.mul_ne_zero hne (Nat.pow_pos (by decide)).ne'
    simp [hpos]
  rcases f.repr_cases with ⟨hd, he, _⟩ | ⟨hne, he, _, hrepr⟩ | ⟨hne, he, _, hrepr⟩ |
    ⟨hne, hpoint, hrepr⟩
  · rw [reread_zero hd]
    have hpositive : f.negative = false := by
      by_contra hnegative
      exact hzero ⟨Bool.eq_true_of_not_eq_false hnegative, hd⟩
    exact congrArg Number.float (ext_of hpositive.symm hd.symm he.symm)
  · have habs : ((f.exponent.natAbs : ℕ) : ℤ) = -f.exponent := by omega
    have hnumeric : f.repr.numeric = ⟨f.negative, f.digits * 10 ^ 0, f.exponent.natAbs, none⟩ := by
      have hsame := hsign (k := 0) hne
      rw [pow_zero, Nat.mul_one] at hsame
      have hzero' : f.exponent.toNat = 0 := by omega
      simp only [hrepr, Literal.numeric, Option.getD_none, habs, sub_zero, neg_neg, hsame, hzero',
        Literal.mk.injEq, true_and, and_true]
      omega
    have hread : ¬ (f.exponent.natAbs = 0 ∧ (none : Option ℤ) = none) := by omega
    rw [Number.reread, Number.literal, hnumeric, Literal.read, if_neg hread]
    refine congrArg Number.float (ofDecimal_mul_pow hne ?_)
    simp only [Option.getD_none, habs]
    omega
  · have hnumeric : f.repr.numeric =
        ⟨f.negative, f.digits * 10 ^ (f.exponent.toNat + 1), 1, none⟩ := by
      simp [hrepr, Literal.numeric, hne]
    rw [Number.reread, Number.literal, hnumeric, Literal.read, if_neg (by simp)]
    exact congrArg Number.float (ofDecimal_mul_pow hne (by simp; omega))
  · have hwidth := decimalWidth_pos f.digits
    have he : f.exponent < 0 := by
      by_contra hnonneg
      refine hlarge ⟨hne, ?_, by omega⟩
      unfold point at hpoint ⊢
      omega
    have hshift : ((decimalWidth f.digits - 1 : ℕ) : ℤ) - (f.point - 1) = -f.exponent := by
      unfold point
      omega
    have hnumeric : f.repr.numeric = ⟨f.negative, f.digits * 10 ^ 0, f.exponent.natAbs, none⟩ := by
      have hsame := hsign (k := 0) hne
      rw [pow_zero, Nat.mul_one] at hsame
      have hzero' : f.exponent.toNat = 0 := by omega
      simp only [hrepr, Literal.numeric, Option.getD_some, hshift, neg_neg, hsame, hzero',
        Literal.mk.injEq, true_and, and_true]
      omega
    have hread : ¬ (f.exponent.natAbs = 0 ∧ (none : Option ℤ) = none) := by omega
    rw [Number.reread, Number.literal, hnumeric, Literal.read, if_neg hread]
    refine congrArg Number.float (ofDecimal_mul_pow hne ?_)
    have habs : ((f.exponent.natAbs : ℕ) : ℤ) = -f.exponent := by omega
    simp only [Option.getD_none, habs]
    omega

/-- What a float is after it was stored. -/
theorem reread_iff : (Number.float f).reread = .float f ↔ ¬ f.NegativeZero ∧ ¬ f.Large := by
  constructor
  · intro h
    constructor
    · rintro ⟨hnegative, hd⟩
      rw [reread_zero hd] at h
      have hsign := congrArg PyFloat.negative (Number.float.inj h)
      rw [hnegative] at hsign
      cases hsign
    · intro hlarge
      rw [reread_large hlarge] at h
      cases h
  · rintro ⟨hzero, hlarge⟩
    exact reread_plain hzero hlarge

end PyFloat

end Quantive
