import Quantive.DecimalContext
import Quantive.Json.Number

/-!
# Backtest amounts

`_normalize_decimal` of `backtests/contracts.py`, which prepares a `Decimal` for a `NUMERIC` column.
-/

namespace Quantive.Backtests
open Decimal (fix Overflows unit precision exponentTiny roundHalfEven)

/-- A finite `Decimal`. -/
structure Dec where
  negative : Bool
  coefficient : ℕ
  exponent : ℤ
  deriving DecidableEq

inductive PyDecimal where
  | finite (d : Dec)
  /-- An infinity or a NaN. -/
  | nonFinite

namespace Dec

def value (d : Dec) : ℚ :=
  (if d.negative then -1 else 1) * (d.coefficient * 10 ^ d.exponent)

/-- `Decimal.normalize`: rounded in the context, without trailing zeros; `none` is the `Overflow`
trap. -/
def normalize (d : Dec) : Option Dec :=
  let a := |d.value|
  if a = 0 then some ⟨d.negative, 0, 0⟩
  else if Overflows a then none
  else
    let e := max (Int.log 10 a - (precision - 1)) exponentTiny
    let c := (roundHalfEven (a / unit a)).toNat
    if c = 0 then some ⟨d.negative, 0, 0⟩
    else some ⟨d.negative, (stripZeros c c e).1, (stripZeros c c e).2⟩

/-- The exponent of the first digit. -/
def adjusted (d : Dec) : ℤ := d.exponent + (decimalWidth d.coefficient - 1)

end Dec

inductive DecimalError where
  | overflow
  | value (message : String)
  deriving DecidableEq

def fractionalDigits (d : Dec) : ℤ := max (-d.exponent) 0

def integerDigits (d : Dec) : ℤ := max (d.adjusted + 1) 0

/-- `_normalize_decimal`, `contracts.py:42-60`. -/
def normalizeDecimal (value : PyDecimal) (fieldName : String) (maxDigits decimalPlaces : ℕ) :
    Except DecimalError Dec :=
  match value with
  | .nonFinite => .error (.value (fieldName ++ " must be finite"))
  | .finite d =>
    match d.normalize with
    | none => .error .overflow
    | some normalized =>
      let normalized := if normalized.coefficient = 0 then ⟨false, 0, 0⟩ else normalized
      if decimalPlaces < fractionalDigits normalized ∨
          maxDigits < integerDigits normalized + fractionalDigits normalized then
        .error (.value (fieldName ++ " exceeds NUMERIC(" ++ toString maxDigits ++ ", " ++
          toString decimalPlaces ++ ") persistence precision"))
      else .ok normalized

/-! ### Columns -/

/-- A value of `NUMERIC(p, s)`. -/
def Representable (p s : ℕ) (q : ℚ) : Prop := ∃ z : ℤ, q * 10 ^ s = z ∧ |z| < 10 ^ p

/-- At most `s` fractional digits, and at most `p` digits in all. -/
def FewDigits (p s : ℕ) (q : ℚ) : Prop :=
  ∃ f ≤ s, f ≤ p ∧ (∃ z : ℤ, q * 10 ^ f = z) ∧ |q| < 10 ^ (p - f)

/-! ### Digits -/

theorem stripZeros_value (fuel c : ℕ) (e : ℤ) :
    ((stripZeros fuel c e).1 : ℚ) * 10 ^ (stripZeros fuel c e).2 = c * 10 ^ e := by
  induction fuel generalizing c e with
  | zero => rfl
  | succ fuel ih =>
    unfold stripZeros
    split
    · rename_i hzero
      have hc : (c : ℚ) = (c / 10 : ℕ) * 10 := by
        have hmul : c = c / 10 * 10 := by omega
        exact_mod_cast hmul
      rw [ih, hc, zpow_add₀ (by norm_num), zpow_one]
      have hdiv : (c / 10 * 10 : ℕ) / 10 = c / 10 := by omega
      ring
    · rfl

theorem lt_pow_iff_width {c : ℕ} (hc : c ≠ 0) {k : ℕ} : c < 10 ^ k ↔ decimalWidth c ≤ k := by
  by_cases hk : 0 < k
  · exact (Nat.length_toDigits_le_iff (by decide) hk).symm
  · have hzero : k = 0 := by omega
    have hwidth := decimalWidth_pos c
    subst hzero
    rw [pow_zero]
    omega

/-- Digits in front of the point. -/
theorem integerDigits_le_iff {d : Dec} (hc : d.coefficient ≠ 0) (k : ℕ) :
    integerDigits d ≤ k ↔ |d.value| < 10 ^ k := by
  have hten : (0 : ℚ) < 10 ^ d.exponent := zpow_pos (by norm_num) _
  have habs : |d.value| = d.coefficient * 10 ^ d.exponent := by
    have hpos : (0 : ℚ) ≤ d.coefficient * 10 ^ d.exponent := mul_nonneg (Nat.cast_nonneg _) hten.le
    unfold Dec.value
    split <;> simp [abs_of_nonneg hpos]
  have hwidth := decimalWidth_pos d.coefficient
  rw [habs, ← lt_div_iff₀ hten, ← zpow_natCast, ← zpow_sub₀ (by norm_num)]
  have hdigits : integerDigits d ≤ k ↔ (decimalWidth d.coefficient : ℤ) ≤ k - d.exponent := by
    unfold integerDigits Dec.adjusted
    omega
  rw [hdigits]
  by_cases hexponent : 0 ≤ (k : ℤ) - d.exponent
  · obtain ⟨m, hm⟩ := Int.eq_ofNat_of_zero_le hexponent
    rw [hm, zpow_natCast]
    have hcast : (d.coefficient : ℚ) < 10 ^ m ↔ d.coefficient < 10 ^ m := by
      exact_mod_cast Iff.rfl
    rw [hcast, lt_pow_iff_width hc]
    omega
  · have hsmall : ((10 : ℚ) ^ ((k : ℤ) - d.exponent)) ≤ 1 :=
      zpow_le_one_of_nonpos₀ (by norm_num) (by omega)
    have hone : (1 : ℚ) ≤ d.coefficient := by exact_mod_cast Nat.one_le_iff_ne_zero.mpr hc
    refine iff_of_false (by omega) ?_
    linarith

/-- Digits behind the point. -/
theorem fractionalDigits_le_iff {d : Dec} (hc : d.coefficient % 10 ≠ 0) (f : ℕ) :
    fractionalDigits d ≤ f ↔ ∃ z : ℤ, d.value * 10 ^ f = z := by
  have hvalue : d.value * 10 ^ f =
      (if d.negative then -1 else 1) * (d.coefficient * 10 ^ (d.exponent + f)) := by
    rw [Dec.value, zpow_add₀ (by norm_num), zpow_natCast]
    ring
  rw [hvalue]
  by_cases hf : -(f : ℤ) ≤ d.exponent
  · refine iff_of_true (by unfold fractionalDigits; omega) ?_
    obtain ⟨m, hm⟩ := Int.eq_ofNat_of_zero_le (by omega : 0 ≤ d.exponent + f)
    rw [hm, zpow_natCast]
    exact ⟨(if d.negative then -1 else 1) * (d.coefficient * 10 ^ m), by push_cast; split <;> ring⟩
  · refine iff_of_false (by unfold fractionalDigits; omega) ?_
    rintro ⟨z, hz⟩
    obtain ⟨m, hm⟩ := Int.eq_ofNat_of_zero_le (by omega : 0 ≤ -(d.exponent + f))
    have hpow : (10 : ℚ) ^ (d.exponent + f) = (10 ^ m)⁻¹ := by
      rw [← zpow_natCast, ← zpow_neg, ← hm, neg_neg]
    have hmpos : m ≠ 0 := by omega
    rw [hpow] at hz
    have hcoefficient : ((d.coefficient : ℤ) : ℚ) = ((|z| * 10 ^ m : ℤ) : ℚ) := by
      have habs := congrArg abs hz
      have hten : (0 : ℚ) < 10 ^ m := by positivity
      have hfrac : |(if d.negative then (-1 : ℚ) else 1) * (d.coefficient * (10 ^ m)⁻¹)| =
          d.coefficient * (10 ^ m)⁻¹ := by
        have hpos : (0 : ℚ) ≤ d.coefficient * (10 ^ m)⁻¹ := by positivity
        split <;> simp [abs_of_nonneg hpos]
      rw [hfrac, ← div_eq_mul_inv, div_eq_iff hten.ne'] at habs
      push_cast
      exact habs
    have hint : (d.coefficient : ℤ) = |z| * 10 ^ m := by exact_mod_cast hcoefficient
    obtain ⟨l, rfl⟩ := Nat.exists_eq_succ_of_ne_zero hmpos
    rw [pow_succ, ← mul_assoc] at hint
    omega

/-! ### Normalization -/

theorem roundHalfEven_nonneg {q : ℚ} (h : 0 ≤ q) : 0 ≤ roundHalfEven q := by
  have hfloor : 0 ≤ ⌊q⌋ := Int.floor_nonneg.mpr h
  have hbounds := Decimal.roundHalfEven_bounds q
  omega

theorem roundHalfEven_int (z : ℤ) : roundHalfEven z = z := by
  unfold roundHalfEven
  dsimp only
  rw [Int.floor_intCast, sub_self, if_pos (by norm_num)]

theorem Dec.value_neg_iff {d : Dec} (h : d.value ≠ 0) : d.value < 0 ↔ d.negative = true := by
  have hten : (0 : ℚ) < 10 ^ d.exponent := zpow_pos (by norm_num) _
  have hnonneg : (0 : ℚ) ≤ d.coefficient * 10 ^ d.exponent := mul_nonneg (Nat.cast_nonneg _) hten.le
  unfold Dec.value at h ⊢
  cases d.negative with
  | false =>
    simp only [Bool.false_eq_true, if_false, one_mul, iff_false, not_lt]
    exact hnonneg
  | true =>
    simp only [if_true, iff_true] at h ⊢
    have hne : (d.coefficient : ℚ) * 10 ^ d.exponent ≠ 0 := fun hzero => h (by rw [hzero, mul_zero])
    have hpos := lt_of_le_of_ne hnonneg (Ne.symm hne)
    linarith

/-- `normalize` rounds in the context, and shows the result without trailing zeros. -/
theorem Dec.normalize_spec (d : Dec) : d.normalize.map Dec.value = fix d.value ∧
    ∀ n ∈ d.normalize, n.coefficient % 10 ≠ 0 ∨ n.coefficient = 0 := by
  have hzero : ∀ negative, Dec.value ⟨negative, 0, 0⟩ = 0 := by
    intro negative
    unfold Dec.value
    simp
  unfold Dec.normalize fix
  dsimp only
  by_cases hvalue : d.value = 0
  · rw [hvalue, abs_zero, if_pos rfl, if_pos rfl, Option.map_some, hzero]
    refine ⟨rfl, fun n hn => ?_⟩
    cases hn
    exact .inr rfl
  · have habs : |d.value| ≠ 0 := abs_ne_zero.mpr hvalue
    rw [if_neg habs, if_neg hvalue]
    by_cases hover : Overflows |d.value|
    · rw [if_pos hover, if_pos hover]
      exact ⟨rfl, fun n hn => by cases hn⟩
    · rw [if_neg hover, if_neg hover]
      have hunit : (0 : ℚ) < unit |d.value| := zpow_pos (by norm_num) _
      have hround := roundHalfEven_nonneg (div_nonneg (abs_nonneg d.value) hunit.le)
      have hcast : ((roundHalfEven (|d.value| / unit |d.value|)).toNat : ℚ) =
          roundHalfEven (|d.value| / unit |d.value|) := by
        exact_mod_cast Int.toNat_of_nonneg hround
      have hsign : (if d.value < 0 then (-1 : ℚ) else 1) = if d.negative then -1 else 1 := by
        simp only [Dec.value_neg_iff hvalue]
      rw [hsign, ← hcast]
      split
      · rename_i hc
        rw [Option.map_some, hzero, hc, Nat.cast_zero, zero_mul, mul_zero]
        refine ⟨rfl, fun n hn => ?_⟩
        cases hn
        exact .inr rfl
      · rename_i hc
        rw [Option.map_some]
        constructor
        · rw [Dec.value, stripZeros_value]
          rfl
        · intro n hn
          cases hn
          exact .inl (stripZeros_mod hc (Nat.lt_pow_self (by decide)) _)

theorem Dec.normalize_isSome_iff {d : Dec} {r : ℚ} :
    (∃ n, d.normalize = some n ∧ n.value = r) ↔ fix d.value = some r := by
  rw [← d.normalize_spec.1, Option.map_eq_some_iff]

/-! ### The last digit kept -/

theorem roundHalfEven_error (q : ℚ) : |(roundHalfEven q : ℚ) - q| ≤ 1 / 2 := by
  have hlow := Int.floor_le q
  have hhigh := Int.lt_floor_add_one q
  rw [abs_le]
  unfold roundHalfEven
  dsimp only
  split
  · constructor <;> linarith
  · split
    · push_cast
      constructor <;> linarith
    · split
      · constructor <;> linarith
      · push_cast
        constructor <;> linarith

/-- A tie goes to the even neighbour. -/
theorem roundHalfEven_of_even {m : ℤ} {q : ℚ} (hm : m % 2 = 0) (h : |(m : ℚ) - q| ≤ 1 / 2) :
    roundHalfEven q = m := by
  obtain ⟨hlow, hhigh⟩ := abs_le.mp h
  have hfloor := Int.floor_le q
  have hnext := Int.lt_floor_add_one q
  have hcases : ⌊q⌋ = m ∨ ⌊q⌋ = m - 1 := by
    have hle : ⌊q⌋ < m + 1 := by
      rw [Int.floor_lt]
      push_cast
      linarith
    have hge : m - 1 ≤ ⌊q⌋ := by
      rw [Int.le_floor]
      push_cast
      linarith
    omega
  unfold roundHalfEven
  dsimp only
  rcases hcases with heq | heq
  · rw [heq]
    have hsmall : ¬ 1 / 2 < q - m := by linarith
    rw [if_neg hsmall, if_pos hm, ite_self]
  · rw [heq]
    push_cast
    have hlarge : ¬ q - (m - 1) < 1 / 2 := by linarith
    have hodd : ¬ (m - 1) % 2 = 0 := by omega
    rw [if_neg hlarge, if_neg hodd, ite_self]
    omega

/-- What rounding moves. -/
theorem fix_error {q r : ℚ} (h : fix q = some r) : |r - q| ≤ unit |q| / 2 := by
  have hunit : (0 : ℚ) < unit |q| := zpow_pos (by norm_num) _
  unfold fix at h
  split at h
  · rename_i hq
    cases h
    rw [hq, sub_zero, abs_zero]
    rw [hq, abs_zero] at hunit
    linarith
  · split at h
    · cases h
    · have herror := roundHalfEven_error (|q| / unit |q|)
      have hscaled : |roundHalfEven (|q| / unit |q|) * unit |q| - (|q|)| ≤ unit |q| / 2 := by
        have hfactor : roundHalfEven (|q| / unit |q|) * unit |q| - |q| =
            (roundHalfEven (|q| / unit |q|) - |q| / unit |q|) * unit |q| := by
          rw [sub_mul, div_mul_cancel₀ _ hunit.ne']
        rw [hfactor, abs_mul, abs_of_pos hunit]
        linarith [mul_le_mul_of_nonneg_right herror hunit.le]
      obtain rfl := Option.some.inj h
      split
      · rename_i hneg
        have hsign : -1 * (roundHalfEven (|q| / unit |q|) * unit |q|) - q =
            -(roundHalfEven (|q| / unit |q|) * unit |q| - |q|) := by
          rw [abs_of_neg hneg]
          ring
        rw [hsign, abs_neg]
        exact hscaled
      · rename_i hnonneg
        rw [one_mul]
        generalize roundHalfEven (|q| / unit |q|) * unit |q| = rounded at hscaled ⊢
        rw [abs_of_nonneg (not_lt.mp hnonneg)] at hscaled ⊢
        exact hscaled

/-- A value with few digits next to `q` is an even number of its units. -/
theorem FewDigits.even_units {p s : ℕ} (hp : p + 2 ≤ precision) {q r : ℚ} (h : FewDigits p s r)
    (hnear : |r - q| ≤ unit |q| / 2) :
    ∃ m : ℤ, m % 2 = 0 ∧ r = m * unit |q| ∧ Int.log 10 |q| ≤ 26 := by
  obtain ⟨f, -, hf, ⟨z, hz⟩, hbound⟩ := h
  have hprecision : precision = 28 := rfl
  have htiny : exponentTiny = -1000026 := rfl
  -- the magnitude of `q` is not far from that of `r`
  have hlog : Int.log 10 |q| ≤ 26 - f := by
    by_contra hlarge
    have hexponent : (27 : ℤ) - f ≤ Int.log 10 |q| := by omega
    have hq : 0 < |q| := by
      rcases (abs_nonneg q).eq_or_lt with hzero | hpos
      · rw [← hzero, Int.log_of_right_le_zero _ le_rfl] at hexponent
        omega
      · exact hpos
    have hunit : unit |q| * 10 ^ 27 = 10 ^ Int.log 10 |q| := by
      unfold unit
      rw [max_eq_left (by omega), ← zpow_natCast, ← zpow_add₀ (by norm_num), hprecision]
      congr 1
      push_cast
      ring
    have hself : (10 : ℚ) ^ Int.log 10 |q| ≤ |q| := by
      have hpow := Int.zpow_log_le_self (b := 10) (by norm_num) hq
      exact_mod_cast hpow
    have hbig : (10 : ℚ) ^ (p - f) * 10 ≤ 10 ^ Int.log 10 |q| := by
      rw [← pow_succ, ← zpow_natCast]
      exact zpow_le_zpow_right₀ (by norm_num) (by omega)
    have htriangle : |q| ≤ |r| + |r - q| := by
      have hsum := abs_sub_abs_le_abs_sub q r
      rw [abs_sub_comm] at hsum
      linarith
    have hpow : (0 : ℚ) < 10 ^ (p - f) := by positivity
    linarith
  have hexponent : ∃ k : ℕ, max (Int.log 10 |q| - (precision - 1)) exponentTiny + (k + 1 : ℕ) =
      -(f : ℤ) := by
    refine ⟨(-(f : ℤ) - 1 - max (Int.log 10 |q| - (precision - 1)) exponentTiny).toNat, ?_⟩
    omega
  obtain ⟨k, hk⟩ := hexponent
  have hunit : unit |q| * 10 ^ (k + 1) = 10 ^ (-(f : ℤ)) := by
    rw [← hk, zpow_add₀ (by norm_num), zpow_natCast]
    rfl
  refine ⟨z * 10 ^ (k + 1), ?_, ?_, by omega⟩
  · rw [pow_succ, ← mul_assoc]
    omega
  · push_cast
    rw [mul_assoc, mul_comm _ (unit |q|), hunit, ← hz, zpow_neg, zpow_natCast,
      mul_inv_cancel_right₀ (by positivity)]

/-- Rounding reaches a value with few digits from half a unit away. -/
theorem fix_eq_iff {p s : ℕ} (hp : p + 2 ≤ precision) {q r : ℚ} (h : FewDigits p s r) :
    fix q = some r ↔ |r - q| ≤ unit |q| / 2 := by
  refine ⟨fix_error, fun hnear => ?_⟩
  obtain ⟨m, heven, hr, hlog⟩ := h.even_units hp hnear
  have hunit : (0 : ℚ) < unit |q| := zpow_pos (by norm_num) _
  have hover : ¬ Overflows |q| := by
    rintro (h | ⟨h, _⟩)
    all_goals
      unfold Decimal.exponentMax at h
      omega
  -- the rounding of the magnitude, on the side of `q`
  have hround : ∀ {c : ℤ}, c % 2 = 0 → |c * unit |q| - (|q|)| ≤ unit |q| / 2 →
      roundHalfEven (|q| / unit |q|) = c := by
    intro c hc hdistance
    refine roundHalfEven_of_even hc ?_
    have hfactor : c * unit |q| - |q| = (c - |q| / unit |q|) * unit |q| := by
      rw [sub_mul, div_mul_cancel₀ _ hunit.ne']
    rw [hfactor, abs_mul, abs_of_pos hunit] at hdistance
    by_contra hfar
    have hscaled := mul_lt_mul_of_pos_right (not_le.mp hfar) hunit
    linarith
  unfold fix
  rcases lt_trichotomy q 0 with hneg | rfl | hpos
  · rw [if_neg hneg.ne, if_neg hover, if_pos hneg]
    have hdistance : |((-m : ℤ) : ℚ) * unit |q| - (|q|)| ≤ unit |q| / 2 := by
      have hsign : ((-m : ℤ) : ℚ) * unit |q| - |q| = -(r - q) := by
        rw [hr]
        nth_rewrite 2 [abs_of_neg hneg]
        push_cast
        ring
      rw [hsign, abs_neg]
      exact hnear
    rw [hround (by omega) hdistance, hr]
    push_cast
    ring_nf
  · rw [if_pos rfl]
    have hsmall : |(m : ℚ)| ≤ 1 / 2 := by
      rw [hr, sub_zero, abs_mul, abs_of_pos hunit] at hnear
      by_contra hfar
      have hscaled := mul_lt_mul_of_pos_right (not_le.mp hfar) hunit
      linarith
    have hm : m = 0 := by
      have hint : |m| < 1 := by
        have hlt : |(m : ℚ)| < 1 := by linarith
        exact_mod_cast hlt
      exact Int.abs_lt_one_iff.mp hint
    rw [hr, hm, Int.cast_zero, zero_mul]
  · rw [if_neg hpos.ne', if_neg hover, if_neg hpos.not_gt, one_mul]
    have hdistance : |(m : ℚ) * unit |q| - (|q|)| ≤ unit |q| / 2 := by
      nth_rewrite 2 [abs_of_pos hpos]
      rw [← hr]
      exact hnear
    rw [hround heven hdistance, hr]

/-! ### Acceptance -/

theorem FewDigits.zero {p s : ℕ} (hp : 0 < p) : FewDigits p s 0 := by
  refine ⟨0, by omega, by omega, ⟨0, by norm_num⟩, ?_⟩
  rw [abs_zero]
  positivity

/-- The digit test of a value without trailing zeros. -/
theorem digits_iff {p s : ℕ} {d : Dec} (hc : d.coefficient % 10 ≠ 0) :
    ¬ ((s : ℤ) < fractionalDigits d ∨ (p : ℤ) < integerDigits d + fractionalDigits d) ↔
      FewDigits p s d.value := by
  have hne : d.coefficient ≠ 0 := by omega
  have hfractional : 0 ≤ fractionalDigits d := le_max_right _ _
  have hinteger : 0 ≤ integerDigits d := le_max_right _ _
  obtain ⟨f, hf⟩ := Int.eq_ofNat_of_zero_le hfractional
  constructor
  · intro hfew
    have hfp : f ≤ p := by omega
    refine ⟨f, by omega, hfp, (fractionalDigits_le_iff hc f).mp hf.le, ?_⟩
    have hk : integerDigits d ≤ (p - f : ℕ) := by omega
    exact (integerDigits_le_iff hne _).mp hk
  · rintro ⟨g, hgs, hgp, hz, hbound⟩
    have hg := (fractionalDigits_le_iff hc g).mpr hz
    have hk := (integerDigits_le_iff hne _).mpr hbound
    omega

/-- `_normalize_decimal` accepts what has few digits after the rounding. -/
theorem normalizeDecimal_ok_iff {p s : ℕ} (hp : 0 < p) {d : Dec} {field : String} {q : ℚ} :
    (∃ n, normalizeDecimal (.finite d) field p s = .ok n ∧ n.value = q) ↔
      fix d.value = some q ∧ FewDigits p s q := by
  have hzero : Dec.value ⟨false, 0, 0⟩ = 0 := by
    unfold Dec.value
    simp
  rw [← Dec.normalize_isSome_iff]
  unfold normalizeDecimal
  dsimp only
  rcases hn : d.normalize with _ | n
  · simp
  · dsimp only
    by_cases hc : n.coefficient = 0
    · have hvalue : n.value = 0 := by
        unfold Dec.value
        rw [hc, Nat.cast_zero, zero_mul, mul_zero]
      have hdigits : ¬ ((s : ℤ) < fractionalDigits ⟨false, 0, 0⟩ ∨
          (p : ℤ) < integerDigits ⟨false, 0, 0⟩ + fractionalDigits ⟨false, 0, 0⟩) := by
        have hf : fractionalDigits ⟨false, 0, 0⟩ = 0 := rfl
        have hi : integerDigits ⟨false, 0, 0⟩ = 1 := by decide
        rw [hf, hi]
        omega
      rw [if_pos hc, if_neg hdigits]
      constructor
      · rintro ⟨r, hr, hq⟩
        obtain rfl := Except.ok.inj hr
        rw [hzero] at hq
        subst hq
        exact ⟨⟨n, rfl, hvalue⟩, FewDigits.zero hp⟩
      · rintro ⟨⟨r, hr, hq⟩, -⟩
        obtain rfl := Option.some.inj hr
        exact ⟨_, rfl, by rw [hzero, ← hq, hvalue]⟩
    · have hmod : n.coefficient % 10 ≠ 0 := by
        have hspec := d.normalize_spec.2 n hn
        omega
      rw [if_neg hc]
      constructor
      · rintro ⟨r, hr, hq⟩
        split at hr
        · cases hr
        · rename_i hfew
          obtain rfl := Except.ok.inj hr
          exact ⟨⟨n, rfl, hq⟩, hq ▸ (digits_iff hmod).mp hfew⟩
      · rintro ⟨⟨r, hr, hq⟩, hfew⟩
        obtain rfl := Option.some.inj hr
        rw [if_neg ((digits_iff hmod).mpr (hq ▸ hfew))]
        exact ⟨n, rfl, hq⟩

/-- The column's own test: few digits, and few in front of the point. -/
theorem representable_iff {p s : ℕ} (hs : s ≤ p) {q : ℚ} :
    Representable p s q ↔ FewDigits p s q ∧ |q| < 10 ^ (p - s) := by
  have hten : (0 : ℚ) < 10 ^ s := by positivity
  have hwhole : ∀ {z : ℤ}, q * 10 ^ s = z → (|q| < 10 ^ (p - s) ↔ |z| < 10 ^ p) := by
    intro z hz
    have habs : |q| * 10 ^ s = |z| := by
      rw [Int.cast_abs, ← hz, abs_mul, abs_of_pos hten]
    have hpow : (10 : ℚ) ^ (p - s) * 10 ^ s = 10 ^ p := by
      rw [← pow_add]
      congr 1
      omega
    rw [← mul_lt_mul_iff_of_pos_right hten, habs, hpow]
    exact_mod_cast Iff.rfl
  constructor
  · rintro ⟨z, hz, hbound⟩
    have hq := (hwhole hz).mpr hbound
    exact ⟨⟨s, le_rfl, hs, ⟨z, hz⟩, hq⟩, hq⟩
  · rintro ⟨⟨f, hf, -, ⟨z, hz⟩, -⟩, hq⟩
    have hscaled : q * 10 ^ s = ((z * 10 ^ (s - f) : ℤ) : ℚ) := by
      push_cast
      rw [← hz, mul_assoc, ← pow_add]
      congr 2
      omega
    exact ⟨_, hscaled, (hwhole hscaled).mp hq⟩

/-- No other value with few digits lies within half a unit of the last digit the context keeps. -/
def Separated (p s : ℕ) (q : ℚ) : Prop :=
  ∀ r, FewDigits p s r → r ≠ q → unit |q| / 2 < |r - q|

/-- A value of the column is what is accepted, and comes back as it is. -/
def Exact (p s : ℕ) (field : String) (d : Dec) : Prop :=
  ((∃ n, normalizeDecimal (.finite d) field p s = .ok n) ↔ Representable p s d.value) ∧
    ∀ n, normalizeDecimal (.finite d) field p s = .ok n → n.value = d.value

theorem normalizeDecimal_exact_iff {p s : ℕ} (hp : 0 < p) (hs : s ≤ p) (hcontext : p + 2 ≤ precision)
    (field : String) (d : Dec) :
    Exact p s field d ↔
      (FewDigits p s d.value → |d.value| < 10 ^ (p - s)) ∧ Separated p s d.value := by
  have hself : FewDigits p s d.value → fix d.value = some d.value := by
    intro hfew
    refine (fix_eq_iff hcontext hfew).mpr ?_
    have hunit : (0 : ℚ) < unit |d.value| := zpow_pos (by norm_num) _
    rw [sub_self, abs_zero]
    linarith
  constructor
  · rintro ⟨haccepted, hsame⟩
    constructor
    · intro hfew
      obtain ⟨n, hn, -⟩ := (normalizeDecimal_ok_iff hp).mpr ⟨hself hfew, hfew⟩
      exact ((representable_iff hs).mp (haccepted.mp ⟨n, hn⟩)).2
    · intro r hr hne
      by_contra hnear
      have hfix := (fix_eq_iff hcontext hr).mpr (not_lt.mp hnear)
      obtain ⟨n, hn, hvalue⟩ := (@normalizeDecimal_ok_iff p s hp d field r).mpr ⟨hfix, hr⟩
      exact hne (hvalue.symm.trans (hsame n hn))
  · rintro ⟨hinteger, hseparated⟩
    -- what is accepted is not rounded
    have hsame : ∀ n, normalizeDecimal (.finite d) field p s = .ok n →
        n.value = d.value ∧ FewDigits p s d.value := by
      intro n hn
      obtain ⟨hfix, hfew⟩ := (normalizeDecimal_ok_iff hp).mp ⟨n, hn, rfl⟩
      have hvalue : n.value = d.value := by
        by_contra hne
        have hfar := hseparated n.value hfew hne
        exact absurd (fix_error hfix) (not_le.mpr hfar)
      exact ⟨hvalue, hvalue ▸ hfew⟩
    refine ⟨⟨?_, ?_⟩, fun n hn => (hsame n hn).1⟩
    · rintro ⟨n, hn⟩
      have hfew := (hsame n hn).2
      exact (representable_iff hs).mpr ⟨hfew, hinteger hfew⟩
    · intro hrepresentable
      have hfew := ((representable_iff hs).mp hrepresentable).1
      obtain ⟨n, hn, -⟩ := (@normalizeDecimal_ok_iff p s hp d field d.value).mpr ⟨hself hfew, hfew⟩
      exact ⟨n, hn⟩

theorem normalizeDecimal_exact_thousand :
    Exact 24 8 "initial_capital" ⟨false, 10000000, -4⟩ ↔
      (FewDigits 24 8 (Dec.value ⟨false, 10000000, -4⟩) →
        |Dec.value ⟨false, 10000000, -4⟩| < 10 ^ (24 - 8)) ∧
      Separated 24 8 (Dec.value ⟨false, 10000000, -4⟩) :=
  normalizeDecimal_exact_iff (by decide) (by decide) (by decide) _ _

/-- Seventeen digits in front of the point are accepted for `NUMERIC(24, 8)`. -/
theorem normalizeDecimal_seventeen_digits :
    ¬ ∀ d : Dec, (∃ n, normalizeDecimal (.finite d) "initial_capital" 24 8 = .ok n) ↔
      Representable 24 8 d.value := by
  intro hall
  have haccepted : normalizeDecimal (.finite ⟨false, 10 ^ 16, 0⟩) "initial_capital" 24 8 =
      .ok ⟨false, 1, 16⟩ := by
    decide +kernel
  obtain ⟨-, hbound⟩ := (representable_iff (by decide)).mp ((hall _).mp ⟨_, haccepted⟩)
  unfold Dec.value at hbound
  norm_num at hbound

/-- Twenty-nine digits come back as one. -/
example : normalizeDecimal (.finite ⟨false, 10 ^ 28 + 1, -28⟩) "initial_capital" 24 8 =
    .ok ⟨false, 1, 0⟩ := by
  decide +kernel

end Quantive.Backtests
