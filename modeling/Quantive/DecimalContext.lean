import Mathlib.Algebra.Order.Field.Rat
import Mathlib.Data.Int.Log
import Mathlib.Data.Rat.Floor
import Mathlib.Tactic.Linarith

/-!
# Decimal arithmetic

Finite `decimal.Decimal` values under the default context: 28 digits, exponents from -999999
to 999999, `ROUND_HALF_EVEN`, a trap for `Overflow`. A value is the rational it denotes.
-/

namespace Quantive.Decimal

def precision : ℕ := 28
def exponentMax : ℤ := 999999

/-- `Etiny`, the exponent of the smallest subnormal number. -/
def exponentTiny : ℤ := -999999 - (precision - 1)

def roundHalfEven (q : ℚ) : ℤ :=
  let n := ⌊q⌋
  let r := q - n
  if r < 1 / 2 then n
  else if 1 / 2 < r then n + 1
  else if n % 2 = 0 then n
  else n + 1

/-- The unit of the last digit that is kept of a magnitude. -/
def unit (a : ℚ) : ℚ := 10 ^ max (Int.log 10 a - (precision - 1)) exponentTiny

def Overflows (a : ℚ) : Prop :=
  exponentMax < Int.log 10 a ∨
    Int.log 10 a = exponentMax ∧ roundHalfEven (a / unit a) = 10 ^ precision

instance (a : ℚ) : Decidable (Overflows a) := by unfold Overflows; infer_instance

/-- The result of an operation in the context, `none` where it traps `Overflow`. -/
def fix (q : ℚ) : Option ℚ :=
  if q = 0 then some 0
  else if Overflows |q| then none
  else some ((if q < 0 then -1 else 1) * (roundHalfEven (|q| / unit |q|) * unit |q|))

def sub (a b : ℚ) : Option ℚ := fix (a - b)
def mul (a b : ℚ) : Option ℚ := fix (a * b)
def div (a b : ℚ) : Option ℚ := fix (a / b)

@[simp] theorem fix_zero : fix 0 = some 0 := rfl
@[simp] theorem sub_self (a : ℚ) : sub a a = some 0 := by simp [sub]
@[simp] theorem zero_mul (a : ℚ) : mul 0 a = some 0 := by simp [mul]
@[simp] theorem zero_div (a : ℚ) : div 0 a = some 0 := by simp [div]

theorem fix_isSome {q : ℚ} : (∃ r, fix q = some r) ↔ q = 0 ∨ ¬ Overflows |q| := by
  unfold fix
  by_cases h : q = 0
  · simp [h]
  · by_cases ho : Overflows |q| <;> simp [h, ho]

theorem roundHalfEven_bounds (q : ℚ) : ⌊q⌋ ≤ roundHalfEven q ∧ roundHalfEven q ≤ ⌊q⌋ + 1 := by
  unfold roundHalfEven
  dsimp only
  split
  · omega
  · split
    · omega
    · split <;> omega

theorem roundHalfEven_mono {p q : ℚ} (h : p ≤ q) : roundHalfEven p ≤ roundHalfEven q := by
  have hp := roundHalfEven_bounds p
  have hq := roundHalfEven_bounds q
  have hfloor : ⌊p⌋ ≤ ⌊q⌋ := Int.floor_le_floor h
  by_cases heq : ⌊p⌋ = ⌊q⌋
  · have hr : p - ⌊p⌋ ≤ q - ⌊q⌋ := by
      rw [heq]
      linarith
    unfold roundHalfEven
    dsimp only
    rw [heq] at hr ⊢
    by_cases hp₁ : p - ⌊q⌋ < 1 / 2
    · rw [if_pos hp₁]
      have := (roundHalfEven_bounds q).1
      unfold roundHalfEven at this
      exact this
    · have hq₁ : ¬ q - ⌊q⌋ < 1 / 2 := by linarith
      rw [if_neg hp₁, if_neg hq₁]
      by_cases hp₂ : 1 / 2 < p - ⌊q⌋
      · have hq₂ : 1 / 2 < q - ⌊q⌋ := by linarith
        rw [if_pos hp₂, if_pos hq₂]
      · rw [if_neg hp₂]
        split <;> split <;> omega
  · omega

/-- A magnitude below one that fits fits. -/
theorem Overflows.mono {a b : ℚ} (ha : 0 < a) (hab : a ≤ b) (h : Overflows a) : Overflows b := by
  have hlog : Int.log 10 a ≤ Int.log 10 b := Int.log_mono_right ha hab
  rcases h with h | ⟨h, hround⟩
  · exact Or.inl (lt_of_lt_of_le h hlog)
  · by_cases hb : exponentMax < Int.log 10 b
    · exact Or.inl hb
    · have hsame : Int.log 10 b = exponentMax := by omega
      have hunit : unit a = unit b := by unfold unit; rw [h, hsame]
      have hpos : 0 < unit b := zpow_pos (by norm_num) _
      have hle : roundHalfEven (a / unit a) ≤ roundHalfEven (b / unit b) := by
        rw [hunit]
        exact roundHalfEven_mono (div_le_div_of_nonneg_right hab hpos.le)
      -- fewer than 29 digits stand before the rounding
      have hlt : b < 10 ^ (exponentMax + 1) := by
        have := Int.lt_zpow_succ_log_self (b := 10) (by norm_num) b
        rw [hsame] at this
        exact_mod_cast this
      have hquot : b / unit b ≤ ((10 ^ precision : ℤ) : ℚ) := by
        rw [div_le_iff₀ hpos]
        have hexp : unit b = 10 ^ (exponentMax - 27) := by
          unfold unit
          rw [hsame]
          rfl
        have hprod : ((10 ^ precision : ℤ) : ℚ) * unit b = 10 ^ (exponentMax + 1) := by
          rw [hexp]
          have : ((10 ^ precision : ℤ) : ℚ) = (10 : ℚ) ^ (28 : ℤ) := by norm_num [precision]
          rw [this, ← zpow_add₀ (by norm_num)]
          rfl
        rw [hprod]
        exact hlt.le
      have hup : roundHalfEven (b / unit b) ≤ roundHalfEven ((10 ^ precision : ℤ) : ℚ) :=
        roundHalfEven_mono hquot
      have hexact : roundHalfEven ((10 ^ precision : ℤ) : ℚ) = 10 ^ precision := by decide +kernel
      exact Or.inr ⟨hsame, by omega⟩

/-- The difference of two amounts fits when the amounts do. -/
theorem sub_isSome {a b : ℚ} (ha : 0 ≤ a) (hb : 0 ≤ b) (hfa : fix a = some a) (hfb : fix b = some b) :
    ∃ d, sub a b = some d := by
  have hfit : ∀ {c : ℚ}, 0 ≤ c → fix c = some c → |a - b| ≤ c → ∃ d, sub a b = some d := by
    intro c hc hfc hle
    refine fix_isSome.mpr ?_
    by_cases h0 : a - b = 0
    · exact Or.inl h0
    · refine Or.inr fun hover => ?_
      have hpos : 0 < |a - b| := abs_pos.mpr h0
      have hcover := hover.mono hpos hle
      rcases fix_isSome.mp ⟨c, hfc⟩ with h | h
      · linarith
      · rw [abs_of_nonneg hc] at h
        exact h hcover
  rcases le_total a b with h | h
  · exact hfit hb hfb (abs_le.mpr ⟨by linarith, by linarith⟩)
  · exact hfit ha hfa (abs_le.mpr ⟨by linarith, by linarith⟩)

/-- Nothing up to two overflows. -/
theorem fix_isSome_of_le_two {q : ℚ} (h : |q| ≤ 2) : ∃ r, fix q = some r := by
  refine fix_isSome.mpr ?_
  by_cases h0 : q = 0
  · exact Or.inl h0
  · refine Or.inr fun hover => ?_
    have htwo := hover.mono (abs_pos.mpr h0) h
    exact absurd htwo (by decide +kernel)

/-- A share is rounded to at most two. -/
theorem fix_bounds {q r : ℚ} (h0 : 0 ≤ q) (h1 : q ≤ 1) (h : fix q = some r) : 0 ≤ r ∧ r ≤ 2 := by
  unfold fix at h
  split at h
  · rw [← Option.some.inj h]
    norm_num
  · next hne =>
    split at h
    · cases h
    · have hpos : 0 < q := lt_of_le_of_ne h0 (Ne.symm hne)
      have hr : roundHalfEven (q / unit q) * unit q = r := by
        simpa [abs_of_pos hpos, not_lt.mpr h0] using h
      have hu : 0 < unit q := zpow_pos (by norm_num) _
      have hlog : Int.log 10 q ≤ 0 := by
        have := Int.log_mono_right (b := 10) hpos h1
        simpa using this
      have hu1 : unit q ≤ 1 := by
        unfold unit
        have hexp : max (Int.log 10 q - ((precision : ℤ) - 1)) exponentTiny ≤ 0 := by
          refine max_le ?_ (by decide)
          have : (0 : ℤ) ≤ (precision : ℤ) - 1 := by decide
          omega
        exact zpow_le_one_of_nonpos₀ (by norm_num) hexp
      have hbounds := roundHalfEven_bounds (q / unit q)
      have hfloor : (0 : ℤ) ≤ ⌊q / unit q⌋ := Int.floor_nonneg.mpr (div_nonneg h0 hu.le)
      have hle : (roundHalfEven (q / unit q) : ℚ) ≤ q / unit q + 1 := by
        have h₁ : (roundHalfEven (q / unit q) : ℚ) ≤ ⌊q / unit q⌋ + 1 := by exact_mod_cast hbounds.2
        have h₂ := Int.floor_le (q / unit q)
        linarith
      have hnonneg : (0 : ℚ) ≤ roundHalfEven (q / unit q) := by
        exact_mod_cast le_trans hfloor hbounds.1
      rw [← hr]
      refine ⟨mul_nonneg hnonneg hu.le, ?_⟩
      calc roundHalfEven (q / unit q) * unit q
          ≤ (q / unit q + 1) * unit q := mul_le_mul_of_nonneg_right hle hu.le
        _ = q + unit q := by rw [add_mul, div_mul_cancel₀ _ hu.ne', one_mul]
        _ ≤ 2 := by linarith

example : div 2 3 = some (6666666666666666666666666667 / 10 ^ 28) := by decide +kernel

end Quantive.Decimal
