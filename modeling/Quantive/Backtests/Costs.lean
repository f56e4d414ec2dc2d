import Mathlib.Algebra.Order.BigOperators.Group.List
import Quantive.Backtests.Results

/-!
# Sums of costs

`sum` over the costs of trades, whose additions round to 28 digits. Below `10 ^ 16`, the bound of the
columns, nothing is rounded and the order does not matter.
-/

namespace Quantive.Backtests
open Decimal (fix Overflows unit precision exponentTiny roundHalfEven)
open Strategies (JsonObject)

/-- Rounding does not cross a power of ten. -/
theorem pow_le_fix {k : ℕ} {q r : ℚ} (hq : 10 ^ k ≤ q) (h : fix q = some r) : 10 ^ k ≤ r := by
  have hpos : 0 < q := lt_of_lt_of_le (by positivity) hq
  have hunit : 0 < unit q := zpow_pos (by norm_num) _
  have hlog : (k : ℤ) ≤ Int.log 10 q := by
    refine (Int.zpow_le_iff_le_log (by norm_num) hpos).mp ?_
    exact_mod_cast hq
  have hself : (10 : ℚ) ^ Int.log 10 q ≤ q := by
    have hpow := Int.zpow_log_le_self (b := 10) (by norm_num) hpos
    exact_mod_cast hpow
  have htop : ((10 ^ 27 : ℤ) : ℚ) * unit q = 10 ^ Int.log 10 q := by
    have htiny : exponentTiny ≤ Int.log 10 q - (precision - 1) := by
      have hprecision : precision = 28 := rfl
      have hexponent : exponentTiny = -1000026 := rfl
      omega
    have hcast : ((10 ^ 27 : ℤ) : ℚ) = 10 ^ (27 : ℤ) := by norm_num
    unfold unit
    rw [max_eq_left htiny, hcast, ← zpow_add₀ (by norm_num)]
    congr 1
    have hprecision : precision = 28 := rfl
    omega
  have hround : (10 ^ 27 : ℤ) ≤ roundHalfEven (q / unit q) := by
    rw [← roundHalfEven_int (10 ^ 27)]
    refine Decimal.roundHalfEven_mono ?_
    rw [le_div_iff₀ hunit, htop]
    exact hself
  unfold fix at h
  rw [if_neg hpos.ne', abs_of_pos hpos] at h
  split at h
  · cases h
  · obtain rfl := Option.some.inj h
    rw [if_neg (not_lt.mpr hpos.le), one_mul]
    calc (10 : ℚ) ^ k = 10 ^ (k : ℤ) := (zpow_natCast _ _).symm
      _ ≤ 10 ^ Int.log 10 q := zpow_le_zpow_right₀ (by norm_num) hlog
      _ = ((10 ^ 27 : ℤ) : ℚ) * unit q := htop.symm
      _ ≤ roundHalfEven (q / unit q) * unit q := by
        refine mul_le_mul_of_nonneg_right ?_ hunit.le
        exact_mod_cast hround

theorem fix_nonneg {q r : ℚ} (hq : 0 ≤ q) (h : fix q = some r) : 0 ≤ r := by
  have hunit : 0 < unit |q| := zpow_pos (by norm_num) _
  unfold fix at h
  split at h
  · cases h
    exact le_rfl
  · split at h
    · cases h
    · obtain rfl := Option.some.inj h
      have hround := roundHalfEven_nonneg (div_nonneg (abs_nonneg q) hunit.le)
      rw [if_neg (not_lt.mpr hq), one_mul]
      exact mul_nonneg (by exact_mod_cast hround) hunit.le
/-- A multiple of the last digit of a column. -/
def WholeUnits (q : ℚ) : Prop := ∃ z : ℤ, q * 10 ^ 8 = z

theorem WholeUnits.add {p q : ℚ} (hp : WholeUnits p) (hq : WholeUnits q) : WholeUnits (p + q) := by
  obtain ⟨y, hy⟩ := hp
  obtain ⟨z, hz⟩ := hq
  exact ⟨y + z, by rw [add_mul, hy, hz, Int.cast_add]⟩

/-- A sum within a column is not rounded. -/
theorem fix_wholeUnits {q : ℚ} (h : WholeUnits q) (h0 : 0 ≤ q) (hlt : q < 10 ^ 16) : fix q = some q := by
  have hfew : FewDigits 24 8 q := by
    refine ⟨8, le_rfl, by decide, h, ?_⟩
    rwa [abs_of_nonneg h0]
  refine (fix_eq_iff (by decide) hfew).mpr ?_
  have hunit : (0 : ℚ) < unit |q| := zpow_pos (by norm_num) _
  rw [sub_self, abs_zero]
  linarith

/-- A cost: what `fees_paid` and `slippage_paid` of a trade hold. -/
def Cost (d : Dec) : Prop := 0 ≤ d.value ∧ WholeUnits d.value

/-- The running total of `decimalSum`. -/
def addAll (amounts : List Dec) (total : ℚ) : Option ℚ :=
  amounts.foldlM (fun total amount => fix (total + amount.value)) total

theorem addAll_cons (amount : Dec) (amounts : List Dec) (total : ℚ) :
    addAll (amount :: amounts) total = (fix (total + amount.value)).bind (addAll amounts) := rfl

section
variable {amounts amounts' : List Dec} {total sum : ℚ}

theorem addAll_exact (hcosts : ∀ d ∈ amounts, Cost d) (h0 : 0 ≤ total) (hunits : WholeUnits total)
    (hlt : total + (amounts.map Dec.value).sum < 10 ^ 16) :
    addAll amounts total = some (total + (amounts.map Dec.value).sum) := by
  induction amounts generalizing total with
  | nil => simp [addAll]
  | cons d amounts ih =>
    obtain ⟨hd, hcosts⟩ := List.forall_mem_cons.mp hcosts
    have hrest : 0 ≤ (amounts.map Dec.value).sum :=
      List.sum_nonneg (List.forall_mem_map.mpr fun c hc => (hcosts c hc).1)
    rw [List.map_cons, List.sum_cons, ← add_assoc] at hlt ⊢
    have hnext := add_nonneg h0 hd.1
    have hnext' := hunits.add hd.2
    rw [addAll_cons, fix_wholeUnits hnext' hnext (by linarith), Option.bind_some]
    exact ih hcosts hnext hnext' hlt

/-- A total past the bound stays past it. -/
theorem addAll_large (hcosts : ∀ d ∈ amounts, Cost d) (hlarge : 10 ^ 16 ≤ total)
    (h : addAll amounts total = some sum) : 10 ^ 16 ≤ sum := by
  induction amounts generalizing total with
  | nil =>
    cases h
    exact hlarge
  | cons d amounts ih =>
    obtain ⟨hd, hcosts⟩ := List.forall_mem_cons.mp hcosts
    rw [addAll_cons] at h
    obtain ⟨next, hnext, h⟩ := Option.bind_eq_some_iff.mp h
    exact ih hcosts (pow_le_fix (by linarith [hd.1]) hnext) h

theorem addAll_small (hcosts : ∀ d ∈ amounts, Cost d) (h0 : 0 ≤ total) (hunits : WholeUnits total)
    (h : addAll amounts total = some sum) (hlt : sum < 10 ^ 16) :
    total + (amounts.map Dec.value).sum < 10 ^ 16 := by
  induction amounts generalizing total with
  | nil =>
    cases h
    simpa using hlt
  | cons d amounts ih =>
    obtain ⟨hd, hcosts⟩ := List.forall_mem_cons.mp hcosts
    rw [addAll_cons] at h
    obtain ⟨next, hnext, h⟩ := Option.bind_eq_some_iff.mp h
    have hsmall : total + d.value < 10 ^ 16 := by
      by_contra hlarge
      exact absurd (addAll_large hcosts (pow_le_fix (not_lt.mp hlarge) hnext) h) (not_le.mpr hlt)
    have hwhole := hunits.add hd.2
    have hpos := add_nonneg h0 hd.1
    rw [fix_wholeUnits hwhole hpos hsmall] at hnext
    cases hnext
    rw [List.map_cons, List.sum_cons, ← add_assoc]
    exact ih hcosts hpos hwhole h

/-- Costs whose sum fits a column add up to it in every order. -/
theorem decimalSum_perm (hcosts : ∀ d ∈ amounts, Cost d) (hperm : amounts.Perm amounts')
    (h : decimalSum amounts = .ok sum) (hlt : sum < 10 ^ 16) : decimalSum amounts' = .ok sum := by
  have hsum : ∀ {ds : List Dec} {q : ℚ}, decimalSum ds = .ok q ↔ addAll ds 0 = some q := by
    intro ds q
    unfold decimalSum addAll
    cases ds.foldlM (fun total amount => fix (total + amount.value)) 0 with
    | none => simp
    | some total => simp
  have hzero : WholeUnits 0 := ⟨0, by norm_num⟩
  rw [hsum] at h ⊢
  have hsmall := addAll_small hcosts le_rfl hzero h hlt
  have hexact := addAll_exact hcosts le_rfl hzero hsmall
  have hsame : (amounts.map Dec.value).sum = (amounts'.map Dec.value).sum := (hperm.map _).sum_eq
  rw [hsame] at hsmall hexact
  rw [← h, hexact]
  exact addAll_exact (fun d hd => hcosts d (hperm.symm.subset hd)) le_rfl hzero hsmall

end

end Quantive.Backtests
