import Quantive.Backtests.ColumnRules
import Quantive.Backtests.Identity

/-!
# Validated values

What the contract promises of the trades, the signals and the metrics that it accepts.
-/

namespace Quantive.Backtests
open Decimal (fix unit precision exponentTiny fix_bounds)

/-- A field of the contract: rounded in the context, with few digits, and within its bounds before. -/
theorem decimalField_ok {s : ℕ} {bounds : List Bound} {fieldName : String} {x : PyDecimal} {n : Dec}
    (h : decimalField s bounds fieldName x = .ok n) :
    ∃ d : Dec, (∀ b ∈ bounds, b.excludes d.value = false) ∧ fix d.value = some n.value ∧
      FewDigits 24 s n.value := by
  cases x with
  | nonFinite => cases h
  | finite d =>
    obtain ⟨⟨⟩, hbounds, h⟩ := bind_eq_ok_iff.mp h
    refine ⟨d, refuseFirst_eq_ok_iff.mp hbounds, ?_⟩
    split at h
    · rename_i m hm
      cases h
      exact (normalizeDecimal_ok_iff (by decide)).mp ⟨n, hm, rfl⟩
    · cases h
    · cases h

theorem FewDigits.places {p s : ℕ} {q : ℚ} (h : FewDigits p s q) : Places s q := by
  obtain ⟨f, hf, -, ⟨z, hz⟩, -⟩ := h
  refine ⟨z * 10 ^ (s - f), ?_⟩
  push_cast
  rw [← hz, mul_assoc, ← pow_add, Nat.add_sub_cancel' hf]

theorem decimalField_places {s : ℕ} {bounds : List Bound} {fieldName : String} {x : PyDecimal} {n : Dec}
    (h : decimalField s bounds fieldName x = .ok n) : Places s n.value := by
  obtain ⟨d, -, -, hfew⟩ := decimalField_ok h
  exact hfew.places

theorem decimalField_nonneg {s : ℕ} {bounds : List Bound} {fieldName : String} {x : PyDecimal} {n : Dec}
    (h : decimalField s bounds fieldName x = .ok n) (hge : .ge 0 ∈ bounds) : 0 ≤ n.value := by
  obtain ⟨d, hbounds, hfix, -⟩ := decimalField_ok h
  have hpos : 0 ≤ d.value := by simpa [Bound.excludes] using hbounds _ hge
  exact fix_nonneg hpos hfix

/-- A share stays one: what the context rounds it by is less than its last place. -/
theorem decimalField_le_one {s : ℕ} (hs : s ≤ 12) {bounds : List Bound} {fieldName : String}
    {x : PyDecimal} {n : Dec} (h : decimalField s bounds fieldName x = .ok n) (hge : .ge 0 ∈ bounds)
    (hle : .le 1 ∈ bounds) : n.value ≤ 1 := by
  obtain ⟨d, hbounds, hfix, hfew⟩ := decimalField_ok h
  have hpos : 0 ≤ d.value := by simpa [Bound.excludes] using hbounds _ hge
  have hone : d.value ≤ 1 := by simpa [Bound.excludes] using hbounds _ hle
  by_contra hlarge
  obtain ⟨z, hz⟩ := hfew.places
  have hten : (0 : ℚ) < 10 ^ s := by positivity
  -- one unit of the last place above one
  have hstep : (1 : ℚ) + (10 ^ s)⁻¹ ≤ n.value := by
    have hzlt : ((10 ^ s : ℤ) : ℚ) < z := by
      rw [← hz]
      push_cast
      nlinarith
    have hzle : ((10 ^ s : ℤ) : ℚ) + 1 ≤ z := by exact_mod_cast hzlt
    rw [← mul_le_mul_iff_of_pos_right hten, hz, add_mul, one_mul, inv_mul_cancel₀ hten.ne']
    push_cast at hzle
    exact hzle
  have hlast : ((10 : ℚ) ^ 12)⁻¹ ≤ (10 ^ s)⁻¹ :=
    inv_anti₀ hten (pow_le_pow_right₀ (by norm_num) hs)
  rcases hpos.eq_or_lt with hzero | hpos'
  · rw [← hzero] at hfix
    have hvalue : n.value = 0 := (Option.some.inj hfix).symm
    rw [hvalue] at hlarge
    norm_num at hlarge
  · have herror := abs_le.mp (fix_error hfix)
    have hunit : unit |d.value| ≤ (10 : ℚ) ^ (-27 : ℤ) := by
      rw [abs_of_pos hpos']
      have hlog : Int.log 10 d.value ≤ 0 := by
        have hmono := Int.log_mono_right (b := 10) hpos' hone
        simpa using hmono
      refine zpow_le_zpow_right₀ (by norm_num) (max_le ?_ (by decide))
      have hprecision : (precision : ℤ) = 28 := rfl
      omega
    norm_num at hunit hlast
    linarith [herror.2]

theorem checkLength_iff {maxLength : ℕ} {s : String} {u : Unit} :
    checkLength maxLength s = .ok u ↔ s ≠ "" ∧ s.length ≤ maxLength := by
  unfold checkLength
  simp only [bind_eq_ok_iff, refuse_eq_ok_iff, exists_const, not_lt, ne_eq]

theorem strip_length (s : String) : (Strategies.strip s).length ≤ s.length := by
  have hdrop (cs : List Char) : (cs.dropWhile Candles.isSpace).length ≤ cs.length :=
    (List.dropWhile_sublist _).length_le
  unfold Strategies.strip Candles.strip
  rw [String.length_ofList, List.length_reverse, ← String.length_toList]
  refine (hdrop _).trans ?_
  rw [List.length_reverse]
  exact hdrop _

theorem textField_length {maxLength : ℕ} {blank s t : String} (h : textField maxLength blank s = .ok t) :
    t.length ≤ maxLength := by
  unfold textField at h
  simp only [bind_eq_ok_iff] at h
  obtain ⟨_, hlength, _, -, h⟩ := h
  cases h
  exact (strip_length s).trans (checkLength_iff.mp hlength).2

theorem optionalField_some {α β : Type} {field : α → Except InputError β} {o : Option α} {p : Option β}
    (h : optionalField field o = .ok p) : ∀ b ∈ p, ∃ a, field a = .ok b := by
  cases o with
  | none =>
    cases h
    exact fun b hb => by cases hb
  | some a =>
    change (field a).map some = .ok p at h
    cases hfield : field a with
    | error e =>
      rw [hfield] at h
      cases h
    | ok b =>
      rw [hfield] at h
      cases h
      intro b' hb'
      cases hb'
      exact ⟨a, hfield⟩

def Trade.amounts (t : Trade) : List Dec :=
  [t.entryPrice, t.exitPrice, t.quantity, t.grossPnl, t.netPnl, t.feesPaid, t.slippagePaid]

structure Trade.Validated (t : Trade) : Prop where
  sequence : 1 ≤ t.sequence
  asset : 0 < t.assetId
  direction : t.direction ≠ .flat
  timeline : t.entryTime ≤ t.exitTime
  places : ∀ d ∈ t.amounts, Places 8 d.value
  costs : 0 ≤ t.feesPaid.value ∧ 0 ≤ t.slippagePaid.value

theorem intField_bounds {bounds : List Bound} {n m : ℤ} (h : intField bounds n = .ok m) :
    ∀ b ∈ bounds, b.excludes (m : ℚ) = false := by
  obtain ⟨⟨⟩, hbounds, h⟩ := bind_eq_ok_iff.mp h
  cases h
  exact refuseFirst_eq_ok_iff.mp hbounds

theorem intField_ge {k n m : ℤ} (h : intField [.ge k] n = .ok m) : k ≤ m := by
  have hbound := intField_bounds h _ List.mem_cons_self
  simpa [Bound.excludes] using hbound

theorem intField_gt {k n m : ℤ} (h : intField [.gt k] n = .ok m) : k < m := by
  have hbound := intField_bounds h _ List.mem_cons_self
  simpa [Bound.excludes] using hbound

theorem SubmittedTrade.validate_ok {t : SubmittedTrade} {u : Trade} (h : t.validate = .ok u) :
    u.Validated := by
  unfold SubmittedTrade.validate at h
  simp only [bind_eq_ok_iff, refuse_eq_ok_iff] at h
  obtain ⟨_, hsequence, _, hasset, _, hdirection, _, -, _, -, _, hentry, _, hexit, _, hquantity, _, hgross,
    _, hnet, _, hfees, _, hslippage, _, -, _, -, _, -, _, htimeline, h⟩ := h
  cases h
  refine ⟨intField_ge hsequence, intField_gt hasset, hdirection, not_lt.mp htimeline, fun d hd => ?_,
    decimalField_nonneg hfees List.mem_cons_self, decimalField_nonneg hslippage List.mem_cons_self⟩
  simp only [Trade.amounts, List.mem_cons, List.not_mem_nil, or_false] at hd
  rcases hd with rfl | rfl | rfl | rfl | rfl | rfl | rfl
  · exact decimalField_places hentry
  · exact decimalField_places hexit
  · exact decimalField_places hquantity
  · exact decimalField_places hgross
  · exact decimalField_places hnet
  · exact decimalField_places hfees
  · exact decimalField_places hslippage

structure Signal.Validated (s : Signal) : Prop where
  sequence : 1 ≤ s.sequence
  asset : 0 < s.assetId
  observed : s.eventTime ≤ s.observedAt

theorem SubmittedSignal.validate_ok {s : SubmittedSignal} {u : Signal} (h : s.validate = .ok u) :
    u.Validated := by
  unfold SubmittedSignal.validate Signal.validateShape at h
  simp only [bind_eq_ok_iff, refuse_eq_ok_iff] at h
  obtain ⟨_, hsequence, _, hasset, _, -, _, -, _, -, _, -, _, ⟨_, hobserved, -⟩, h⟩ := h
  cases h
  exact ⟨intField_ge hsequence, intField_gt hasset, not_lt.mp hobserved⟩

def BacktestMetrics.ratios (m : BacktestMetrics Dec) : List Dec :=
  m.totalReturn.toList ++ m.maxDrawdown.toList ++ m.annualizedVolatility.toList ++ m.sharpeRatio.toList ++
    m.sortinoRatio.toList ++ m.calmarRatio.toList ++ m.valueAtRisk.toList ++ [m.exposure] ++
    m.benchmarkReturn.toList ++ m.benchmarkExcessReturn.toList

structure BacktestMetrics.Validated (m : BacktestMetrics Dec) : Prop where
  ratios : ∀ d ∈ m.ratios, Places 12 d.value
  costPlaces : Places 8 m.feesPaid.value ∧ Places 8 m.slippagePaid.value
  exposure : 0 ≤ m.exposure.value ∧ m.exposure.value ≤ 1
  drawdown : ∀ d ∈ m.maxDrawdown, 0 ≤ d.value ∧ d.value ≤ 1
  counts : 0 ≤ m.tradeCount ∧ 0 ≤ m.winningTradeCount ∧ 0 ≤ m.losingTradeCount ∧ 0 ≤ m.breakevenTradeCount
  total : m.winningTradeCount + m.losingTradeCount + m.breakevenTradeCount = m.tradeCount
  costs : 0 ≤ m.feesPaid.value ∧ 0 ≤ m.slippagePaid.value

theorem optionalField_places {s : ℕ} {bounds : List Bound} {fieldName : String} {o : Option PyDecimal}
    {p : Option Dec} (h : optionalField (decimalField s bounds fieldName) o = .ok p) :
    ∀ d ∈ p, Places s d.value := by
  intro d hd
  obtain ⟨x, hx⟩ := optionalField_some h d hd
  exact decimalField_places hx

theorem BacktestMetrics.validate_ok {m : BacktestMetrics PyDecimal} {n : BacktestMetrics Dec}
    (h : m.validate = .ok n) : n.Validated := by
  unfold BacktestMetrics.validate at h
  simp only [bind_eq_ok_iff, refuse_eq_ok_iff] at h
  obtain ⟨_, htotal, _, hdrawdown, _, hvolatility, _, hsharpe, _, hsortino, _, hcalmar, _, hrisk, _,
    hexposure, _, hbenchmark, _, hexcess, _, htrades, _, hwinning, _, hlosing, _, hbreakeven, _, hfees, _,
    hslippage, _, hsum, h⟩ := h
  cases h
  refine ⟨?_, ⟨decimalField_places hfees, decimalField_places hslippage⟩,
    ⟨decimalField_nonneg hexposure List.mem_cons_self, decimalField_le_one (by decide) hexposure
      List.mem_cons_self (List.mem_cons_of_mem _ List.mem_cons_self)⟩, fun d hd => ?_,
    ⟨intField_ge htrades, intField_ge hwinning, intField_ge hlosing, intField_ge hbreakeven⟩,
    not_not.mp hsum, decimalField_nonneg hfees List.mem_cons_self,
    decimalField_nonneg hslippage List.mem_cons_self⟩
  · simp only [BacktestMetrics.ratios, List.forall_mem_append, Option.mem_toList, List.forall_mem_singleton]
    exact ⟨⟨⟨⟨⟨⟨⟨⟨⟨optionalField_places htotal, optionalField_places hdrawdown⟩,
      optionalField_places hvolatility⟩, optionalField_places hsharpe⟩, optionalField_places hsortino⟩,
      optionalField_places hcalmar⟩, optionalField_places hrisk⟩, decimalField_places hexposure⟩,
      optionalField_places hbenchmark⟩, optionalField_places hexcess⟩
  · obtain ⟨x, hx⟩ := optionalField_some hdrawdown d hd
    exact ⟨decimalField_nonneg hx List.mem_cons_self, decimalField_le_one (by decide) hx
      List.mem_cons_self (List.mem_cons_of_mem _ List.mem_cons_self)⟩

end Quantive.Backtests
