import Mathlib.Algebra.Order.Field.Basic
import Mathlib.Data.Real.Basic
import Mathlib.Tactic.Linarith
import Quantive.Candles.Promotion
import Quantive.WsSharding.Events

/-!
# Payload checks and the table constraint

The checks of `get_klines`, of the WebSocket `validate_candle_payload` and of
`_validate_candle_payload` on the five values of a candle, over any ordered field: they allow the
values to be out of order by `1e-9`, `ck_raw_1m_candles_ohlcv_valid` does not.
-/

namespace Quantive.Candles

structure Prices (K : Type) where
  «open» : K
  high : K
  low : K
  close : K
  volume : K

section
variable {K : Type} [Field K] [LinearOrder K] [IsStrictOrderedRing K]

/-- `1e-9` -/
def eps : K := 1 / 1000000000

def check (bad : Prop) [Decidable bad] (message : String) : Except String Unit :=
  if bad then .error message else .ok ()

theorem check_ok {bad : Prop} [Decidable bad] {message : String} :
    check bad message = .ok () ↔ ¬ bad := by
  by_cases h : bad <;> simp [check, h]

theorem check_bind_ok {bad : Prop} [Decidable bad] {message : String} {k : Except String Unit} :
    (do check bad message; k) = .ok () ↔ ¬ bad ∧ k = .ok () := by
  by_cases h : bad <;> simp [check, h, bind, Except.bind]

namespace Prices
variable (v : Prices K)

/-- The checks of `get_klines`, `binance.py:150-166`. -/
def klineChecks : Except String Unit := do
  check (v.open ≤ 0 ∨ v.high ≤ 0 ∨ v.low ≤ 0 ∨ v.close ≤ 0) "Price must be strictly positive (> 0)"
  check (v.volume < 0) "Volume cannot be negative"
  check (v.high < v.low - eps) "High price < Low price"
  check (v.open < v.low - eps ∨ v.high + eps < v.open) "Open price outside [low, high]"
  check (v.close < v.low - eps ∨ v.high + eps < v.close) "Close price outside [low, high]"

/-- The checks of `_validate_candle_payload`, `ingestion.py:478-495`. -/
def batchChecks : Except String Unit := do
  check (min (min (min v.open v.high) v.low) v.close ≤ 0) "Candle prices must be strictly positive"
  check (v.volume < 0) "Candle volume cannot be negative"
  check (v.high < v.low - eps) "Candle high cannot be lower than low"
  check (¬ (v.low - eps ≤ v.open ∧ v.open ≤ v.high + eps)) "Candle open must be within [low, high]"
  check (¬ (v.low - eps ≤ v.close ∧ v.close ≤ v.high + eps))
    "Candle close must be within [low, high]"

/-- `ck_raw_1m_candles_ohlcv_valid`, of finite values. -/
def Valid : Prop :=
  0 < v.open ∧ 0 < v.high ∧ 0 < v.low ∧ 0 < v.close ∧ 0 ≤ v.volume ∧ v.low ≤ v.high ∧
    v.low ≤ v.open ∧ v.open ≤ v.high ∧ v.low ≤ v.close ∧ v.close ≤ v.high

/-- The signs are right. -/
def Positive : Prop :=
  0 < v.open ∧ 0 < v.high ∧ 0 < v.low ∧ 0 < v.close ∧ 0 ≤ v.volume

/-- The least distance by which low, open, close and high are in order; negative when two of them
are out of order. -/
def slack : K :=
  min (v.high - v.low)
    (min (min (v.open - v.low) (v.high - v.open)) (min (v.close - v.low) (v.high - v.close)))

variable {v}

omit [IsStrictOrderedRing K] in
theorem le_slack_iff {t : K} : t ≤ v.slack ↔ t ≤ v.high - v.low ∧ (t ≤ v.open - v.low ∧
    t ≤ v.high - v.open) ∧ t ≤ v.close - v.low ∧ t ≤ v.high - v.close := by
  simp only [slack, le_min_iff]

theorem valid_iff : v.Valid ↔ v.Positive ∧ 0 ≤ v.slack := by
  rw [le_slack_iff]
  simp only [Valid, Positive, sub_nonneg]
  tauto

/-- The distances that a check with the tolerance lets through. -/
theorem tolerated_iff : -eps ≤ v.slack ↔ ¬ v.high < v.low - eps ∧
    ¬ (v.open < v.low - eps ∨ v.high + eps < v.open) ∧
      ¬ (v.close < v.low - eps ∨ v.high + eps < v.close) := by
  have hlow : ∀ x y : K, -eps ≤ x - y ↔ ¬ x < y - eps := fun x y => by
    rw [not_lt]
    constructor <;> intro h <;> linarith
  have hhigh : ∀ x y : K, -eps ≤ x - y ↔ ¬ x + eps < y := fun x y => by
    rw [not_lt]
    constructor <;> intro h <;> linarith
  rw [le_slack_iff, hlow v.high, hlow v.open, hhigh v.high v.open, hlow v.close,
    hhigh v.high v.close, not_or, not_or]

omit [IsStrictOrderedRing K] in
theorem positive_iff : v.Positive ↔
    ¬ (v.open ≤ 0 ∨ v.high ≤ 0 ∨ v.low ≤ 0 ∨ v.close ≤ 0) ∧ ¬ v.volume < 0 := by
  simp only [Positive, not_or, not_le, not_lt]
  tauto

theorem klineChecks_ok : v.klineChecks = .ok () ↔ v.Positive ∧ -eps ≤ v.slack := by
  rw [tolerated_iff, positive_iff, klineChecks]
  simp only [check_bind_ok, check_ok]
  tauto

theorem batchChecks_ok : v.batchChecks = .ok () ↔ v.Positive ∧ -eps ≤ v.slack := by
  rw [tolerated_iff, positive_iff, batchChecks]
  simp only [check_bind_ok, check_ok, min_le_iff, not_or, not_not, not_lt, not_le]
  tauto

end Prices

/-! ### The payloads -/

/-- An event of the WebSocket feed; `timestampAware` and `closeTimeAware` tell that the datetimes
have a timezone. -/
structure EventOf (K : Type) where
  interval : String
  timestamp : ℤ
  timestampAware : Bool
  closeTime : ℤ
  closeTimeAware : Bool
  values : Prices K
  isClosed : Bool

/-- `validate_candle_payload`, `pipeline.py:36-80`, of finite values. -/
def EventOf.validateCandlePayload (event : EventOf K) : Bool :=
  let v := event.values
  event.isClosed &&
  String.ofList ((strip event.interval.toList).map Char.toLower) = "1m" &&
  !(v.open ≤ 0 || v.high ≤ 0 || v.low ≤ 0 || v.close ≤ 0 || v.volume < 0) &&
  !(v.high < v.low - eps) &&
  !(v.open < v.low - eps || v.high + eps < v.open) &&
  !(v.close < v.low - eps || v.high + eps < v.close) &&
  event.timestampAware &&
  event.timestamp % minute = 0 &&
  (event.closeTimeAware && !(event.closeTime < event.timestamp))

/-- A candle of a batch, as a caller hands it over. -/
structure PayloadOf (K : Type) where
  assetId : Option ℕ := none
  timestamp : ℤ
  timestampAware : Bool
  values : Prices K
  source : Option String := none
  provenanceAware : Bool

/-- `_validate_candle_payload`, `ingestion.py:422-495`, of a payload with its five values. -/
def PayloadOf.validateCandlePayload (assetId : ℕ) (candle : PayloadOf K) : Except String Unit := do
  check (candle.timestampAware = false) "Candle timestamp must be timezone-aware"
  check (candle.timestamp % minute ≠ 0)
    "Raw 1m candle timestamps must align exactly to a UTC minute"
  check (candle.assetId.getD assetId ≠ assetId) "Candle asset_id does not match batch asset_id"
  check (strip (candle.source.getD "unknown").toList = [] ∨
      64 < (strip (candle.source.getD "unknown").toList).length)
    "Candle source must be a non-empty string of at most 64 characters"
  check (candle.provenanceAware = false)
    "Candle provenance must be a timezone-aware datetime when provided"
  candle.values.batchChecks

/-- One of the three checks accepts a candle with these values. -/
inductive Accepted (v : Prices K) : Prop
  | rest (h : v.klineChecks = .ok ())
  | event (e : EventOf K) (hv : e.values = v) (h : e.validateCandlePayload)
  | batch (assetId : ℕ) (candle : PayloadOf K) (hv : candle.values = v)
      (h : candle.validateCandlePayload assetId = .ok ())

theorem event_tolerated {e : EventOf K} (h : e.validateCandlePayload) :
    e.values.Positive ∧ -eps ≤ e.values.slack := by
  simp only [EventOf.validateCandlePayload, Bool.and_eq_true, Bool.not_eq_true',
    Bool.or_eq_false_iff, decide_eq_false_iff_not] at h
  rw [Prices.tolerated_iff, Prices.positive_iff]
  tauto

theorem accepted_iff {v : Prices K} : Accepted v ↔ v.Positive ∧ -eps ≤ v.slack := by
  constructor
  · intro h
    cases h with
    | rest h => exact Prices.klineChecks_ok.mp h
    | event e hv h =>
      subst hv
      exact event_tolerated h
    | batch assetId candle hv h =>
      subst hv
      simp only [PayloadOf.validateCandlePayload, check_bind_ok] at h
      exact Prices.batchChecks_ok.mp h.2.2.2.2.2
  · exact fun h => .rest (Prices.klineChecks_ok.mpr h)

/-- What is accepted satisfies the constraint, unless the values are out of order by the tolerance
at most. -/
theorem accepted_valid_iff (v : Prices K) :
    (Accepted v → v.Valid) ↔ (v.Positive → v.slack < -eps ∨ 0 ≤ v.slack) := by
  rw [accepted_iff, Prices.valid_iff]
  constructor
  · intro h hpositive
    by_cases hslack : v.slack < -eps
    · exact Or.inl hslack
    · exact Or.inr (h ⟨hpositive, not_lt.mp hslack⟩).2
  · rintro h ⟨hpositive, hslack⟩
    rcases h hpositive with hlt | hle
    · exact absurd hslack (not_le.mpr hlt)
    · exact ⟨hpositive, hle⟩

theorem ordered_candle_valid : (⟨1, 2, 1, 2, 0⟩ : Prices ℝ).Valid := by
  have hslack : 0 ≤ (⟨1, 2, 1, 2, 0⟩ : Prices ℝ).slack := by
    rw [Prices.le_slack_iff]
    norm_num
  refine (accepted_valid_iff _).mpr (fun _ => Or.inr hslack) (accepted_iff.mpr ⟨?_, ?_⟩)
  · norm_num [Prices.Positive]
  · exact le_trans (by norm_num [eps]) hslack

/-- The high of the candle is half a tolerance below its low. -/
theorem accepted_invalid : ¬ ∀ v : Prices ℝ, Accepted v → v.Valid := by
  intro hall
  have hrest : Accepted (⟨1, 1, 1 + 1 / 2000000000, 1, 0⟩ : Prices ℝ) := by
    rw [accepted_iff, Prices.le_slack_iff]
    norm_num [Prices.Positive, eps]
  have hvalid := hall _ hrest
  norm_num [Prices.Valid] at hvalid

end

/-! ### The rows of the store -/

def Ohlcv.prices (v : Ohlcv) : Prices ℚ := ⟨v.open, v.high, v.low, v.close, v.volume⟩

theorem throw_bind_ok {bad : Prop} [Decidable bad] {e : Failure} {j k : Except Failure Unit} :
    (if bad then (throw e : Except Failure PUnit) >>= fun _ => j else k) = .ok () ↔
      ¬ bad ∧ k = .ok () := by
  by_cases h : bad <;> simp [h, throw, throwThe, MonadExceptOf.throw, bind, Except.bind]

theorem throw_ok {bad : Prop} [Decidable bad] {e : Failure} :
    (if bad then throw e else pure () : Except Failure Unit) = .ok () ↔ ¬ bad := by
  by_cases h : bad <;> simp [h, throw, throwThe, MonadExceptOf.throw, pure, Except.pure]

theorem epsilon_eq : epsilon = eps := rfl

theorem checkOhlcv_ok_iff (v : Ohlcv) :
    checkOhlcv v = .ok () ↔ v.prices.Positive ∧ -eps ≤ v.prices.slack := by
  rw [Prices.tolerated_iff, Prices.positive_iff, checkOhlcv]
  simp only [throw_bind_ok, throw_ok]
  simp only [epsilon_eq, Ohlcv.prices, not_or, not_not, not_lt, not_le]
  tauto

theorem checkKline_ok_iff (v : Ohlcv) :
    checkKline v = .ok () ↔ v.prices.Positive ∧ -eps ≤ v.prices.slack := by
  rw [Prices.tolerated_iff, Prices.positive_iff, checkKline]
  simp only [throw_bind_ok, throw_ok]
  simp only [epsilon_eq, Ohlcv.prices]
  tauto

theorem prices_valid (v : Ohlcv) : v.prices.Valid ↔ v.Valid := Iff.rfl

def eventOf (e : WsSharding.CandleEvent) : EventOf ℚ :=
  ⟨e.interval, e.timestamp, true, e.closeTime, true, e.values.prices, e.isClosed⟩

theorem validate_eventOf (e : WsSharding.CandleEvent) :
    (eventOf e).validateCandlePayload = WsSharding.validateCandlePayload e := by
  rw [Bool.eq_iff_iff]
  simp only [EventOf.validateCandlePayload, WsSharding.validateCandlePayload, Bool.and_eq_true,
    Bool.not_eq_true', Bool.or_eq_false_iff, decide_eq_true_eq, decide_eq_false_iff_not]
  simp only [eventOf, Ohlcv.prices, epsilon_eq, and_true, true_and]

theorem payloadValues_checked {p : CandlePayload} {v : Ohlcv} (h : payloadValues p = .ok (some v)) :
    checkOhlcv v = .ok () := by
  unfold payloadValues at h
  split at h
  · cases h
  · rename_i o high low close volume _ _ _ _ _
    cases hcheck : checkOhlcv ⟨o, high, low, close, volume⟩ with
    | error e =>
      rw [hcheck] at h
      cases h
    | ok u =>
      rw [hcheck] at h
      cases h
      exact hcheck
  · cases h

/-- A candle that the batch check let through violates the constraint exactly when its values are
out of order. -/
theorem validated_excluded_isSome {assetId : ℕ} {now : ℤ} {p : CandlePayload} {c : Candle}
    {v : Ohlcv} (h : validateCandlePayload assetId now p = .ok c) (hv : c.values = some v) :
    c.excluded.isSome ↔ 0 ≤ v.prices.slack := by
  have hvalues := (validateCandlePayload_ok h).2.2.2.2.1
  rw [hv] at hvalues
  have hpositive := ((checkOhlcv_ok_iff v).mp (payloadValues_checked hvalues)).1
  have hvalid : v.Valid ↔ 0 ≤ v.prices.slack := by
    rw [← prices_valid, Prices.valid_iff]
    exact and_iff_right hpositive
  rw [← hvalid, Candle.excluded, hv]
  by_cases hv' : v.Valid <;> simp [hv']

end Quantive.Candles
