import Mathlib.Data.List.Nodup
import Quantive.ReadCommitted.Alone
import Quantive.Candles.Schema

/-!
# The exchange

What the klines endpoint answers: every listed minute of the request that has begun, the one in
progress included, in order and up to the limit.
-/

namespace Quantive.Candles
open Quantive.ReadCommitted Prog

/-- What the kline of a minute (in milliseconds) shows at an instant; `none`: no kline. -/
abbrev Market := ℤ → ℤ → Option Ohlcv

def minuteMs : ℤ := 60000

/-- The first minute at or after `t`. -/
def firstMinute (t : ℤ) : ℤ := -(-t / minuteMs) * minuteMs

/-- The minutes of `[start, stop]` in order. -/
def minutesIn (start stop : ℤ) : List ℤ :=
  (List.range ((stop - firstMinute start) / minuteMs + 1).toNat).map fun (i : ℕ) =>
    firstMinute start + minuteMs * i

def Market.kline (market : Market) (instant openTime : ℤ) : Option Kline :=
  (market instant openTime).map fun v => ⟨openTime, v, some (openTime + minuteMs - 1)⟩

/-- The klines of a request answered at an instant: those whose minute has begun. -/
def Market.served (market : Market) (instant : ℤ) (request : KlinesRequest) : List Kline :=
  ((minutesIn request.startTime (min request.endTime (milliseconds instant))).filterMap
    (market.kline instant)).take request.limit

/-- A request is answered with its klines or fails. -/
def Market.Answers (market : Market) (instant : ℤ) (request : KlinesRequest) :
    KlinesResponse → Prop
  | .klines elements => elements = (market.served instant request).map some
  | .notList => False
  | .raised _ => True

theorem mem_minutesIn {start stop t : ℤ} :
    t ∈ minutesIn start stop ↔ start ≤ t ∧ t ≤ stop ∧ t % minuteMs = 0 := by
  unfold minutesIn firstMinute minuteMs
  rw [List.mem_map]
  constructor
  · rintro ⟨i, hi, rfl⟩
    have hlt := List.mem_range.mp hi
    refine ⟨?_, ?_, ?_⟩ <;> omega
  · rintro ⟨hlow, hhigh, hmod⟩
    refine ⟨((t - -(-start / 60000) * 60000) / 60000).toNat, List.mem_range.mpr ?_, ?_⟩ <;> omega

theorem minutesIn_nodup (start stop : ℤ) : (minutesIn start stop).Nodup := by
  refine List.nodup_range.map fun i j h => ?_
  simp only [minuteMs] at h
  omega

/-- Surroundings in which nothing fails: the `n`-th question is asked at `clock n`. -/
def undisturbed (market : Market) (clock : ℕ → ℤ) : ℕ → (q : Question) → Answer q
  | n, .now => clock n
  | _, .fault => (none : Option Failure)
  | _, .ownershipLost => false
  | n, .klines request => KlinesResponse.klines ((market.served (clock n) request).map some)

end Quantive.Candles
