import Mathlib.Algebra.Order.Ring.Int

/-!
# Instants

A timezone-aware datetime is the number of microseconds since 1970-01-01 UTC, the
resolution of Python datetimes and of PostgreSQL `timestamptz`.
-/

namespace Quantive

def microsecond : ℤ := 1
def millisecond : ℤ := 1000
def second : ℤ := 1000000
def minute : ℤ := 60 * second
def hour : ℤ := 60 * minute
def day : ℤ := 24 * hour

/-- `int(dt.timestamp() * 1000)`, for the instants after the epoch. -/
def milliseconds (t : ℤ) : ℤ := t / millisecond

/-- `date_trunc` to buckets of the given width. -/
def floorTo (width t : ℤ) : ℤ := t - t % width

theorem minute_pos : 0 < minute := by decide

@[simp] theorem minute_eq : minute = 60000000 := rfl

theorem floorTo_le {width t : ℤ} (h : 0 < width) : floorTo width t ≤ t := by
  have := Int.emod_nonneg t (Int.ne_of_gt h)
  unfold floorTo
  omega

theorem lt_floorTo_add {width t : ℤ} (h : 0 < width) : t < floorTo width t + width := by
  have := Int.emod_lt_of_pos t h
  unfold floorTo
  omega

end Quantive
