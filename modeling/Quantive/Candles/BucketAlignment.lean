import Quantive.Candles.CaggRefresh

/-!
# Bucket alignment

`compute_cagg_bucket_alignment` returns the least window of whole buckets around the instants that
it is given.
-/

namespace Quantive.Candles

/-- The timeframe that names an aggregate. -/
def Cagg.timeframe : Cagg → String
  | .candles5m => "5m"
  | .candles15m => "15m"
  | .candles1h => "1h"
  | .candles4h => "4h"
  | .candles1d => "1d"

/-- The width of the buckets of an aggregate, which begin at multiples of it. -/
def Cagg.width : Cagg → ℤ
  | .candles5m => 5 * minute
  | .candles15m => 15 * minute
  | .candles1h => hour
  | .candles4h => 4 * hour
  | .candles1d => day

theorem Cagg.width_pos (g : Cagg) : 0 < g.width := by cases g <;> decide

theorem bucketWidth_timeframe (g : Cagg) : bucketWidth (some g.timeframe) = g.width := by
  cases g <;> decide

/-- A day is a whole number of buckets of every aggregate. -/
theorem Cagg.width_dvd_day (g : Cagg) : g.width ∣ day := by cases g <;> decide

/-- The instants of a window, with or without its end. -/
def InWindow (a b : ℤ) (endInclusive : Bool) (t : ℤ) : Prop :=
  a ≤ t ∧ if endInclusive then t ≤ b else t < b

/-- Both bounds are bucket boundaries. -/
def Aligned (width : ℤ) (w : ℤ × ℤ) : Prop := width ∣ w.1 ∧ width ∣ w.2

/-- The whole bucket of an instant lies in a window. -/
def HoldsBucket (width t : ℤ) (w : ℤ × ℤ) : Prop :=
  w.1 ≤ floorTo width t ∧ floorTo width t + width ≤ w.2

def Holds (w : ℤ × ℤ) (t : ℤ) : Prop := w.1 ≤ t ∧ t < w.2

/-- The first instant behind a window. -/
def behind (b : ℤ) (endInclusive : Bool) : ℤ := if endInclusive then b + 1 else b

theorem inWindow_iff {a b t : ℤ} {endInclusive : Bool} :
    InWindow a b endInclusive t ↔ a ≤ t ∧ t < behind b endInclusive := by
  unfold InWindow behind
  cases endInclusive
  · exact Iff.rfl
  · simp only [if_true, Int.lt_add_one_iff]

section
variable {width : ℤ}

theorem dvd_floorTo (t : ℤ) : width ∣ floorTo width t := Int.dvd_self_sub_emod

/-- Two boundaries in a row are a whole width apart. -/
theorem add_le_of_dvd {r s : ℤ} (hr : width ∣ r) (hs : width ∣ s) (h : r < s) : r + width ≤ s := by
  have hdvd : width ∣ s - r := Int.dvd_sub hs hr
  have hle := Int.le_of_dvd (by omega) hdvd
  omega

/-- The last boundary up to an instant. -/
theorem le_floorTo (hwidth : 0 < width) {s t : ℤ} (hs : width ∣ s) (h : s ≤ t) :
    s ≤ floorTo width t := by
  have hnext := lt_floorTo_add (t := t) hwidth
  by_contra hlt
  have hle := add_le_of_dvd (dvd_floorTo t) hs (not_le.mp hlt)
  omega

/-- The end as the function aligns it. -/
def ceilTo (width t : ℤ) : ℤ :=
  if floorTo width t < t then floorTo width t + width else floorTo width t

theorem dvd_ceilTo (t : ℤ) : width ∣ ceilTo width t := by
  unfold ceilTo
  split
  · exact Int.dvd_add (dvd_floorTo t) (Int.dvd_refl width)
  · exact dvd_floorTo t

/-- An aligned bound is behind an instant exactly when the bucket of the instant ends before it. -/
theorem floorTo_add_le_iff (hwidth : 0 < width) {s t : ℤ} (hs : width ∣ s) :
    floorTo width t + width ≤ s ↔ t < s := by
  constructor
  · exact fun h => lt_of_lt_of_le (lt_floorTo_add hwidth) h
  · intro h
    have hfloor := floorTo_le (t := t) hwidth
    exact add_le_of_dvd (dvd_floorTo t) hs (by omega)

theorem le_ceilTo (hwidth : 0 < width) (t : ℤ) : t ≤ ceilTo width t := by
  have hbelow := lt_floorTo_add (t := t) hwidth
  unfold ceilTo
  split <;> omega

/-- The first boundary from an instant on. -/
theorem ceilTo_le (hwidth : 0 < width) {s t : ℤ} (hs : width ∣ s) (h : t ≤ s) :
    ceilTo width t ≤ s := by
  have hfloor := floorTo_le (t := t) hwidth
  unfold ceilTo
  split
  · rename_i hlt
    rcases h.lt_or_eq with hbefore | rfl
    · exact (floorTo_add_le_iff hwidth hs).mpr hbefore
    · exact absurd (le_floorTo hwidth hs le_rfl) (not_le.mpr hlt)
  · omega

/-- The bounds that the function returns are those of the least aligned window. -/
theorem aligned_least (hwidth : 0 < width) {a b : ℤ} (hlt : a < b) :
    Aligned width (floorTo width a, ceilTo width b) ∧
    (∀ t, a ≤ t → t < b → HoldsBucket width t (floorTo width a, ceilTo width b)) ∧
    ∀ w, Aligned width w → (∀ t, a ≤ t → t < b → Holds w t) →
      w.1 ≤ floorTo width a ∧ ceilTo width b ≤ w.2 := by
  refine ⟨⟨dvd_floorTo a, dvd_ceilTo b⟩, fun t ha hb => ⟨?_, ?_⟩, fun w hw hholds => ⟨?_, ?_⟩⟩
  · exact le_floorTo hwidth (dvd_floorTo a) ((floorTo_le hwidth).trans ha)
  · exact (floorTo_add_le_iff hwidth (dvd_ceilTo b)).mpr (lt_of_lt_of_le hb (le_ceilTo hwidth b))
  · exact le_floorTo hwidth hw.1 (hholds a le_rfl hlt).1
  · have hlast := (hholds (b - 1) (by omega) (by omega)).2
    exact ceilTo_le hwidth hw.2 (by omega)

end

/-- What the function returns of a window that it accepts. -/
theorem computeCaggBucketAlignment_eq {a b : ℤ} {timeframe : Option String} {endInclusive : Bool}
    (hvalid : a < behind b endInclusive) :
    computeCaggBucketAlignment a b timeframe endInclusive =
      .ok (floorTo (bucketWidth timeframe) a,
        ceilTo (bucketWidth timeframe) (behind b endInclusive)) := by
  unfold computeCaggBucketAlignment
  unfold behind at hvalid ⊢
  cases endInclusive
  · rw [if_neg Bool.false_ne_true] at hvalid
    rw [if_neg Bool.false_ne_true, if_neg (not_le.mpr hvalid)]
    rfl
  · rw [if_pos rfl] at hvalid
    have hle : ¬ b < a := by omega
    rw [if_pos rfl, if_neg hle]
    rfl

/-- Of a valid window the function returns the least window on the boundaries of a timeframe that
holds the whole bucket of every instant; without a timeframe, of all aggregates at once. -/
theorem alignment_least {a b : ℤ} {endInclusive : Bool}
    (hvalid : if endInclusive then a ≤ b else a < b) :
    (∀ g : Cagg, ∃ w, computeCaggBucketAlignment a b (some g.timeframe) endInclusive = .ok w ∧
      Aligned g.width w ∧ (∀ t, InWindow a b endInclusive t → HoldsBucket g.width t w) ∧
      ∀ w', Aligned g.width w' → (∀ t, InWindow a b endInclusive t → Holds w' t) →
        w'.1 ≤ w.1 ∧ w.2 ≤ w'.2) ∧
    ∃ w, computeCaggBucketAlignment a b none endInclusive = .ok w ∧
      (∀ g : Cagg, Aligned g.width w ∧ ∀ t, InWindow a b endInclusive t → HoldsBucket g.width t w) ∧
      ∀ w', (∀ g : Cagg, Aligned g.width w') → (∀ t, InWindow a b endInclusive t → Holds w' t) →
        w'.1 ≤ w.1 ∧ w.2 ≤ w'.2 := by
  have hlt : a < behind b endInclusive := by
    unfold behind
    cases endInclusive
    · exact hvalid
    · exact Int.lt_add_one_iff.mpr hvalid
  simp only [inWindow_iff, and_imp]
  constructor
  · intro g
    have hleast := aligned_least g.width_pos hlt
    refine ⟨_, computeCaggBucketAlignment_eq hlt, ?_⟩
    rw [bucketWidth_timeframe]
    exact hleast
  · have hday : bucketWidth none = Cagg.width .candles1d := rfl
    obtain ⟨haligned, hholds, hmin⟩ := aligned_least (Cagg.width_pos .candles1d) hlt
    refine ⟨_, computeCaggBucketAlignment_eq hlt, fun g => ?_, fun w hw => ?_⟩
    · rw [hday]
      have hwhole : Aligned g.width (floorTo (Cagg.width .candles1d) a,
          ceilTo (Cagg.width .candles1d) (behind b endInclusive)) :=
        ⟨g.width_dvd_day.trans haligned.1, g.width_dvd_day.trans haligned.2⟩
      refine ⟨hwhole, fun t ha hb => ?_⟩
      -- the day of an instant holds the instant, and so its smaller buckets
      obtain ⟨hstart, hend⟩ := hholds t ha hb
      refine ⟨le_floorTo g.width_pos hwhole.1 (hstart.trans ?_),
        (floorTo_add_le_iff g.width_pos hwhole.2).mpr (lt_of_lt_of_le ?_ hend)⟩
      · exact floorTo_le (Cagg.width_pos .candles1d)
      · exact lt_floorTo_add (Cagg.width_pos .candles1d)
    · rw [hday]
      exact hmin w (hw .candles1d)

/-- The last microsecond of a bucket alone. -/
theorem alignment_least_one_instant :
    (∀ g : Cagg, ∃ w, computeCaggBucketAlignment (hour - 1) (hour - 1) (some g.timeframe) true = .ok w ∧
      Aligned g.width w ∧ (∀ t, InWindow (hour - 1) (hour - 1) true t → HoldsBucket g.width t w) ∧
      ∀ w', Aligned g.width w' → (∀ t, InWindow (hour - 1) (hour - 1) true t → Holds w' t) →
        w'.1 ≤ w.1 ∧ w.2 ≤ w'.2) ∧
    ∃ w, computeCaggBucketAlignment (hour - 1) (hour - 1) none true = .ok w ∧
      (∀ g : Cagg, Aligned g.width w ∧
        ∀ t, InWindow (hour - 1) (hour - 1) true t → HoldsBucket g.width t w) ∧
      ∀ w', (∀ g : Cagg, Aligned g.width w') →
        (∀ t, InWindow (hour - 1) (hour - 1) true t → Holds w' t) → w'.1 ≤ w.1 ∧ w.2 ≤ w'.2 :=
  alignment_least (by decide)

/-- A window that ends on the boundary of an hour, with and without its end. -/
example : computeCaggBucketAlignment 0 hour (some "1h") false = .ok (0, hour) ∧
    computeCaggBucketAlignment 0 hour (some "1h") true = .ok (0, 2 * hour) := ⟨rfl, rfl⟩

end Quantive.Candles
