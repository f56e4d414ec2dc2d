import Mathlib.Algebra.Order.Group.Int
import Mathlib.Data.Set.Basic
import Mathlib.Algebra.Ring.Divisibility.Basic
import Mathlib.Algebra.Ring.Int.Defs

/-!
# Spaced intervals

Closed intervals between multiples of a unit that are more than a unit apart: a set of
multiples has one such form. A block takes the place of the intervals within a unit of it.
-/

namespace Quantive
variable {u : ℤ} {S T : Set (ℤ × ℤ)}

structure Spaced (u : ℤ) (S : Set (ℤ × ℤ)) : Prop where
  aligned : ∀ r ∈ S, u ∣ r.1 ∧ u ∣ r.2
  ordered : ∀ r ∈ S, r.1 ≤ r.2
  apart : ∀ r ∈ S, ∀ q ∈ S, r.1 ≤ q.2 + u → q.1 ≤ r.2 + u → r = q

/-- The multiples of the unit in the intervals. -/
def points (u : ℤ) (S : Set (ℤ × ℤ)) : Set ℤ := {t | u ∣ t ∧ ∃ r ∈ S, r.1 ≤ t ∧ t ≤ r.2}

/-- Two multiples of a unit lie at least a unit apart. -/
theorem le_sub_of_lt {a b : ℤ} (ha : u ∣ a) (hb : u ∣ b) (h : a < b) : a ≤ b - u := by
  have hle : u ≤ b - a := Int.le_of_dvd (by omega) (dvd_sub hb ha)
  omega

/-! ### One form -/

/-- The intervals are the longest runs of their points. -/
theorem Spaced.mem_iff (hS : Spaced u S) (hu : 0 < u) {a b : ℤ} : (a, b) ∈ S ↔
    u ∣ a ∧ u ∣ b ∧ a ≤ b ∧ (∀ t, u ∣ t → a ≤ t → t ≤ b → t ∈ points u S) ∧
      a - u ∉ points u S ∧ b + u ∉ points u S := by
  constructor
  · intro hmem
    obtain ⟨ha, hb⟩ := hS.aligned _ hmem
    have hle := hS.ordered _ hmem
    dsimp only at ha hb hle
    refine ⟨ha, hb, hle, fun t ht hlow hhigh => ⟨ht, _, hmem, hlow, hhigh⟩, ?_, ?_⟩
    · rintro ⟨-, q, hq, hlow, hhigh⟩
      have hsame := hS.apart _ hmem q hq (by dsimp only; omega) (by dsimp only; omega)
      subst hsame
      dsimp only at hlow
      omega
    · rintro ⟨-, q, hq, hlow, hhigh⟩
      have hsame := hS.apart _ hmem q hq (by dsimp only; omega) (by dsimp only; omega)
      subst hsame
      dsimp only at hhigh
      omega
  · rintro ⟨ha, hb, hle, hall, hbefore, hafter⟩
    obtain ⟨-, r, hr, hlow, hhigh⟩ := hall a ha le_rfl hle
    obtain ⟨hr₁, hr₂⟩ := hS.aligned r hr
    have hstart : r.1 = a := by
      by_contra hne
      have hstep := le_sub_of_lt hr₁ ha (by omega)
      exact hbefore ⟨dvd_sub ha (dvd_refl u), r, hr, hstep, by omega⟩
    have hstop : r.2 = b := by
      rcases lt_trichotomy r.2 b with hshort | heq | hlong
      · -- the next point is in another interval, within a unit of this one
        have hstep := le_sub_of_lt hr₂ hb hshort
        obtain ⟨-, q, hq, hq₁, hq₂⟩ :=
          hall (r.2 + u) (dvd_add hr₂ (dvd_refl u)) (by omega) (by omega)
        have hsame := hS.apart r hr q hq (by omega) hq₁
        subst hsame
        omega
      · exact heq
      · have hstep := le_sub_of_lt hb hr₂ hlong
        exact absurd ⟨dvd_add hb (dvd_refl u), r, hr, by omega, by omega⟩ hafter
    have hpair : r = (a, b) := Prod.ext hstart hstop
    exact hpair ▸ hr

/-- The points determine the intervals. -/
theorem Spaced.eq_of_points (hS : Spaced u S) (hT : Spaced u T) (hu : 0 < u)
    (h : points u S = points u T) : S = T := by
  ext ⟨a, b⟩
  rw [hS.mem_iff hu, hT.mem_iff hu, h]

/-- One interval spans two points exactly when all points between them are there. -/
theorem Spaced.spans_iff (hS : Spaced u S) (hu : 0 < u) {a b : ℤ} (ha : u ∣ a) (hb : u ∣ b)
    (hle : a ≤ b) : (∃ r ∈ S, r.1 ≤ a ∧ b ≤ r.2) ↔ ∀ t, u ∣ t → a ≤ t → t ≤ b → t ∈ points u S := by
  constructor
  · rintro ⟨r, hr, hr₁, hr₂⟩ t ht hlow hhigh
    exact ⟨ht, r, hr, hr₁.trans hlow, hhigh.trans hr₂⟩
  · intro hall
    obtain ⟨-, r, hr, hr₁, hr₂⟩ := hall a ha le_rfl hle
    refine ⟨r, hr, hr₁, ?_⟩
    by_contra hshort
    -- the next point is in an interval within a unit of this one
    obtain ⟨-, hr₂'⟩ := hS.aligned r hr
    have hstep := le_sub_of_lt hr₂' hb (not_le.mp hshort)
    obtain ⟨-, q, hq, hq₁, hq₂⟩ :=
      hall (r.2 + u) (dvd_add hr₂' (dvd_refl u)) (by omega) (by omega)
    obtain rfl := hS.apart r hr q hq (by omega) hq₁
    omega

/-- Nothing is left out of `[a, b]` exactly when one interval holds it. -/
theorem Spaced.holds_iff (hS : Spaced u S) (hu : 0 < u) {a b : ℤ} (hle : a ≤ b) :
    (∃ r ∈ S, r.1 ≤ a ∧ b ≤ r.2) ↔ ∀ t, a ≤ t → t ≤ b → ∃ r ∈ S, r.1 ≤ t ∧ t ≤ r.2 := by
  constructor
  · rintro ⟨r, hr, hr₁, hr₂⟩ t hlow hhigh
    exact ⟨r, hr, hr₁.trans hlow, hhigh.trans hr₂⟩
  · intro hall
    obtain ⟨r, hr, hr₁, hr₂⟩ := hall a le_rfl hle
    refine ⟨r, hr, hr₁, ?_⟩
    by_contra hshort
    obtain ⟨q, hq, hq₁, hq₂⟩ := hall (r.2 + 1) (by omega) (by omega)
    obtain rfl := hS.apart r hr q hq (by omega) (by omega)
    omega

/-! ### Blocks -/

/-- The interval is within a unit of the block. -/
def Near (u a b : ℤ) (r : ℤ × ℤ) : Prop := r.1 ≤ b + u ∧ a - u ≤ r.2

/-- The block `[a, b]` and the intervals near it have become `[lo, hi]`. -/
structure Absorbed (u a b lo hi : ℤ) (S T : Set (ℤ × ℤ)) : Prop where
  mem_iff : ∀ r, r ∈ T ↔ r = (lo, hi) ∨ r ∈ S ∧ ¬ Near u a b r
  block : lo ≤ a ∧ b ≤ hi
  near : ∀ r ∈ S, Near u a b r → lo ≤ r.1 ∧ r.2 ≤ hi
  low : lo = a ∨ ∃ r ∈ S, Near u a b r ∧ r.1 = lo
  high : hi = b ∨ ∃ r ∈ S, Near u a b r ∧ r.2 = hi

variable {a b lo hi : ℤ}

theorem Absorbed.spaced (h : Absorbed u a b lo hi S T) (hS : Spaced u S) (hu : 0 < u) (ha : u ∣ a)
    (hb : u ∣ b) (hle : a ≤ b) : Spaced u T := by
  obtain ⟨hlow, hhigh⟩ := h.block
  have hlo : u ∣ lo := by
    rcases h.low with rfl | ⟨r, hr, -, rfl⟩
    · exact ha
    · exact (hS.aligned r hr).1
  have hhi : u ∣ hi := by
    rcases h.high with rfl | ⟨r, hr, -, rfl⟩
    · exact hb
    · exact (hS.aligned r hr).2
  -- an interval that was far from the block stays far from the new one
  have hfar : ∀ r ∈ S, ¬ Near u a b r → r.1 ≤ hi + u → lo ≤ r.2 + u → False := by
    intro r hr hnot hr₁ hr₂
    have hordered := hS.ordered r hr
    have hside : b + u < r.1 ∨ r.2 < a - u := by
      by_contra hboth
      simp only [not_or, not_lt] at hboth
      exact hnot hboth
    rcases hside with hlate | hearly
    · rcases h.high with rfl | ⟨q, hq, hnear, rfl⟩
      · omega
      · have hq₁ := hnear.1
        have hsame := hS.apart r hr q hq hr₁ (by omega)
        exact hnot (hsame ▸ hnear)
    · rcases h.low with rfl | ⟨q, hq, hnear, rfl⟩
      · omega
      · have hq₂ := hnear.2
        have hsame := hS.apart r hr q hq (by omega) hr₂
        exact hnot (hsame ▸ hnear)
  constructor
  · intro r hr
    rcases (h.mem_iff r).mp hr with rfl | ⟨hold, -⟩
    · exact ⟨hlo, hhi⟩
    · exact hS.aligned r hold
  · intro r hr
    rcases (h.mem_iff r).mp hr with rfl | ⟨hold, -⟩
    · dsimp only
      omega
    · exact hS.ordered r hold
  · intro r hr q hq hrq hqr
    rcases (h.mem_iff r).mp hr with rfl | ⟨hold, hnot⟩
    · rcases (h.mem_iff q).mp hq with rfl | ⟨hold', hnot'⟩
      · rfl
      · exact absurd hrq fun hrq => hfar q hold' hnot' hqr hrq
    · rcases (h.mem_iff q).mp hq with rfl | ⟨hold', hnot'⟩
      · exact absurd hqr fun hqr => hfar r hold hnot hrq hqr
      · exact hS.apart r hold q hold' hrq hqr

theorem Absorbed.points_eq (h : Absorbed u a b lo hi S T) (ha : u ∣ a) (hb : u ∣ b) :
    points u T = points u S ∪ {t | u ∣ t ∧ a ≤ t ∧ t ≤ b} := by
  obtain ⟨hlow, hhigh⟩ := h.block
  ext t
  constructor
  · rintro ⟨ht, r, hr, hr₁, hr₂⟩
    rcases (h.mem_iff r).mp hr with rfl | ⟨hold, -⟩
    · dsimp only at hr₁ hr₂
      rcases lt_or_ge t a with hbefore | hafter
      · -- the interval that gives the lower end reaches up to the block
        have hstep := le_sub_of_lt ht ha hbefore
        rcases h.low with rfl | ⟨q, hq, hnear, rfl⟩
        · omega
        · exact .inl ⟨ht, q, hq, hr₁, hstep.trans hnear.2⟩
      · rcases lt_or_ge b t with hlate | hin
        · have hstep := le_sub_of_lt hb ht hlate
          rcases h.high with rfl | ⟨q, hq, hnear, rfl⟩
          · omega
          · have hq₁ := hnear.1
            exact .inl ⟨ht, q, hq, by omega, hr₂⟩
        · exact .inr ⟨ht, hafter, hin⟩
    · exact .inl ⟨ht, r, hold, hr₁, hr₂⟩
  · rintro (⟨ht, r, hr, hr₁, hr₂⟩ | ⟨ht, hta, htb⟩)
    · by_cases hnear : Near u a b r
      · obtain ⟨hlo, hhi⟩ := h.near r hr hnear
        exact ⟨ht, (lo, hi), (h.mem_iff _).mpr (.inl rfl), hlo.trans hr₁, hr₂.trans hhi⟩
      · exact ⟨ht, r, (h.mem_iff r).mpr (.inr ⟨hr, hnear⟩), hr₁, hr₂⟩
    · exact ⟨ht, (lo, hi), (h.mem_iff _).mpr (.inl rfl), hlow.trans hta, htb.trans hhigh⟩

end Quantive
