import Mathlib.Order.Lattice
import Mathlib.Data.List.Induction

/-!
# Registers with source priorities

A register holds a value and the priority of the source that wrote it. An offer is
taken when its value is different and its priority is not lower; an offer of the stored
value is dropped, whatever its priority.
-/

namespace Quantive

structure Entry (V P : Type) where
  value : V
  priority : P
  deriving DecidableEq

namespace Entry
variable {V P : Type} [DecidableEq V] [LinearOrder P]

def offer : Option (Entry V P) → Entry V P → Entry V P
  | none, new => new
  | some old, new => if new.value ≠ old.value ∧ old.priority ≤ new.priority then new else old

/-- The register after some offers, first to last. -/
def offers (stored : Option (Entry V P)) (news : List (Entry V P)) : Option (Entry V P) :=
  news.foldl (fun s new => some (offer s new)) stored

@[simp] theorem offers_nil (stored : Option (Entry V P)) : offers stored [] = stored := rfl

@[simp] theorem offers_cons (stored : Option (Entry V P)) (new : Entry V P)
    (news : List (Entry V P)) : offers stored (new :: news) = offers (some (offer stored new)) news :=
  rfl

/-- A lower priority changes nothing. -/
theorem offer_of_lt {old new : Entry V P} (h : new.priority < old.priority) :
    offer (some old) new = old := by
  simp [offer, not_le.mpr h]

/-- The priority of a register never falls. -/
theorem priority_le_offer (old new : Entry V P) :
    old.priority ≤ (offer (some old) new).priority := by
  simp only [offer]
  by_cases h : new.value ≠ old.value ∧ old.priority ≤ new.priority
  · rw [if_pos h]
    exact h.2
  · rw [if_neg h]

theorem priority_le_offers (old : Entry V P) (news : List (Entry V P)) :
    ∃ last, offers (some old) news = some last ∧ old.priority ≤ last.priority := by
  induction news generalizing old with
  | nil => exact ⟨old, rfl, le_refl _⟩
  | cons new news ih =>
    obtain ⟨last, hl, hle⟩ := ih (offer (some old) new)
    exact ⟨last, hl, (priority_le_offer old new).trans hle⟩

/-- An offer that is different from the stored value, or finds its own priority stored, leaves
at least its priority behind. -/
theorem priority_le_offer_self {stored : Option (Entry V P)} {new : Entry V P}
    (h : ∀ old, stored = some old → old.value = new.value → new.priority ≤ old.priority) :
    new.priority ≤ (offer stored new).priority := by
  cases stored with
  | none => exact le_refl _
  | some old =>
    simp only [offer]
    by_cases ht : new.value ≠ old.value ∧ old.priority ≤ new.priority
    · rw [if_pos ht]
    · rw [if_neg ht]
      by_cases hv : new.value = old.value
      · exact h old rfl hv.symm
      · exact le_of_lt (not_le.mp fun hp => ht ⟨hv, hp⟩)

/-- Offers of lower priorities change nothing. -/
theorem offers_of_lt {old : Entry V P} {news : List (Entry V P)}
    (h : ∀ new ∈ news, new.priority < old.priority) : offers (some old) news = some old := by
  induction news with
  | nil => rfl
  | cons new news ih =>
    rw [offers_cons, offer_of_lt (h new List.mem_cons_self)]
    exact ih fun n hn => h n (List.mem_cons_of_mem _ hn)

/-- Finality: once an offer left its priority behind, lower ones change nothing, however many
offers come in between. -/
theorem offers_final {stored : Option (Entry V P)} {new : Entry V P}
    (h : ∀ old, stored = some old → old.value = new.value → new.priority ≤ old.priority)
    (later : List (Entry V P)) {lows : List (Entry V P)}
    (hlow : ∀ low ∈ lows, low.priority < new.priority) :
    offers (offers (some (offer stored new)) later) lows =
      offers (some (offer stored new)) later := by
  obtain ⟨last, hl, hle⟩ := priority_le_offers (offer stored new) later
  rw [hl]
  refine offers_of_lt fun low hm => ?_
  exact lt_of_lt_of_le (hlow low hm) ((priority_le_offer_self h).trans hle)

end Entry

/-! ### Registers that keep their source -/

namespace Register
variable {V S P : Type} [DecidableEq V] [LinearOrder P] (rank : S → P)

def put : Option (V × S) → V × S → V × S
  | none, new => new
  | some old, new => if new.1 ≠ old.1 ∧ rank old.2 ≤ rank new.2 then new else old

def puts (stored : Option (V × S)) (news : List (V × S)) : Option (V × S) :=
  news.foldl (fun s new => some (put rank s new)) stored

/-- Equal values come from one source. -/
def Agree (xs : List (V × S)) : Prop := ∀ x ∈ xs, ∀ y ∈ xs, x.1 = y.1 → x.2 = y.2

variable {rank}

theorem put_taken {old new : V × S} (h : new.1 ≠ old.1 ∧ rank old.2 ≤ rank new.2) :
    put rank (some old) new = new := if_pos h

theorem put_dropped {old new : V × S} (h : ¬ (new.1 ≠ old.1 ∧ rank old.2 ≤ rank new.2)) :
    put rank (some old) new = old := if_neg h

theorem put_mem (old new : V × S) : put rank (some old) new = old ∨ put rank (some old) new = new := by
  by_cases h : new.1 ≠ old.1 ∧ rank old.2 ≤ rank new.2
  · exact Or.inr (put_taken h)
  · exact Or.inl (put_dropped h)

/-- Where equal values come from one source, it does not matter which two of three offers meet
first. -/
theorem put_assoc {r a b : V × S} (h : Agree [r, a, b]) :
    put rank (some r) (put rank (some a) b) = put rank (some (put rank (some r) a)) b := by
  have hra : a.1 = r.1 → a.2 = r.2 := h a (by simp) r (by simp)
  have hrb : b.1 = r.1 → b.2 = r.2 := h b (by simp) r (by simp)
  have hab : b.1 = a.1 → b.2 = a.2 := h b (by simp) a (by simp)
  by_cases h₁ : b.1 ≠ a.1 ∧ rank a.2 ≤ rank b.2
  · rw [put_taken h₁]
    by_cases h₂ : a.1 ≠ r.1 ∧ rank r.2 ≤ rank a.2
    · rw [put_taken h₂, put_taken h₁]
      by_cases hv : b.1 = r.1
      · rw [put_dropped fun h => h.1 hv]
        exact Prod.ext hv.symm (hrb hv).symm
      · exact put_taken ⟨hv, h₂.2.trans h₁.2⟩
    · rw [put_dropped h₂]
  · rw [put_dropped h₁]
    by_cases h₂ : a.1 ≠ r.1 ∧ rank r.2 ≤ rank a.2
    · rw [put_taken h₂, put_dropped h₁]
    · rw [put_dropped h₂]
      -- neither `a` nor `b` beats what it meets, so `b` does not beat `r`
      have hlow : b.1 = a.1 ∨ rank b.2 < rank a.2 := by
        by_cases hv : b.1 = a.1
        · exact Or.inl hv
        · exact Or.inr (not_le.mp fun hle => h₁ ⟨hv, hle⟩)
      have hold : a.1 = r.1 ∨ rank a.2 < rank r.2 := by
        by_cases hv : a.1 = r.1
        · exact Or.inl hv
        · exact Or.inr (not_le.mp fun hle => h₂ ⟨hv, hle⟩)
      refine (put_dropped fun hb => ?_).symm
      rcases hlow with hv | hlt
      · rw [hab hv] at hb
        rcases hold with hv' | hlt'
        · exact hb.1 (hv.trans hv')
        · exact absurd hb.2 (not_le.mpr hlt')
      · rcases hold with hv' | hlt'
        · rw [hra hv'] at hlt
          exact absurd hb.2 (not_le.mpr hlt)
        · exact absurd hb.2 (not_le.mpr (hlt.trans hlt'))

/-- Offers that met in an empty register first. -/
theorem puts_of_none {news : List (V × S)} {last : V × S} (hlast : puts rank none news = some last) :
    last ∈ news ∧ ∀ r, Agree (r :: news) → puts rank (some r) news = some (put rank (some r) last) := by
  induction news using List.reverseRecOn generalizing last with
  | nil => cases hlast
  | append_singleton news b ih =>
    have hsnoc : ∀ old, puts rank old (news ++ [b]) = some (put rank (puts rank old news) b) :=
      fun old => List.foldl_append
    rw [hsnoc] at hlast
    cases hbefore : puts rank none news with
    | none =>
      have hnil : news = [] := by
        cases news using List.reverseRecOn with
        | nil => rfl
        | append_singleton news x =>
          have hx : puts rank none (news ++ [x]) = some (put rank (puts rank none news) x) :=
            List.foldl_append
          rw [hx] at hbefore
          cases hbefore
      rw [hbefore] at hlast
      cases hlast
      subst hnil
      exact ⟨by simp [put], fun r _ => rfl⟩
    | some a =>
      rw [hbefore] at hlast
      cases hlast
      obtain ⟨hmem, hrest⟩ := ih hbefore
      refine ⟨?_, fun r hagree => ?_⟩
      · have hput : put rank (some a) b = a ∨ put rank (some a) b = b := put_mem a b
        rcases hput with h | h
        · rw [h]
          exact List.mem_append_left _ hmem
        · rw [h]
          simp
      · have hsub : ∀ {ys : List (V × S)}, (∀ y ∈ ys, y ∈ r :: (news ++ [b])) → Agree ys :=
          fun hys x hx y hy => hagree x (hys x hx) y (hys y hy)
        have hfirst : Agree (r :: news) := hsub fun y hy => by
          rcases List.mem_cons.mp hy with rfl | hy
          · simp
          · simp [hy]
        have hthree : Agree [r, a, b] := hsub fun y hy => by
          rcases List.mem_cons.mp hy with rfl | hy
          · simp
          · rcases List.mem_cons.mp hy with rfl | hy
            · simp [hmem]
            · simp [List.mem_singleton.mp hy]
        rw [hsnoc, hrest r hfirst, put_assoc hthree]

end Register
end Quantive
