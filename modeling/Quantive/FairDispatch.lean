import Mathlib.Algebra.GroupWithZero.Nat
import Mathlib.Algebra.Order.BigOperators.Group.List
import Mathlib.Algebra.Order.Group.Nat
import Mathlib.Data.List.Nodup

/-!
# Dispatch from the front of a queue

A round serves the first `limit` items of a queue. The items it keeps stay in front, the other
served ones move behind all that waited. Everything is served in time exactly when the items
kept on the way leave room for it.
-/

namespace Quantive
variable {ι : Type}

/-- One round, with the served items it keeps in front. -/
def Dispatch (limit : ℕ) (queue kept queue' : List ι) : Prop :=
  kept.Sublist (queue.take limit) ∧
    ∃ moved, moved ⊆ queue.take limit ∧ queue' = kept ++ queue.drop limit ++ moved

/-- Consecutive rounds, each with the items it serves and those of them it keeps. -/
inductive Dispatches (limit : ℕ) : List ι → List (List ι × List ι) → List ι → Prop
  | refl {queue} : Dispatches limit queue [] queue
  | step {queue kept mid rounds queue'} : Dispatch limit queue kept mid →
      Dispatches limit mid rounds queue' →
      Dispatches limit queue ((queue.take limit, kept) :: rounds) queue'

/-- The places that kept items took from others: what the last round keeps does no harm any more. -/
def wasted (rounds : List (List ι × List ι)) : ℕ :=
  (rounds.dropLast.map fun round => round.2.length).sum

section
variable {limit : ℕ} {queue queue' front waiting behind kept : List ι}
  {rounds : List (List ι × List ι)}

theorem Dispatches.kept_le (h : Dispatches limit queue rounds queue') :
    ∀ round ∈ rounds, round.2.length ≤ limit := by
  induction h with
  | refl => exact fun _ hround => absurd hround List.not_mem_nil
  | step hround _ ih =>
    refine List.forall_mem_cons.mpr ⟨?_, ih⟩
    exact hround.1.length_le.trans (List.length_take_le _ _)

theorem wasted_le (hkept : ∀ round ∈ rounds, round.2.length ≤ limit) (hne : rounds ≠ []) :
    wasted rounds + limit ≤ rounds.length * limit := by
  have hsum : wasted rounds ≤ rounds.dropLast.length * limit := by
    unfold wasted
    have h := List.sum_le_card_nsmul (rounds.dropLast.map fun round => round.2.length) limit
      fun n hn => by
        obtain ⟨round, hround, rfl⟩ := List.mem_map.mp hn
        exact hkept round (List.dropLast_subset _ hround)
    rwa [List.length_map, Nat.nsmul_eq_mul] at h
  have hpos := List.length_pos_of_ne_nil hne
  have hlength : rounds.length = rounds.dropLast.length + 1 := by
    rw [List.length_dropLast]
    omega
  rw [hlength, Nat.succ_mul]
  omega

theorem wasted_cons (round : List ι × List ι) (hne : rounds ≠ []) :
    wasted (round :: rounds) = round.2.length + wasted rounds := by
  unfold wasted
  rw [List.dropLast_cons_of_ne_nil hne, List.map_cons, List.sum_cons]

/-- What a round serves of a queue with the kept items of the round before in front. -/
theorem take_front (hfront : front.length ≤ limit) :
    (front ++ waiting ++ behind).take limit =
      front ++ waiting.take (limit - front.length) ++
        behind.take (limit - front.length - waiting.length) := by
  rw [List.append_assoc, List.take_append, List.take_of_length_le hfront, List.take_append,
    List.append_assoc]

theorem drop_front (hfront : front.length ≤ limit) :
    (front ++ waiting ++ behind).drop limit =
      waiting.drop (limit - front.length) ++
        behind.drop (limit - front.length - waiting.length) := by
  rw [List.append_assoc, List.drop_append, List.drop_of_length_le hfront, List.drop_append,
    List.nil_append]

/-- The waiting items that a round leaves are not among those it serves. -/
theorem not_served (hnodup : waiting.Nodup) (hfront : front.length ≤ limit)
    (hapart : ∀ x ∈ waiting, x ∉ front ∧ x ∉ behind) {x : ι}
    (hx : x ∈ waiting.drop (limit - front.length)) :
    x ∉ (front ++ waiting ++ behind).take limit := by
  obtain ⟨hxfront, hxbehind⟩ := hapart x (List.mem_of_mem_drop hx)
  have hxtake : x ∉ waiting.take (limit - front.length) := fun h =>
    List.disjoint_take_drop hnodup le_rfl h hx
  rw [take_front hfront]
  simp only [List.mem_append, not_or]
  exact ⟨⟨hxfront, hxtake⟩, fun h => hxbehind (List.mem_of_mem_take h)⟩

/-- The waiting items are all served exactly when they, the kept items in front of them and those
that rounds keep on the way fit into the rounds. -/
theorem waiting_served_iff (h : Dispatches limit queue rounds queue')
    (hqueue : queue = front ++ waiting ++ behind) (hnodup : waiting.Nodup)
    (hfront : front.length ≤ limit) (hapart : ∀ x ∈ waiting, x ∉ front ∧ x ∉ behind)
    (hne : rounds ≠ []) :
    (∀ x ∈ waiting, ∃ round ∈ rounds, x ∈ round.1) ↔
      waiting.length + front.length + wasted rounds ≤ rounds.length * limit := by
  induction h generalizing front waiting behind with
  | refl => exact absurd rfl hne
  | @step queue kept mid rounds queue' hround hrest ih =>
    obtain ⟨hkept, moved, hmoved, hmid⟩ := hround
    have hleft : (waiting.drop (limit - front.length)).length =
        waiting.length - (limit - front.length) := List.length_drop
    have hnot : ∀ x ∈ waiting.drop (limit - front.length), x ∉ queue.take limit := fun x hx => by
      rw [hqueue]
      exact not_served hnodup hfront hapart hx
    -- What this round leaves waiting has to be served by the others.
    have hserved : (∀ x ∈ waiting, ∃ round ∈ (queue.take limit, kept) :: rounds, x ∈ round.1) ↔
        ∀ x ∈ waiting.drop (limit - front.length), ∃ round ∈ rounds, x ∈ round.1 := by
      constructor
      · intro hall x hx
        obtain ⟨round, hround, hin⟩ := hall x (List.mem_of_mem_drop hx)
        rcases List.mem_cons.mp hround with rfl | hround
        · exact absurd hin (hnot x hx)
        · exact ⟨round, hround, hin⟩
      · intro hall x hx
        rw [← List.take_append_drop (limit - front.length) waiting] at hx
        rcases List.mem_append.mp hx with hx | hx
        · refine ⟨_, List.mem_cons_self, ?_⟩
          rw [hqueue, take_front hfront]
          exact List.mem_append_left _ (List.mem_append_right _ hx)
        · obtain ⟨round, hround, hin⟩ := hall x hx
          exact ⟨round, List.mem_cons_of_mem _ hround, hin⟩
    rw [hserved, List.length_cons, Nat.succ_mul]
    have hlimit : kept.length ≤ limit := hkept.length_le.trans (List.length_take_le _ _)
    by_cases hlast : rounds = []
    · subst hlast
      have hnone : (∀ x ∈ waiting.drop (limit - front.length), ∃ round ∈ ([] : List (List ι × List ι)),
          x ∈ round.1) ↔ waiting.drop (limit - front.length) = [] := by
        simp [List.eq_nil_iff_forall_not_mem]
      rw [hnone, ← List.length_eq_zero_iff, hleft]
      simp only [wasted, List.dropLast_singleton, List.map_nil, List.sum_nil, List.length_nil]
      omega
    · have hapart' : ∀ x ∈ waiting.drop (limit - front.length),
          x ∉ kept ∧ x ∉ behind.drop (limit - front.length - waiting.length) ++ moved := by
        intro x hx
        have hout := hnot x hx
        refine ⟨fun hin => hout (hkept.subset hin), fun hin => ?_⟩
        rcases List.mem_append.mp hin with hin | hin
        · exact (hapart x (List.mem_of_mem_drop hx)).2 (List.mem_of_mem_drop hin)
        · exact hout (hmoved hin)
      have hmid' : mid = kept ++ waiting.drop (limit - front.length) ++
          (behind.drop (limit - front.length - waiting.length) ++ moved) := by
        rw [hmid, hqueue, drop_front hfront]
        simp only [List.append_assoc]
      have hind := ih hmid' (hnodup.sublist (List.drop_sublist _ _)) hlimit hapart' hlast
      have hroom := wasted_le hrest.kept_le hlast
      have hwaste := wasted_cons (queue.take limit, kept) hlast
      dsimp only at hwaste
      rw [hind, hleft]
      omega

/-- Everything in the queue is served exactly when it fits beside the items kept on the way. -/
theorem dispatches_all_iff (h : Dispatches limit queue rounds queue') (hnodup : queue.Nodup)
    (hne : rounds ≠ []) :
    (∀ x ∈ queue, ∃ round ∈ rounds, x ∈ round.1) ↔
      queue.length + wasted rounds ≤ rounds.length * limit := by
  have hparts : queue = [] ++ queue ++ [] := by simp
  have hall := waiting_served_iff h hparts hnodup (Nat.zero_le _) (by simp) hne
  simpa using hall

end

end Quantive
