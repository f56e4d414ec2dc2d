import Mathlib.Algebra.Order.BigOperators.Group.List
import Mathlib.Data.List.Perm.Basic
import Mathlib.Data.List.Sort
import Mathlib.Tactic.Linarith

/-!
# Placement into bounded buckets

Items are placed one after the other, each into the first bucket of its own order that is not
full.
-/

namespace Quantive.GreedyPlacement

variable {α ι : Type} [DecidableEq ι] (capacity : ℕ) (order : α → List ι)

def add (buckets : ι → List α) (s : ι) (a : α) : ι → List α :=
  fun t => if t = s then buckets t ++ [a] else buckets t

def place (buckets : ι → List α) (a : α) : Option (ι → List α) :=
  ((order a).find? fun s => (buckets s).length < capacity).map fun s => add buckets s a

def placeAll (buckets : ι → List α) : List α → Option (ι → List α)
  | [] => some buckets
  | a :: rest => (place capacity order buckets a).bind fun buckets' => placeAll buckets' rest

variable {capacity order} {buckets buckets' : ι → List α} {a : α} {as : List α} {shards : List ι}

theorem place_cases (h : place capacity order buckets a = some buckets') :
    ∃ s ∈ order a, (buckets s).length < capacity ∧ buckets' = add buckets s a := by
  obtain ⟨s, hfind, rfl⟩ := Option.map_eq_some_iff.mp h
  have hroom := List.find?_some hfind
  rw [decide_eq_true_eq] at hroom
  exact ⟨s, List.mem_of_find?_eq_some hfind, hroom, rfl⟩

theorem length_add (s t : ι) : ((add buckets s a) t).length =
    (buckets t).length + if t = s then 1 else 0 := by
  unfold add
  split
  · rw [List.length_append, List.length_singleton]
  · rfl

/-! ### Capacity -/

theorem place_bounded (hbound : ∀ s, (buckets s).length ≤ capacity)
    (h : place capacity order buckets a = some buckets') : ∀ s, (buckets' s).length ≤ capacity := by
  obtain ⟨s, _, hroom, rfl⟩ := place_cases h
  intro t
  rw [length_add]
  split
  · rename_i heq
    rw [heq]
    omega
  · exact hbound t

theorem placeAll_bounded (hbound : ∀ s, (buckets s).length ≤ capacity)
    (h : placeAll capacity order buckets as = some buckets') :
    ∀ s, (buckets' s).length ≤ capacity := by
  induction as generalizing buckets with
  | nil =>
    cases h
    exact hbound
  | cons a rest ih =>
    obtain ⟨next, hplace, hrest⟩ := Option.bind_eq_some_iff.mp h
    exact ih (place_bounded hbound hplace) hrest

/-! ### Contents -/

/-- All that is in the buckets. -/
def contents (shards : List ι) (buckets : ι → List α) : List α := shards.flatMap buckets

theorem contents_add (hnodup : shards.Nodup) {s : ι} (hs : s ∈ shards) :
    (contents shards (add buckets s a)).Perm (contents shards buckets ++ [a]) := by
  induction shards with
  | nil => cases hs
  | cons t rest ih =>
    obtain ⟨ht, hrest⟩ := List.nodup_cons.mp hnodup
    unfold contents at ih ⊢
    rw [List.flatMap_cons, List.flatMap_cons]
    rcases List.mem_cons.mp hs with rfl | hs
    · have hsame : rest.flatMap (add buckets s a) = rest.flatMap buckets := by
        refine List.flatMap_congr fun t hmem => ?_
        have hne : t ≠ s := fun heq => ht (heq ▸ hmem)
        exact if_neg hne
      have hhead : add buckets s a s = buckets s ++ [a] := if_pos rfl
      rw [hsame, hhead, List.append_assoc, List.append_assoc]
      exact List.Perm.append_left _ List.perm_append_comm
    · have hne : t ≠ s := fun heq => ht (heq ▸ hs)
      have hhead : add buckets s a t = buckets t := if_neg hne
      rw [hhead, List.append_assoc]
      exact List.Perm.append_left _ (ih hrest hs)

/-- Placing loses nothing and adds nothing. -/
theorem contents_placeAll (hnodup : shards.Nodup) (horder : ∀ a ∈ as, ∀ s ∈ order a, s ∈ shards)
    (h : placeAll capacity order buckets as = some buckets') :
    (contents shards buckets').Perm (contents shards buckets ++ as) := by
  induction as generalizing buckets with
  | nil =>
    cases h
    rw [List.append_nil]
  | cons a rest ih =>
    obtain ⟨next, hplace, hrest⟩ := Option.bind_eq_some_iff.mp h
    obtain ⟨s, hs, _, rfl⟩ := place_cases hplace
    obtain ⟨ha, hothers⟩ := List.forall_mem_cons.mp horder
    have hadd : (contents shards (add buckets s a)).Perm (contents shards buckets ++ [a]) :=
      contents_add hnodup (ha s hs)
    have hafter := (ih hothers hrest).trans (hadd.append_right rest)
    rwa [List.append_assoc] at hafter

omit [DecidableEq ι] in
theorem length_contents (shards : List ι) (buckets : ι → List α) :
    (contents shards buckets).length = (shards.map fun s => (buckets s).length).sum :=
  List.length_flatMap

/-! ### Room -/

omit [DecidableEq ι] in
theorem exists_room (hroom : (contents shards buckets).length < shards.length * capacity) :
    ∃ s ∈ shards, (buckets s).length < capacity := by
  by_contra hfull
  have hall : ∀ n ∈ shards.map fun s => (buckets s).length, capacity ≤ n := by
    intro n hn
    obtain ⟨s, hs, rfl⟩ := List.mem_map.mp hn
    by_contra hlt
    exact hfull ⟨s, hs, by omega⟩
  have hsum := List.card_nsmul_le_sum _ capacity hall
  rw [List.length_map, nsmul_eq_mul, Nat.cast_id, ← length_contents] at hsum
  omega

/-- With room for all of them, every item finds a bucket. -/
theorem placeAll_isSome (hnodup : shards.Nodup) (horder : ∀ a ∈ as, (order a).Perm shards)
    (hroom : (contents shards buckets).length + as.length ≤ shards.length * capacity) :
    (placeAll capacity order buckets as).isSome = true := by
  induction as generalizing buckets with
  | nil => rfl
  | cons a rest ih =>
    obtain ⟨ha, hrest⟩ := List.forall_mem_cons.mp horder
    rw [List.length_cons] at hroom
    have hfree : (contents shards buckets).length < shards.length * capacity := by omega
    obtain ⟨s, hs, hlt⟩ := exists_room hfree
    cases hplace : place capacity order buckets a with
    | none =>
      have hnone := Option.map_eq_none_iff.mp hplace
      rw [List.find?_eq_none] at hnone
      exact absurd (decide_eq_true hlt) (hnone s (ha.mem_iff.mpr hs))
    | some next =>
      obtain ⟨t, ht, _, rfl⟩ := place_cases hplace
      have hadd : (contents shards (add buckets t a)).Perm (contents shards buckets ++ [a]) :=
        contents_add hnodup (ha.subset ht)
      have hlength := hadd.length_eq
      rw [List.length_append, List.length_singleton] at hlength
      rw [placeAll, hplace]
      exact ih hrest (by omega)

/-! ### Homes -/

/-- While no home overflows, every item is placed at home. -/
theorem placeAll_home {home : α → ι} (horder : ∀ a ∈ as, ∃ rest, order a = home a :: rest)
    (hroom : ∀ s, (buckets s).length + as.countP (fun a => home a = s) ≤ capacity) :
    placeAll capacity order buckets as =
      some fun s => buckets s ++ as.filter fun a => home a = s := by
  induction as generalizing buckets with
  | nil => simp [placeAll]
  | cons a rest ih =>
    obtain ⟨⟨others, ha⟩, hrest⟩ := List.forall_mem_cons.mp horder
    have hhome : (buckets (home a)).length < capacity := by
      have hcount := hroom (home a)
      rw [List.countP_cons_of_pos (by simp)] at hcount
      omega
    have hplace : place capacity order buckets a = some (add buckets (home a) a) := by
      rw [place, ha, List.find?_cons_of_pos (by simpa using hhome), Option.map_some]
    rw [placeAll, hplace, Option.bind_some, ih hrest]
    · congr 1
      funext s
      by_cases hs : s = home a
      · rw [List.filter_cons, if_pos (decide_eq_true hs.symm), add, if_pos hs, List.append_assoc]
        rfl
      · have hneg : ¬ decide (home a = s) = true := fun h => hs (of_decide_eq_true h).symm
        rw [List.filter_cons, if_neg hneg, add, if_neg hs]
    · intro s
      have hcount := hroom s
      rw [List.countP_cons] at hcount
      rw [length_add]
      by_cases hs : s = home a
      · simp only [hs, if_true, decide_true] at hcount ⊢
        omega
      · have hs' : ¬ home a = s := fun h => hs h.symm
        simp only [hs, hs', if_false, decide_false, Bool.false_eq_true] at hcount ⊢
        omega

end Quantive.GreedyPlacement
