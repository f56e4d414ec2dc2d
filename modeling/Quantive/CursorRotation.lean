import Mathlib.Algebra.Order.Floor.Div
import Quantive.Keyset

/-!
# Rotation by a cursor

Rounds over a table in strict key order. A round takes at most `limit` keys behind its
cursor, or from the start where none is left there, and leaves the cursor at its last key.
-/

namespace Quantive
variable {κ : Type} [LinearOrder κ]

def rotationSlice (keys : List κ) (limit : ℕ) (cursor : Option κ) : List κ :=
  match (afterCursor id keys cursor).take limit with
  | [] => keys.take limit
  | page => page

/-- The slices of consecutive rounds. -/
def rotation (keys : List κ) (limit : ℕ) : ℕ → Option κ → List (List κ)
  | 0, _ => []
  | rounds + 1, cursor =>
    rotationSlice keys limit cursor ::
      rotation keys limit rounds (rotationSlice keys limit cursor).getLast?

/-- A cursor that rounds from the start leave behind. -/
def OnRotation (keys : List κ) (limit : ℕ) (cursor : Option κ) : Prop :=
  ∃ round, round * limit < keys.length + limit ∧
    afterCursor id keys cursor = keys.drop (round * limit)

section
variable {keys done rest : List κ} {limit : ℕ} {cursor : Option κ}

omit [LinearOrder κ] in
theorem take_ne_nil (hlimit : 0 < limit) (hrest : rest ≠ []) : rest.take limit ≠ [] := by
  intro h
  rcases List.take_eq_nil_iff.mp h with h | h
  · omega
  · exact hrest h

theorem rotationSlice_sublist (keys : List κ) (limit : ℕ) (cursor : Option κ) :
    (rotationSlice keys limit cursor).Sublist keys := by
  unfold rotationSlice
  split
  · exact List.take_sublist _ _
  · refine (List.take_sublist _ _).trans ?_
    cases cursor with
    | none => exact List.Sublist.refl _
    | some cursor => exact List.filter_sublist

theorem rotationSlice_restart (h : afterCursor id keys cursor = []) :
    rotationSlice keys limit cursor = keys.take limit := by
  simp [rotationSlice, h]

theorem rotationSlice_behind (h : (afterCursor id keys cursor).take limit ≠ []) :
    rotationSlice keys limit cursor = (afterCursor id keys cursor).take limit := by
  unfold rotationSlice
  split
  · next hnil => exact absurd hnil h
  · rfl

theorem rotationSlice_none (keys : List κ) (limit : ℕ) :
    rotationSlice keys limit none = keys.take limit := by
  unfold rotationSlice
  split <;> rfl

theorem rotationSlice_ne_nil (hlimit : 0 < limit) (hkeys : keys ≠ []) (cursor : Option κ) :
    rotationSlice keys limit cursor ≠ [] := by
  unfold rotationSlice
  split
  · exact take_ne_nil hlimit hkeys
  · next h => exact h

/-- A round that finds nothing behind its cursor goes on as one without a cursor. -/
theorem rotation_restart (h : afterCursor id keys cursor = []) (rounds : ℕ) :
    rotation keys limit rounds cursor = rotation keys limit rounds none := by
  cases rounds with
  | zero => rfl
  | succ rounds => simp only [rotation, rotationSlice_restart h, rotationSlice_none]

/-- What is left behind the cursor that a slice leaves. -/
theorem afterCursor_slice (hsorted : keys.Pairwise (· < ·)) (hlimit : 0 < limit)
    (hkeys : keys = done ++ rest) (hrest : rest ≠ []) :
    afterCursor id keys (rest.take limit).getLast? = rest.drop limit := by
  obtain ⟨init, last, hinit⟩ :=
    List.eq_nil_or_concat (rest.take limit) |>.resolve_left (take_ne_nil hlimit hrest)
  have hlast : (rest.take limit).getLast? = some last := by
    rw [hinit, List.concat_eq_append, List.getLast?_concat]
  have hparts : init ++ last :: rest.drop limit = rest := by
    rw [List.append_cons, ← List.concat_eq_append, ← hinit, List.take_append_drop]
  have hsplit : keys = (done ++ init) ++ last :: rest.drop limit := by
    rw [List.append_assoc, hparts, hkeys]
  have hbehind : afterCursor id (done ++ init ++ last :: rest.drop limit) (some (id last)) =
      rest.drop limit := afterCursor_append (hsplit ▸ hsorted)
  rw [hlast, hsplit]
  exact hbehind

theorem afterCursor_restart (hsorted : keys.Pairwise (· < ·)) (hlimit : 0 < limit)
    (hkeys : keys ≠ []) (h : afterCursor id keys cursor = []) :
    afterCursor id keys (rotationSlice keys limit cursor).getLast? = keys.drop limit := by
  rw [rotationSlice_restart h]
  exact afterCursor_slice hsorted hlimit (List.nil_append keys).symm hkeys

/-- A round inside the table: its slice, and what it leaves for the next one. -/
theorem rotationSlice_step (hsorted : keys.Pairwise (· < ·)) (hlimit : 0 < limit)
    (hkeys : keys = done ++ rest) (hcursor : afterCursor id keys cursor = rest) (hrest : rest ≠ []) :
    rotationSlice keys limit cursor = rest.take limit ∧
      afterCursor id keys (rotationSlice keys limit cursor).getLast? = rest.drop limit := by
  have hslice : rotationSlice keys limit cursor = rest.take limit := by
    rw [rotationSlice_behind, hcursor]
    rw [hcursor]
    exact take_ne_nil hlimit hrest
  refine ⟨hslice, ?_⟩
  rw [hslice]
  exact afterCursor_slice hsorted hlimit hkeys hrest

/-- The rounds that use up what is left behind the cursor, and the rounds after them. -/
theorem rotation_flatten (hsorted : keys.Pairwise (· < ·)) (hlimit : 0 < limit)
    (hkeys : keys = done ++ rest) (hcursor : afterCursor id keys cursor = rest) {first : ℕ}
    (hcover : rest.length ≤ first * limit) (htight : first * limit < rest.length + limit)
    (more : ℕ) :
    (rotation keys limit (first + more) cursor).flatten =
      rest ++ (rotation keys limit more none).flatten := by
  induction first generalizing done rest cursor with
  | zero =>
    have hnil : rest = [] := List.eq_nil_of_length_eq_zero (by omega)
    subst hnil
    rw [Nat.zero_add, List.nil_append, rotation_restart hcursor]
  | succ first ih =>
    have hmul : (first + 1) * limit = first * limit + limit := Nat.succ_mul _ _
    have hrest : rest ≠ [] := by
      intro h
      rw [h, List.length_nil] at htight
      omega
    obtain ⟨hslice, hnext⟩ := rotationSlice_step hsorted hlimit hkeys hcursor hrest
    have hsplit : keys = (done ++ rest.take limit) ++ rest.drop limit := by
      rw [List.append_assoc, List.take_append_drop, hkeys]
    have hlen : (rest.drop limit).length = rest.length - limit := List.length_drop
    have hind := ih hsplit hnext (by omega) (by omega)
    have hrounds : first + 1 + more = (first + more) + 1 := by omega
    rw [hrounds, rotation, List.flatten_cons, hind, hslice, ← List.append_assoc,
      List.take_append_drop]

/-- Rounds from the start take the keys one after the other. -/
theorem rotation_prefix (hsorted : keys.Pairwise (· < ·)) (hlimit : 0 < limit)
    (hkeys : keys = done ++ rest) (hcursor : afterCursor id keys cursor = rest) {rounds : ℕ}
    (hrounds : rounds * limit < rest.length + limit) :
    (rotation keys limit rounds cursor).flatten = rest.take (rounds * limit) := by
  induction rounds generalizing done rest cursor with
  | zero => simp [rotation]
  | succ rounds ih =>
    have hmul : (rounds + 1) * limit = rounds * limit + limit := Nat.succ_mul _ _
    have hrest : rest ≠ [] := by
      intro h
      rw [h, List.length_nil] at hrounds
      omega
    obtain ⟨hslice, hnext⟩ := rotationSlice_step hsorted hlimit hkeys hcursor hrest
    have hsplit : keys = (done ++ rest.take limit) ++ rest.drop limit := by
      rw [List.append_assoc, List.take_append_drop, hkeys]
    have hlen : (rest.drop limit).length = rest.length - limit := List.length_drop
    rw [rotation, List.flatten_cons, ih hsplit hnext (by omega), hslice, hmul, Nat.add_comm,
      ← List.take_add]

/-! ### Fairness -/

theorem ceilDiv_mul_ge (n : ℕ) (hlimit : 0 < limit) : n ≤ n ⌈/⌉ limit * limit := by
  have h : n ≤ limit * (n ⌈/⌉ limit) := (ceilDiv_le_iff_le_mul hlimit).mp le_rfl
  rwa [Nat.mul_comm] at h

theorem ceilDiv_mul_lt (n : ℕ) (hlimit : 0 < limit) : n ⌈/⌉ limit * limit < n + limit := by
  rw [Nat.ceilDiv_eq_add_pred_div]
  have h := Nat.div_mul_le_self (n + limit - 1) limit
  omega

theorem onRotation_none (hlimit : 0 < limit) : OnRotation keys limit none :=
  ⟨0, by omega, by simp [afterCursor]⟩

theorem onRotation_restart (hlimit : 0 < limit) (h : afterCursor id keys cursor = []) :
    OnRotation keys limit cursor :=
  ⟨keys.length ⌈/⌉ limit, ceilDiv_mul_lt _ hlimit, by
    rw [h, List.drop_eq_nil_of_le (ceilDiv_mul_ge _ hlimit)]⟩

theorem OnRotation.next (hsorted : keys.Pairwise (· < ·)) (hlimit : 0 < limit) (hkeys : keys ≠ [])
    (h : OnRotation keys limit cursor) :
    OnRotation keys limit (rotationSlice keys limit cursor).getLast? := by
  obtain ⟨round, hround, hcursor⟩ := h
  by_cases hrest : keys.drop (round * limit) = []
  · have hpos : 0 < keys.length := List.length_pos_of_ne_nil hkeys
    refine ⟨1, by omega, ?_⟩
    rw [afterCursor_restart hsorted hlimit hkeys (hcursor.trans hrest), Nat.one_mul]
  · have hleft : round * limit < keys.length := by
      rw [List.drop_eq_nil_iff] at hrest
      omega
    have hmul : (round + 1) * limit = round * limit + limit := Nat.succ_mul _ _
    obtain ⟨-, hnext⟩ := rotationSlice_step hsorted hlimit
      (List.take_append_drop (round * limit) keys).symm hcursor hrest
    exact ⟨round + 1, by omega, by rw [hnext, List.drop_drop, hmul]⟩

/-- As many rounds as slices: every key once. -/
theorem OnRotation.exactly_once (hsorted : keys.Pairwise (· < ·)) (hlimit : 0 < limit)
    (h : OnRotation keys limit cursor) :
    (rotation keys limit (keys.length ⌈/⌉ limit) cursor).flatten.Perm keys := by
  obtain ⟨round, hround, hcursor⟩ := h
  have hge := ceilDiv_mul_ge keys.length hlimit
  have hlt := ceilDiv_mul_lt keys.length hlimit
  have hle : round ≤ keys.length ⌈/⌉ limit := by
    by_contra hgt
    have hmul : (keys.length ⌈/⌉ limit + 1) * limit ≤ round * limit :=
      Nat.mul_le_mul_right limit (by omega)
    rw [Nat.succ_mul] at hmul
    omega
  obtain ⟨first, hfirst⟩ := Nat.exists_eq_add_of_le' hle
  have hsum : (first + round) * limit = first * limit + round * limit := Nat.add_mul _ _ _
  rw [hfirst] at hge hlt ⊢
  have hlen : (keys.drop (round * limit)).length = keys.length - round * limit := List.length_drop
  rw [rotation_flatten hsorted hlimit (List.take_append_drop (round * limit) keys).symm hcursor
    (by omega) (by omega), rotation_prefix hsorted hlimit (List.nil_append keys).symm rfl hround]
  exact List.perm_append_comm.trans (by rw [List.take_append_drop])

/-- From any cursor, one round more. -/
theorem rotation_covers (hsorted : keys.Pairwise (· < ·)) (hlimit : 0 < limit)
    (cursor : Option κ) {k : κ} (hk : k ∈ keys) :
    k ∈ (rotation keys limit (keys.length ⌈/⌉ limit + 1) cursor).flatten := by
  obtain ⟨done, hkeys⟩ : ∃ done, keys = done ++ afterCursor id keys cursor :=
    afterCursor_suffix hsorted cursor
  generalize hrest : afterCursor id keys cursor = rest at hkeys
  have hge := ceilDiv_mul_ge keys.length hlimit
  have hlt := ceilDiv_mul_lt keys.length hlimit
  by_cases hnil : rest = []
  · rw [rotation_restart (hrest.trans hnil),
      rotation_flatten hsorted hlimit (List.nil_append keys).symm rfl hge hlt]
    exact List.mem_append_left _ hk
  · have hlen : keys.length = done.length + rest.length := by
      rw [hkeys, List.length_append]
    have hpos : 0 < rest.length := List.length_pos_of_ne_nil hnil
    have hge' := ceilDiv_mul_ge rest.length hlimit
    have hlt' := ceilDiv_mul_lt rest.length hlimit
    have hle : rest.length ⌈/⌉ limit ≤ keys.length ⌈/⌉ limit := by
      rw [ceilDiv_le_iff_le_mul hlimit, Nat.mul_comm]
      omega
    have hfirst : 0 < rest.length ⌈/⌉ limit := by
      rcases Nat.eq_zero_or_pos (rest.length ⌈/⌉ limit) with h0 | hpos
      · rw [h0] at hge'
        omega
      · exact hpos
    obtain ⟨more, hmore⟩ := Nat.exists_eq_add_of_le
      (show rest.length ⌈/⌉ limit ≤ keys.length ⌈/⌉ limit + 1 by omega)
    have hsum : (keys.length ⌈/⌉ limit + 1) * limit =
        rest.length ⌈/⌉ limit * limit + more * limit := by
      rw [hmore, Nat.add_mul]
    have hbound : more * limit ≤ keys.length ⌈/⌉ limit * limit :=
      Nat.mul_le_mul_right limit (by omega)
    rw [Nat.succ_mul] at hsum
    rw [hmore, rotation_flatten hsorted hlimit hkeys hrest hge' hlt',
      rotation_prefix hsorted hlimit (List.nil_append keys).symm rfl (by omega)]
    rw [hkeys] at hk
    rcases List.mem_append.mp hk with hk | hk
    · have hinitial : keys.take (more * limit) =
          done ++ rest.take (more * limit - done.length) := by
        rw [hkeys, List.take_append, List.take_of_length_le (by omega)]
      rw [hinitial]
      exact List.mem_append_right _ (List.mem_append_left _ hk)
    · exact List.mem_append_left _ hk

end

end Quantive
