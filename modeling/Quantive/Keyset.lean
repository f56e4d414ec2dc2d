import Mathlib.Algebra.GroupWithZero.Nat
import Mathlib.Order.Lattice
import Mathlib.Data.List.Basic

/-!
# Keyset pagination

A reader fetches at most `size` rows with a key above its cursor, handles them, moves the
cursor to the key of the last one, and stops at a short page. Over rows in strict key
order every row is handled once, in order, whatever the page size.
-/

namespace Quantive
variable {α κ σ ε : Type} [LinearOrder κ]

/-- The rows of a table with a key above the cursor. -/
def afterCursor (key : α → κ) (rows : List α) : Option κ → List α
  | none => rows
  | some cursor => rows.filter fun r => cursor < key r

/-- The loop over the pages; `none` when the fuel does not suffice. -/
def forPages (key : α → κ) (step : σ → List α → Except ε σ) (rows : List α) (size : ℕ) :
    ℕ → Option κ → σ → Option (Except ε σ)
  | 0, _, _ => none
  | fuel + 1, cursor, s =>
    let page := (afterCursor key rows cursor).take size
    match page.getLast? with
    | none => some (.ok s)
    | some last =>
      match step s page with
      | .error e => some (.error e)
      | .ok s' =>
        if page.length < size then some (.ok s')
        else forPages key step rows size fuel (some (key last)) s'

section
variable {key : α → κ} {step : σ → List α → Except ε σ} {rows : List α} {size : ℕ}

/-- The rows behind a handled one are those above its key. -/
theorem afterCursor_append {done rest : List α} {last : α}
    (hsorted : (done ++ last :: rest).Pairwise fun r s => key r < key s) :
    afterCursor key (done ++ last :: rest) (some (key last)) = rest := by
  obtain ⟨-, hlast, hcross⟩ := List.pairwise_append.mp hsorted
  obtain ⟨habove, -⟩ := List.pairwise_cons.mp hlast
  have hdone : done.filter (fun r => key last < key r) = [] :=
    List.filter_eq_nil_iff.mpr fun r hr => by
      simpa using le_of_lt (hcross r hr last List.mem_cons_self)
  have hrest : rest.filter (fun r => key last < key r) = rest :=
    List.filter_eq_self.mpr fun r hr => by simpa using habove r hr
  simp [afterCursor, hdone, hrest]

/-- The rows behind a cursor end the table, whether the cursor is the key of one or not. -/
theorem afterCursor_suffix (hsorted : rows.Pairwise fun r s => key r < key s) (cursor : Option κ) :
    ∃ done, rows = done ++ afterCursor key rows cursor := by
  cases cursor with
  | none => exact ⟨[], rfl⟩
  | some cursor =>
    induction rows with
    | nil => exact ⟨[], rfl⟩
    | cons r rows ih =>
      obtain ⟨habove, hsorted⟩ := List.pairwise_cons.mp hsorted
      by_cases hr : cursor < key r
      · have hall : (r :: rows).filter (fun s => cursor < key s) = r :: rows :=
          List.filter_eq_self.mpr fun s hs => by
            rcases List.mem_cons.mp hs with rfl | hs
            · simpa using hr
            · simpa using hr.trans (habove s hs)
        exact ⟨[], hall.symm⟩
      · obtain ⟨done, hdone⟩ := ih hsorted
        have hskip : afterCursor key (r :: rows) (some cursor) =
            afterCursor key rows (some cursor) := by
          rw [afterCursor, List.filter_cons_of_neg (by simpa using hr), afterCursor]
        exact ⟨r :: done, by rw [hskip, List.cons_append, ← hdone]⟩

/-- The rule for page loops: what every page preserves holds of all rows at the end. -/
theorem forPages_rule {I : List α → σ → Prop}
    (hsorted : rows.Pairwise fun r s => key r < key s) (hsize : 0 < size)
    (hstep : ∀ done page rest s, rows = done ++ page ++ rest → I done s →
      ∃ s', step s page = .ok s' ∧ I (done ++ page) s')
    {done rest : List α} {cursor : Option κ} {s : σ} {fuel : ℕ}
    (hrows : rows = done ++ rest) (hcursor : afterCursor key rows cursor = rest) (hI : I done s)
    (hfuel : rest.length < fuel) :
    ∃ s', forPages key step rows size fuel cursor s = some (.ok s') ∧ I rows s' := by
  induction fuel generalizing done rest cursor s with
  | zero => exact absurd hfuel (Nat.not_lt_zero _)
  | succ fuel ih =>
    unfold forPages
    rw [hcursor]
    rcases List.eq_nil_or_concat rest with hnil | ⟨_, _, hne⟩
    · subst hnil
      refine ⟨s, by simp, ?_⟩
      rwa [hrows, List.append_nil]
    · have hpage : rest.take size ≠ [] := by
        intro h
        rcases List.take_eq_nil_iff.mp h with h | h
        · omega
        · simp [h] at hne
      obtain ⟨init, last, hinit⟩ := List.eq_nil_or_concat (rest.take size) |>.resolve_left hpage
      have hsplit : rows = done ++ rest.take size ++ rest.drop size := by
        rw [List.append_assoc, List.take_append_drop, hrows]
      obtain ⟨s', hs', hI'⟩ := hstep done (rest.take size) (rest.drop size) s hsplit hI
      have hlast : (rest.take size).getLast? = some last := by
        rw [hinit, List.concat_eq_append, List.getLast?_concat]
      simp only [hlast, hs']
      by_cases hshort : (rest.take size).length < size
      · rw [if_pos hshort]
        have hall : rest.take size = rest := by
          rw [List.length_take] at hshort
          exact List.take_of_length_le (by omega)
        refine ⟨s', rfl, ?_⟩
        rwa [hall, ← hrows] at hI'
      · rw [if_neg hshort]
        have hrows' : rows = (done ++ init) ++ last :: rest.drop size := by
          rw [hsplit, hinit, List.concat_eq_append]
          simp
        refine ih hsplit ?_ hI' ?_
        · rw [hrows']
          exact afterCursor_append (hrows' ▸ hsorted)
        · rw [List.length_take] at hshort
          rw [List.length_drop]
          omega

/-- The pages of a run are fixed by the rows: whatever the body does with them, it meets the rows
one after the other. -/
theorem forPages_pages (hsorted : rows.Pairwise fun r s => key r < key s) (hsize : 0 < size)
    {done rest : List α} {cursor : Option κ} {fuel : ℕ} (hrows : rows = done ++ rest)
    (hcursor : afterCursor key rows cursor = rest) (hfuel : rest.length < fuel) :
    ∃ pages : List (List α), pages.flatten = rest ∧ (∀ page ∈ pages, page.length ≤ size) ∧
      ∀ {σ ε : Type} (step : σ → List α → Except ε σ) (s : σ),
        forPages key step rows size fuel cursor s = some (pages.foldlM step s) := by
  induction fuel generalizing done rest cursor with
  | zero => exact absurd hfuel (Nat.not_lt_zero _)
  | succ fuel ih =>
    unfold forPages
    rw [hcursor]
    rcases List.eq_nil_or_concat (rest.take size) with hpage | ⟨init, last, hinit⟩
    · have hnil : rest = [] := by
        rcases List.take_eq_nil_iff.mp hpage with h | h
        · omega
        · exact h
      refine ⟨[], hnil.symm, by simp, fun step s => ?_⟩
      rw [hpage]
      rfl
    · have hlast : (rest.take size).getLast? = some last := by
        rw [hinit, List.concat_eq_append, List.getLast?_concat]
      have hbound : (rest.take size).length ≤ size := List.length_take_le _ _
      simp only [hlast]
      by_cases hshort : (rest.take size).length < size
      · refine ⟨[rest.take size], ?_, by simp, fun step s => ?_⟩
        · rw [List.length_take] at hshort
          rw [List.flatten_singleton, List.take_of_length_le (by omega)]
        · rw [List.foldlM_cons]
          cases step s (rest.take size) with
          | error e => rfl
          | ok s' => exact if_pos hshort
      · have hsplit : rows = done ++ rest.take size ++ rest.drop size := by
          rw [List.append_assoc, List.take_append_drop, hrows]
        have hrows' : rows = (done ++ init) ++ last :: rest.drop size := by
          rw [hsplit, hinit, List.concat_eq_append]
          simp
        have hnext : afterCursor key rows (some (key last)) = rest.drop size := by
          rw [hrows']
          exact afterCursor_append (hrows' ▸ hsorted)
        have hfewer : (rest.drop size).length < fuel := by
          rw [List.length_take] at hshort
          rw [List.length_drop]
          omega
        obtain ⟨pages, hflat, hsizes, hpages⟩ := ih hsplit hnext hfewer
        refine ⟨rest.take size :: pages, ?_, List.forall_mem_cons.mpr ⟨hbound, hsizes⟩,
          fun step s => ?_⟩
        · rw [List.flatten_cons, hflat, List.take_append_drop]
        · rw [List.foldlM_cons]
          cases step s (rest.take size) with
          | error e => rfl
          | ok s' =>
            dsimp only
            rw [if_neg hshort]
            exact hpages step s'

theorem mem_of_afterCursor {cursor : Option κ} {r : α} (h : r ∈ afterCursor key rows cursor) :
    r ∈ rows := by
  cases cursor with
  | none => exact h
  | some cursor => exact (List.mem_filter.mp h).1

/-- What every page preserves holds after a loop that went through. -/
theorem forPages_kept {I : σ → Prop}
    (hstep : ∀ s page s', page ⊆ rows → step s page = .ok s' → I s → I s')
    {fuel : ℕ} {cursor : Option κ} {s s' : σ}
    (h : forPages key step rows size fuel cursor s = some (.ok s')) (hI : I s) : I s' := by
  induction fuel generalizing cursor s with
  | zero => cases h
  | succ fuel ih =>
    unfold forPages at h
    cases hlast : ((afterCursor key rows cursor).take size).getLast? with
    | none =>
      simp only [hlast, Option.some.injEq, Except.ok.injEq] at h
      exact h ▸ hI
    | some last =>
      cases hpage : step s ((afterCursor key rows cursor).take size) with
      | error e => simp [hlast, hpage] at h
      | ok s₁ =>
        have hrows : (afterCursor key rows cursor).take size ⊆ rows := fun r hr =>
          mem_of_afterCursor (List.mem_of_mem_take hr)
        have hI₁ := hstep s _ s₁ hrows hpage hI
        simp only [hlast, hpage] at h
        split at h
        · cases h
          exact hI₁
        · exact ih h hI₁

/-- A loop over states that `φ` relates takes the same course. -/
theorem forPages_map {φ : σ → σ} (hstep : ∀ s page, step (φ s) page = (step s page).map φ) {fuel : ℕ}
    {cursor : Option κ} {s s' : σ} (h : forPages key step rows size fuel cursor s = some (.ok s')) :
    forPages key step rows size fuel cursor (φ s) = some (.ok (φ s')) := by
  induction fuel generalizing cursor s with
  | zero => cases h
  | succ fuel ih =>
    unfold forPages at h ⊢
    cases hlast : ((afterCursor key rows cursor).take size).getLast? with
    | none =>
      simp only [hlast, Option.some.injEq, Except.ok.injEq] at h ⊢
      rw [h]
    | some last =>
      cases hpage : step s ((afterCursor key rows cursor).take size) with
      | error e => simp [hlast, hpage] at h
      | ok s₁ =>
        simp only [hlast, hpage, hstep, Except.map] at h ⊢
        split at h
        · rename_i hshort
          cases h
          rw [if_pos hshort]
        · rename_i hfull
          rw [if_neg hfull]
          exact ih h

end

/-- A loop whose every round adds a weight. -/
theorem foldlM_weight {γ : Type} {measure : σ → ℕ} {weight : γ → ℕ} {step : σ → γ → Except ε σ}
    (hstep : ∀ s x s', step s x = .ok s' → measure s' = measure s + weight x) {xs : List γ}
    {s s' : σ} (h : xs.foldlM step s = .ok s') : measure s' = measure s + (xs.map weight).sum := by
  induction xs generalizing s with
  | nil =>
    cases h
    rfl
  | cons x xs ih =>
    rw [List.foldlM_cons] at h
    cases hfirst : step s x with
    | error e =>
      rw [hfirst] at h
      cases h
    | ok s₁ =>
      rw [hfirst] at h
      rw [ih h, hstep s x s₁ hfirst, List.map_cons, List.sum_cons, Nat.add_assoc]

end Quantive
