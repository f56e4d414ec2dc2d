import Quantive.ReadCommitted.Alone

/-!
# Statements that lock one row

Under READ COMMITTED a statement takes its candidates from the database as it is when the
statement starts, locks a row, and checks its WHERE clause again on the locked row. `row d k`
is the row of key `k` when it meets the clause in `d`.
-/

namespace Quantive.ReadCommitted
variable {D W L Q ι K ρ : Type} {R : Q → Type} {ε : Type}

namespace Prog

/-- `SELECT … LIMIT 1 FOR UPDATE SKIP LOCKED` over the keys of its snapshot, in their order. -/
def lockFirst (lock : K → L) (row : D → K → Option ρ) : List K → Prog D W L R ε (Option (K × ρ))
  | [] => pure none
  | k :: ks => do
    if ← tryAcquire (lock k) then
      let d ← view
      match row d k with
      | some r => pure (some (k, r))
      | none => lockFirst lock row ks
    else lockFirst lock row ks

/-- The row that an `UPDATE … WHERE` on one key changes. -/
def lockMatching (lock : L) (row : D → Option ρ) : Prog D W L R ε (Option ρ) := do
  let snapshot ← view
  match row snapshot with
  | none => pure none
  | some _ =>
    acquire lock
    let d ← view
    pure (row d)

end Prog

namespace Protocol
open Prog
variable [Store D W] {P : Protocol ι D L} {O : (q : Q) → R q → Prop} {i : ι}
  {J Pre : Ctx W L → D → Prop}

/-- An assertion that the others leave alone and that locking keeps. -/
structure Lockable (P : Protocol ι D L) (i : ι) (Pre : Ctx W L → D → Prop) : Prop where
  stable : ∀ c d d', Pre c d → P.Env i c d d' → Pre c d'
  hold : ∀ c d l, Pre c d → Pre (c.hold l) d

theorem triple_lockFirst (hPre : Lockable P i Pre) {lock : K → L} {row : D → K → Option ρ}
    (ks : List K) : P.Triple O i J Pre (lockFirst lock row ks : Prog D W L R ε (Option (K × ρ)))
      fun found c d => Pre c d ∧ ∀ k r, found = some (k, r) →
        lock k ∈ c.held ∧ row (c.view d) k = some r := by
  induction ks with
  | nil => exact triple_pure fun c d h => ⟨h, fun k r hf => by cases hf⟩
  | cons k ks ih =>
    refine Triple.seq (fun locked c d => Pre c d ∧ (locked = true → lock k ∈ c.held))
      (triple_tryAcquire fun c d d' h he => ?_) fun locked => ?_
    · have h' := hPre.stable c d d' h he
      exact ⟨⟨hPre.hold c d' _ h', fun _ => List.mem_cons_self⟩, h', fun hl => by cases hl⟩
    · cases locked with
      | false => exact ih.pre fun c d h => h.1
      | true =>
        refine Triple.seq (fun s c d => (Pre c d ∧ lock k ∈ c.held) ∧ s = c.view d)
          (triple_view fun c d d' h he => ⟨⟨hPre.stable c d d' h.1 he, h.2 rfl⟩, rfl⟩) fun s => ?_
        cases hrow : row s k with
        | none => exact ih.pre fun c d h => h.1.1
        | some r =>
          refine triple_pure fun c d h => ⟨h.1.1, fun k' r' hf => ?_⟩
          cases hf
          exact ⟨h.1.2, h.2 ▸ hrow⟩

/-- The row is one of those asked for. -/
theorem triple_lockFirst_mem (hPre : Lockable P i Pre) {lock : K → L} {row : D → K → Option ρ}
    (ks : List K) : P.Triple O i J Pre (lockFirst lock row ks : Prog D W L R ε (Option (K × ρ)))
      fun found c d => Pre c d ∧ ∀ k r, found = some (k, r) →
        k ∈ ks ∧ lock k ∈ c.held ∧ row (c.view d) k = some r := by
  have hmem (ks : List K) : P.Triple O i J Pre (lockFirst lock row ks : Prog D W L R ε (Option (K × ρ)))
      fun found _ _ => ∀ k r, found = some (k, r) → k ∈ ks := by
    induction ks with
    | nil => exact triple_pure fun c d h k r hf => by cases hf
    | cons k ks ih =>
      have hrest := ih.post fun found c d h k' r hf => List.mem_cons_of_mem k (h k' r hf)
      refine Triple.seq (fun _ => Pre) (triple_tryAcquire fun c d d' h he =>
        ⟨hPre.hold c d' _ (hPre.stable c d d' h he), hPre.stable c d d' h he⟩) fun locked => ?_
      cases locked with
      | false => exact hrest
      | true =>
        refine Triple.seq (fun _ => Pre) (triple_view fun c d d' h he => hPre.stable c d d' h he) fun s => ?_
        cases hrow : row s k with
        | none => exact hrest
        | some r =>
          refine triple_pure fun c d h k' r' hf => ?_
          cases hf
          exact List.mem_cons_self
  refine ((triple_lockFirst hPre ks).and (hmem ks)).conseq (fun c d h => ⟨h, h⟩) fun found c d h => ?_
  exact ⟨h.1.1, fun k r hf => ⟨h.2 k r hf, h.1.2 k r hf⟩⟩

theorem triple_lockMatching (hPre : Lockable P i Pre) {lock : L} {row : D → Option ρ} :
    P.Triple O i J Pre (lockMatching lock row : Prog D W L R ε (Option ρ))
      fun found c d => Pre c d ∧ ∀ r, found = some r → lock ∈ c.held ∧ row (c.view d) = some r := by
  refine (triple_look hPre.stable).bind fun s => ?_
  cases hrow : row s with
  | none => exact triple_pure fun c d h => ⟨h.1, fun r hf => by cases hf⟩
  | some r =>
    refine Triple.seq (fun _ c d => Pre c d ∧ lock ∈ c.held) (triple_acquire fun c d d' h he =>
      ⟨hPre.hold c d' _ (hPre.stable c d d' h.1 he), List.mem_cons_self⟩) fun _ => ?_
    refine Triple.seq (fun s c d => (Pre c d ∧ lock ∈ c.held) ∧ s = c.view d)
      (triple_view fun c d d' h he => ⟨⟨hPre.stable c d d' h.1 he, h.2⟩, rfl⟩) fun s => ?_
    exact triple_pure fun c d h => ⟨h.1.1, fun r hr => ⟨h.1.2, h.2 ▸ hr⟩⟩

end Protocol

namespace Prog
variable [Store D W] {ans : ℕ → (q : Q) → R q}

/-- A session alone locks the first of its keys whose row meets the clause. -/
theorem yields_lockFirst {lock : K → L} {row : D → K → Option ρ} {ks : List K}
    (s : Alone D W L) : Yields ans (lockFirst lock row ks : Prog D W L R ε (Option (K × ρ))) s
      fun found s' => found = ks.findSome? (fun k => (row s.view k).map fun r => (k, r)) ∧
        s' = { s with ctx := { s.ctx with held := s'.ctx.held } } := by
  induction ks generalizing s with
  | nil => exact yields_pure ⟨rfl, rfl⟩
  | cons k ks ih =>
    change Yields ans (match row s.view k with
      | some r => pure (some (k, r))
      | none => lockFirst lock row ks) (s.hold (lock k)) _
    cases hrow : row s.view k with
    | some r => exact yields_pure ⟨by simp [hrow], rfl⟩
    | none =>
      refine (ih (s.hold (lock k))).mono fun found s' h => ⟨?_, h.2⟩
      rw [h.1, List.findSome?_cons, hrow]
      rfl

end Prog
end Quantive.ReadCommitted
