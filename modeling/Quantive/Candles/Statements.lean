import Quantive.Candles.Schema

/-!
# Statements

The locking statements of the services. Under READ COMMITTED a statement takes its rows
from the database as it is when the statement starts, then locks them one by one and
checks its WHERE clause again on the locked row.
-/

namespace Quantive.Candles
open Quantive.ReadCommitted Prog

namespace Task
variable {K ρ : Type}

def ofExcept {α : Type} : Except Failure α → Task α
  | .ok a => pure a
  | .error e => raise e

section
variable (lock : K → Lock) (row : Database → K → Option ρ)

/-- `SELECT … LIMIT n FOR UPDATE` over the keys of its snapshot. -/
def lockRows : ℕ → List K → Task (List (K × ρ))
  | _, [] => pure []
  | 0, _ :: _ => pure []
  | n + 1, k :: ks => do
    acquire (lock k)
    let d ← view
    match row d k with
    | some r => do
      let rest ← lockRows n ks
      pure ((k, r) :: rest)
    | none => lockRows (n + 1) ks

/-- `SELECT … LIMIT n FOR UPDATE SKIP LOCKED`; the flag tells that no row of the snapshot was
locked by another session or beyond the limit. -/
def lockRowsSkip : ℕ → List K → Task (List (K × ρ) × Bool)
  | _, [] => pure ([], true)
  | 0, _ :: _ => pure ([], false)
  | n + 1, k :: ks => do
    if ← tryAcquire (lock k) then
      let d ← view
      match row d k with
      | some r => do
        let (rest, complete) ← lockRowsSkip n ks
        pure ((k, r) :: rest, complete)
      | none => lockRowsSkip (n + 1) ks
    else
      let (rest, _) ← lockRowsSkip (n + 1) ks
      pure (rest, false)

end

/-- `UPDATE … WHERE` on one row; tells whether the row count is one. -/
def updateWhere (lock : Lock) (row : Database → Option ρ) (change : ρ → Write) : Task Bool := do
  match row (← view) with
  | none => pure false
  | some _ =>
    acquire lock
    match row (← view) with
    | none => pure false
    | some r =>
      emit (change r)
      pure true

@[simp] theorem ofExcept_ok_bind {α β : Type} (a : α) (f : α → Task β) :
    ofExcept (.ok a) >>= f = f a := rfl

@[simp] theorem ofExcept_error_bind {α β : Type} (e : Failure) (f : α → Task β) :
    ofExcept (.error e) >>= f = raise e := rfl

end Task

/-! ### What these statements write -/

/-- The questions of every session: the clock, the connection and its own lease. -/
structure LocalQuestions (A : Question → Prop) : Prop where
  now : A .now
  fault : A .fault
  ownershipLost : A .ownershipLost

section
variable {K ρ α : Type} {O : (q : Question) → Answer q → Prop} {S : Write → Prop}
  {A : Question → Prop}

theorem emits_ofExcept (r : Except Failure α) : (Task.ofExcept r).Emits O S A := by
  cases r <;> trivial

theorem emits_now (hA : LocalQuestions A) : Task.now.Emits O S A := (emits_query _).mpr hA.now

theorem emits_ownershipLost (hA : LocalQuestions A) : Task.ownershipLost.Emits O S A :=
  (emits_query _).mpr hA.ownershipLost

theorem emits_connection (hA : LocalQuestions A) : Task.connection.Emits O S A := by
  refine Emits.bind ((emits_query _).mpr hA.fault) fun r => ?_
  cases r <;> trivial

theorem emits_inTransaction (hA : LocalQuestions A) {body : Task α} (h : body.Emits O S A) :
    (Task.inTransaction body).Emits O S A :=
  (emits_connection hA).bind fun _ => h.transaction.bind fun _ =>
    (emits_connection hA).bind fun _ => trivial

theorem emits_lockRows (lock : K → Lock) (row : Database → K → Option ρ) (n : ℕ) (ks : List K) :
    (Task.lockRows lock row n ks).Emits O S A := by
  induction ks generalizing n with
  | nil => cases n <;> trivial
  | cons k ks ih =>
    cases n with
    | zero => trivial
    | succ n =>
      refine Emits.bind (emits_acquire _) fun _ => emits_view.bind fun d => ?_
      cases row d k with
      | none => exact ih (n + 1)
      | some r => exact (ih n).bind fun _ => trivial

theorem emits_lockRowsSkip (lock : K → Lock) (row : Database → K → Option ρ) (n : ℕ)
    (ks : List K) : (Task.lockRowsSkip lock row n ks).Emits O S A := by
  induction ks generalizing n with
  | nil => cases n <;> trivial
  | cons k ks ih =>
    cases n with
    | zero => trivial
    | succ n =>
      refine Emits.bind (emits_tryAcquire _) fun b => ?_
      cases b with
      | true =>
        refine emits_view.bind fun d => ?_
        cases row d k with
        | none => exact ih (n + 1)
        | some r => exact (ih n).bind fun _ => trivial
      | false => exact (ih (n + 1)).bind fun _ => trivial

theorem emits_updateWhere {lock : Lock} {row : Database → Option ρ} {change : ρ → Write}
    (h : ∀ r, S (change r)) : (Task.updateWhere lock row change).Emits O S A := by
  refine emits_view.bind fun d => ?_
  cases row d with
  | none => trivial
  | some _ =>
    refine Emits.bind (emits_acquire _) fun _ => emits_view.bind fun d => ?_
    cases row d with
    | none => trivial
    | some r => exact Emits.bind ((emits_emit _).mpr (h r)) fun _ => trivial

theorem open_ofExcept (r : Except Failure α) : (Task.ofExcept r).Open := by
  cases r <;> trivial

theorem open_now : Task.now.Open := fun _ => trivial

theorem open_ownershipLost : Task.ownershipLost.Open := fun _ => trivial

theorem open_connection : Task.connection.Open := by
  refine (open_query _).bind fun r => ?_
  cases r <;> trivial

theorem open_lockRows (lock : K → Lock) (row : Database → K → Option ρ) (n : ℕ) (ks : List K) :
    (Task.lockRows lock row n ks).Open := by
  induction ks generalizing n with
  | nil => cases n <;> trivial
  | cons k ks ih =>
    cases n with
    | zero => trivial
    | succ n =>
      intro d
      change Open (match row d k with | some r => _ | none => _)
      cases row d k with
      | none => exact ih (n + 1)
      | some r => exact (ih n).bind fun _ => trivial

theorem open_lockRowsSkip (lock : K → Lock) (row : Database → K → Option ρ) (n : ℕ)
    (ks : List K) : (Task.lockRowsSkip lock row n ks).Open := by
  induction ks generalizing n with
  | nil => cases n <;> trivial
  | cons k ks ih =>
    cases n with
    | zero => trivial
    | succ n =>
      refine (open_tryAcquire _).bind fun locked => ?_
      cases locked with
      | true =>
        refine open_view.bind fun d => ?_
        cases row d k with
        | none => exact ih (n + 1)
        | some r => exact (ih n).bind fun _ => trivial
      | false => exact (ih (n + 1)).bind fun _ => trivial

end

/-! ### What a locking SELECT finds -/

section
open Protocol
variable {ι K ρ : Type} {P : Protocol ι Database Lock} {O : (q : Question) → Answer q → Prop} {i : ι}
  {J : Ctx Write Lock → Database → Prop} {lock : K → Lock} {row : Database → K → Option ρ}

/-- The loop rule of a SELECT below its limit, over the rows so far and the keys to come. -/
theorem triple_lockRows {I : List (K × ρ) → List K → Ctx Write Lock → Database → Prop}
    (hstable : ∀ rows ks c d d', I rows ks c d → P.Env i c d d' → I rows ks c d')
    (hhold : ∀ rows k ks c d, I rows (k :: ks) c d → I rows (k :: ks) (c.hold (lock k)) d)
    (hfound : ∀ rows k ks c d r, I rows (k :: ks) c d → row (c.view d) k = some r →
      I (rows ++ [(k, r)]) ks c d)
    (hgone : ∀ rows k ks c d, I rows (k :: ks) c d → row (c.view d) k = none → I rows ks c d)
    {n : ℕ} {ks : List K} (hn : ks.length ≤ n) (rows : List (K × ρ)) :
    P.Triple O i J (I rows ks) (Task.lockRows lock row n ks) fun found => I (rows ++ found) [] := by
  induction ks generalizing n rows with
  | nil =>
    have hnil : (Task.lockRows lock row n []) = pure [] := by cases n <;> rfl
    rw [hnil]
    exact triple_pure fun c d h => by rwa [List.append_nil]
  | cons k ks ih =>
    cases n with
    | zero => exact absurd hn (Nat.not_succ_le_zero _)
    | succ n =>
      have hrest : ks.length ≤ n := Nat.le_of_succ_le_succ hn
      refine (triple_acquire fun c d d' h he =>
        hhold _ _ _ _ _ (hstable _ _ _ _ _ h he)).bind fun _ => ?_
      refine (triple_look (hstable rows (k :: ks))).bind fun s => ?_
      cases hrow : row s k with
      | none =>
        refine (ih (Nat.le_succ_of_le hrest) rows).pre fun c d h => ?_
        exact hgone _ _ _ _ _ h.1 (h.2 ▸ hrow)
      | some r =>
        refine ((ih hrest (rows ++ [(k, r)])).pre fun c d h => ?_).bind fun found => ?_
        · exact hfound _ _ _ _ _ _ h.1 (h.2 ▸ hrow)
        · exact triple_pure fun c d h => by
            rwa [List.append_assoc, List.singleton_append] at h

/-- The rule of a SELECT that skips locked rows: it finds some of its keys, in order. -/
theorem triple_lockRowsSkip {I : List (K × ρ) → Ctx Write Lock → Database → Prop}
    (hstable : ∀ rows c d d', I rows c d → P.Env i c d d' → I rows c d')
    (hhold : ∀ rows l c d, I rows c d → I rows (c.hold l) d)
    (hfound : ∀ rows k c d r, I rows c d → lock k ∈ c.held → row (c.view d) k = some r →
      I (rows ++ [(k, r)]) c d)
    (n : ℕ) (ks : List K) (rows : List (K × ρ)) :
    P.Triple O i J (I rows) (Task.lockRowsSkip lock row n ks) fun found c d =>
      (found.1.map (·.1)).Sublist ks ∧ I (rows ++ found.1) c d := by
  induction ks generalizing n rows with
  | nil =>
    have hnil : (Task.lockRowsSkip lock row n []) = pure ([], true) := by cases n <;> rfl
    rw [hnil]
    exact triple_pure fun c d h => ⟨List.Sublist.refl _, by rwa [List.append_nil]⟩
  | cons k ks ih =>
    cases n with
    | zero =>
      refine triple_pure fun c d h => ⟨List.nil_sublist _, ?_⟩
      show I (rows ++ []) c d
      rwa [List.append_nil]
    | succ n =>
      refine Triple.seq (fun locked c d => I rows c d ∧ (locked = true → lock k ∈ c.held))
        (triple_tryAcquire fun c d d' h he => ⟨⟨hhold _ _ _ _ (hstable _ _ _ _ h he), fun _ =>
          List.mem_cons_self⟩, hstable _ _ _ _ h he, fun hf => by cases hf⟩) fun locked => ?_
      cases locked with
      | true =>
        refine Triple.seq (fun s c d => (I rows c d ∧ lock k ∈ c.held) ∧ s = c.view d)
          (triple_view fun c d d' h he => ⟨⟨hstable _ _ _ _ h.1 he, h.2 rfl⟩, rfl⟩) fun s => ?_
        cases hrow : row s k with
        | none =>
          refine ((ih (n + 1) rows).pre fun c d h => h.1.1).post fun found c d h => ?_
          exact ⟨h.1.cons k, h.2⟩
        | some r =>
          refine ((ih n (rows ++ [(k, r)])).pre fun c d h => ?_).bind fun found => ?_
          · exact hfound _ _ _ _ _ h.1.1 h.1.2 (h.2 ▸ hrow)
          · obtain ⟨found, complete⟩ := found
            refine triple_pure fun c d h => ⟨h.1.cons_cons k, ?_⟩
            have happ := h.2
            rwa [List.append_assoc, List.singleton_append] at happ
      | false =>
        refine ((ih (n + 1) rows).pre fun c d h => h.1).bind fun found => ?_
        obtain ⟨found, complete⟩ := found
        exact triple_pure fun c d h => ⟨h.1.cons k, h.2⟩

end
end Quantive.Candles
