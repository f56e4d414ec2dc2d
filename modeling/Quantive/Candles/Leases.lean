import Mathlib.Data.List.Sort
import Quantive.Candles.Statements

/-!
# Claims on durable jobs

What the three job tables share: a worker claims the oldest ready job with a fresh fencing
token, renews the lease while it works, and every later statement checks that the claim
is still the one of the token and not expired.
-/

namespace Quantive.Candles
open Quantive.ReadCommitted Prog

/-- A job table; `claimed` is the row of a fresh claim, `renewed` the row of a renewed one. -/
structure JobTable (J : Type) where
  rows : Database → Table ℕ J
  put : ℕ → J → Write
  lock : ℕ → Lock
  pending : J → Bool
  processing : J → Bool
  claim : J → Option Claim
  nextAttemptAt : J → Option ℤ
  createdAt : J → ℤ
  claimed : Claim → J → J
  renewed : Claim → J → J

namespace JobTable
variable {J : Type} (T : JobTable J)

/-- The WHERE clause of a claim: pending and due, or processing and expired. -/
def ready (now : ℤ) (respectRetrySchedule : Bool) (job : J) : Bool :=
  (T.pending job && (!respectRetrySchedule || (T.nextAttemptAt job).all (· ≤ now))) ||
    (T.processing job && (T.claim job).any (·.leaseExpiresAt < now))

/-- The WHERE clause of every fenced statement. -/
def owned (now : ℤ) (workerId leaseToken : ℕ) (job : J) : Bool :=
  T.processing job && (T.claim job).any fun c =>
    c.workerId = workerId && c.leaseToken = leaseToken && now < c.leaseExpiresAt

def select (d : Database) (condition : J → Bool) (id : ℕ) : Option J :=
  ((T.rows d).lookup id).filter condition

/-- The ids that meet a condition, by `created_at` and `id`. -/
def oldest (d : Database) (condition : J → Bool) : List ℕ :=
  (((T.rows d).entries.filter fun e => condition e.2).insertionSort fun e f =>
    T.createdAt e.2 < T.createdAt f.2 ∨ T.createdAt e.2 = T.createdAt f.2 ∧ e.1 ≤ f.1).map
      fun e => e.1

/-- The claim statement: the id, the claimed row and its token. -/
def claimNext (workerId : ℕ) (leaseDuration : ℤ) (respectRetrySchedule : Bool) :
    Task (Option (ℕ × J × ℕ)) := do
  if leaseDuration ≤ 0 then raise (.valueError "lease_duration must be positive")
  let now ← Task.now
  Task.inTransaction do
    let d ← view
    let condition := T.ready now respectRetrySchedule
    let (rows, _) ← Task.lockRowsSkip T.lock (T.select · condition) 1 (T.oldest d condition)
    match rows with
    | [] => pure none
    | (id, job) :: _ =>
      let leaseToken ← draw
      let job := T.claimed ⟨workerId, leaseToken, now, now + leaseDuration⟩ job
      emit (.note (.claimed leaseToken))
      emit (T.put id job)
      pure (some (id, job, leaseToken))

/-- The ownership check inside a transaction that locks the row. -/
def assertOwnedLocked (jobId workerId leaseToken : ℕ) : Task Unit := do
  let now ← Task.now
  let rows ← Task.lockRows T.lock (T.select · (T.owned now workerId leaseToken)) 1 [jobId]
  if rows.isEmpty then raise (.leaseLost jobId)

/-- The ownership check in a session of its own. -/
def assertOwned (jobId workerId leaseToken : ℕ) : Task Unit := do
  let now ← Task.now
  Task.connection
  let d ← view
  if (T.select d (T.owned now workerId leaseToken) jobId).isNone then raise (.leaseLost jobId)

/-- A fenced UPDATE of one row. -/
def updateOwned (now : ℤ) (jobId workerId leaseToken : ℕ) (change : J → J) : Task Bool :=
  Task.updateWhere (T.lock jobId) (T.select · (T.owned now workerId leaseToken) jobId)
    fun job => T.put jobId (change job)

def renewLease (now leaseDuration : ℤ) (job : J) : J :=
  match T.claim job with
  | none => job
  | some c => T.renewed { c with leaseExpiresAt := now + leaseDuration } job

/-- `_heartbeat_loop`, cancelled after some renewals. -/
def heartbeatLoop (jobId workerId leaseToken : ℕ) (leaseDuration : ℤ) : ℕ → Task Unit
  | 0 => pure ()
  | renewals + 1 => do
    let now ← Task.now
    match ← (Task.inTransaction (T.updateOwned now jobId workerId leaseToken
        (T.renewLease now leaseDuration))).attempt with
    | .ok true => heartbeatLoop jobId workerId leaseToken leaseDuration renewals
    | _ => pure ()

/-- `_record_failure_if_owned`: the row is read under its lock. -/
def recordFailure (jobId workerId leaseToken : ℕ) (failed : ℤ → J → J) : Task Unit := do
  let now ← Task.now
  Task.inTransaction do
    let rows ← Task.lockRows T.lock (fun d id => (T.rows d).lookup id) 1 [jobId]
    match rows with
    | [] => pure ()
    | (_, job) :: _ =>
      if T.owned now workerId leaseToken job then emit (T.put jobId (failed now job))

end JobTable

/-- `_retry_delay`. -/
def retryDelay (retryCount : ℕ) : ℤ := min (3600 * second) (30 * 2 ^ (retryCount - 1) * second)

/-! ### What these statements write -/

namespace JobTable
variable {J : Type} (T : JobTable J) {O : (q : Question) → Answer q → Prop} {S : Write → Prop}
  {A : Question → Prop}

theorem emits_claimNext (hA : LocalQuestions A) (hS : ∀ id job, S (T.put id job))
    (hnote : ∀ token, S (.note (.claimed token))) (workerId : ℕ) (leaseDuration : ℤ)
    (respectRetrySchedule : Bool) :
    (T.claimNext workerId leaseDuration respectRetrySchedule).Emits O S A := by
  unfold claimNext
  split
  · trivial
  · refine (emits_now hA).bind fun now => emits_inTransaction hA ?_
    refine emits_view.bind fun d => Emits.bind (emits_lockRowsSkip _ _ _ _) fun rows => ?_
    obtain ⟨rows, complete⟩ := rows
    cases rows with
    | nil => trivial
    | cons r rest =>
      refine emits_draw.bind fun token => Emits.bind ((emits_emit _).mpr (hnote _)) fun _ => ?_
      exact Emits.bind ((emits_emit _).mpr (hS _ _)) fun _ => trivial

theorem emits_assertOwnedLocked (hA : LocalQuestions A) (jobId workerId leaseToken : ℕ) :
    (T.assertOwnedLocked jobId workerId leaseToken).Emits O S A := by
  refine (emits_now hA).bind fun now => Emits.bind (emits_lockRows _ _ _ _) fun rows => ?_
  split <;> trivial

theorem open_assertOwnedLocked (jobId workerId leaseToken : ℕ) :
    (T.assertOwnedLocked jobId workerId leaseToken).Open := by
  refine open_now.bind fun now => Open.bind (open_lockRows _ _ _ _) fun rows => ?_
  split <;> trivial

theorem emits_assertOwned (hA : LocalQuestions A) (jobId workerId leaseToken : ℕ) :
    (T.assertOwned jobId workerId leaseToken).Emits O S A := by
  refine (emits_now hA).bind fun now => (emits_connection hA).bind fun _ => ?_
  refine emits_view.bind fun d => ?_
  split <;> trivial

theorem emits_updateOwned (hS : ∀ id job, S (T.put id job)) (now : ℤ)
    (jobId workerId leaseToken : ℕ) (change : J → J) :
    (T.updateOwned now jobId workerId leaseToken change).Emits O S A :=
  emits_updateWhere fun _ => hS _ _

theorem emits_heartbeatLoop (hA : LocalQuestions A) (hS : ∀ id job, S (T.put id job))
    (jobId workerId leaseToken : ℕ) (leaseDuration : ℤ) (renewals : ℕ) :
    (T.heartbeatLoop jobId workerId leaseToken leaseDuration renewals).Emits O S A := by
  induction renewals with
  | zero => trivial
  | succ renewals ih =>
    refine (emits_now hA).bind fun now => ?_
    refine (emits_inTransaction hA (T.emits_updateOwned hS _ _ _ _ _)).attempt.bind fun r => ?_
    split
    · exact ih
    · trivial

theorem emits_recordFailure (hA : LocalQuestions A) (hS : ∀ id job, S (T.put id job))
    (jobId workerId leaseToken : ℕ) (failed : ℤ → J → J) :
    (T.recordFailure jobId workerId leaseToken failed).Emits O S A := by
  refine (emits_now hA).bind fun now => emits_inTransaction hA ?_
  refine Emits.bind (emits_lockRows _ _ _ _) fun rows => ?_
  cases rows with
  | nil => trivial
  | cons r rest =>
    dsimp only
    split
    · exact (emits_emit _).mpr (hS _ _)
    · trivial

end JobTable

end Quantive.Candles
