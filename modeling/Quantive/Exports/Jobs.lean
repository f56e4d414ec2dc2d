import Mathlib.Algebra.Order.Ring.Rat
import Mathlib.Data.List.Sort
import Quantive.Exports.Schema

/-!
# `ExportJobService`

The claims and transitions of export jobs, each in a transaction of its own. The clock is
read before the transaction starts.
-/

namespace Quantive.Exports
open Quantive.ReadCommitted Prog

/-- `retry_delay` -/
def retryDelay (attemptCount : ℕ) : ℤ := min 3600 (30 * 2 ^ (attemptCount - 1)) * second

namespace ExportJob

/-- `_ready_condition`; without the retry schedule a pending job need not be due. -/
def ready (now : ℤ) (respectRetrySchedule : Bool) (job : ExportJob) : Bool :=
  (job.status = .pending && (!respectRetrySchedule || job.nextAttemptAt.all (· ≤ now)) &&
      job.attemptCount < job.maxAttempts) ||
    (job.status = .processing && job.leaseExpiresAt.any (· ≤ now) &&
      job.attemptCount < job.maxAttempts)

/-- The WHERE clause of the reaper. -/
def reapable (now : ℤ) (job : ExportJob) : Bool :=
  job.status = .processing && job.leaseExpiresAt.any (· ≤ now) &&
    job.maxAttempts ≤ job.attemptCount

/-- The WHERE clause of every fenced statement. -/
def owned (now : ℤ) (workerId leaseToken : ℕ) (job : ExportJob) : Bool :=
  job.status = .processing && job.workerId = some workerId &&
    job.leaseToken = some leaseToken && job.leaseExpiresAt.any (now < ·)

def unclaimed (job : ExportJob) : ExportJob :=
  { job with workerId := none, leaseToken := none, claimedAt := none, leaseExpiresAt := none }

def reaped (job : ExportJob) : ExportJob :=
  { job.unclaimed with
    status := .failed
    nextAttemptAt := none
    errorCategory := some "lease_expired"
    errorMessage := some "export lease expired after the maximum number of allowed attempts" }

def claimed (now : ℤ) (leaseDuration : ℤ) (workerId leaseToken : ℕ) (job : ExportJob) :
    ExportJob :=
  { job with
    status := .processing
    workerId := some workerId
    leaseToken := some leaseToken
    claimedAt := some now
    leaseExpiresAt := some (now + leaseDuration)
    nextAttemptAt := none
    attemptCount := job.attemptCount + 1 }

def renewed (leaseExpiresAt : ℤ) (job : ExportJob) : ExportJob :=
  { job with leaseExpiresAt := some leaseExpiresAt }

def completed (s3Key : ArtifactKey) (expiresAt : ℤ) (job : ExportJob) : ExportJob :=
  { job.unclaimed with
    status := .completed
    s3Key := some s3Key
    expiresAt := some expiresAt
    nextAttemptAt := none
    errorMessage := none
    errorCategory := none }

/-- The message of a failure ends in the traceback, which nothing reads. -/
def failed (now : ℤ) (error : Failure) (job : ExportJob) : ExportJob :=
  { job.unclaimed with
    errorCategory := some error.typeName
    errorMessage := some (error.typeName ++ ": " ++ error.message ++ "\n")
    status := if job.attemptCount < job.maxAttempts then .pending else .failed
    nextAttemptAt :=
      if job.attemptCount < job.maxAttempts then some (now + retryDelay job.attemptCount)
      else none }

end ExportJob

namespace Database

def select (d : Database) (condition : ExportJob → Bool) (id : ℕ) : Option ExportJob :=
  (d.job id).filter condition

/-- The ids that meet a condition, by `created_at` and `id`; `only` is an optional `id = only`. -/
def oldest (d : Database) (condition : ExportJob → Bool) (only : Option ℕ) : List ℕ :=
  ((d.jobs.entries.filter fun e => condition e.2 && only.all (· = e.1)).insertionSort fun e f =>
    e.2.createdAt < f.2.createdAt ∨ e.2.createdAt = f.2.createdAt ∧ e.1 ≤ f.1).map fun e => e.1

end Database

namespace ExportJobService

/-- `SELECT … ORDER BY created_at, id LIMIT 1 FOR UPDATE SKIP LOCKED` -/
def selectNext (condition : ExportJob → Bool) (only : Option ℕ) :
    Task (Option (ℕ × ExportJob)) := do
  let d ← view
  lockFirst Lock.job (fun d id => d.select condition id) (d.oldest condition only)

/-- One round of the reaper. -/
def reapNext (jobId : Option ℕ) : Task Bool := do
  let now ← Task.now
  Task.inTransaction .reap do
    match ← selectNext (·.reapable now) jobId with
    | none => pure false
    | some (id, job) =>
      emit (.putJob id job.reaped)
      pure true

def reapRounds (jobId : Option ℕ) : ℕ → ℕ → Task ℕ
  | 0, reaped => pure reaped
  | rounds + 1, reaped => do
    if ← reapNext jobId then reapRounds jobId rounds (reaped + 1) else pure reaped

def reapExpiredExhaustedJobs (maxJobs : ℤ) (jobId : Option ℕ) : Task ℕ := do
  if maxJobs ≤ 0 then raise (.valueError "max_jobs must be positive")
  reapRounds jobId maxJobs.toNat 0

/-- `_claim` -/
def claim (workerId : ℕ) (leaseDuration : ℤ) (jobId : Option ℕ) (respectRetrySchedule : Bool) :
    Task (Option (ℕ × ExportJob)) := do
  if leaseDuration ≤ 0 then raise (.valueError "lease_duration must be positive")
  let now ← Task.now
  Task.inTransaction .claim do
    match ← selectNext (·.ready now respectRetrySchedule) jobId with
    | none => pure none
    | some (id, job) =>
      let leaseToken ← draw
      let job := job.claimed now leaseDuration workerId leaseToken
      emit (.note (.claimed id leaseToken))
      emit (.putJob id job)
      pure (some (id, job))

def claimJob (jobId workerId : ℕ) (leaseDuration : ℤ) (respectRetrySchedule : Bool) :
    Task (Option (ℕ × ExportJob)) := do
  let _ ← reapExpiredExhaustedJobs 1 (some jobId)
  claim workerId leaseDuration (some jobId) respectRetrySchedule

def claimNextJob (workerId : ℕ) (leaseDuration : ℤ) (respectRetrySchedule : Bool) :
    Task (Option (ℕ × ExportJob)) :=
  claim workerId leaseDuration none respectRetrySchedule

def assertOwned (jobId workerId leaseToken : ℕ) : Task Unit := do
  let now ← Task.now
  let failure ← (query (Question.fault .assertOwned) : Task (Option Failure))
  Task.orRaise failure
  let d ← view
  if (d.select (·.owned now workerId leaseToken) jobId).isNone then
    raise (.leaseLost "export claim lost for job")

/-- The UPDATE of a fenced statement: the row it changes. -/
def updateOwned (now : ℤ) (jobId workerId leaseToken : ℕ) : Task (Option ExportJob) :=
  lockMatching (Lock.job jobId) fun d => d.select (·.owned now workerId leaseToken) jobId

/-- One renewal; tells whether the row count is one. -/
def renew (jobId workerId leaseToken : ℕ) (leaseDuration : ℤ) : Task Bool := do
  let now ← Task.now
  Task.inTransaction .heartbeat do
    match ← updateOwned now jobId workerId leaseToken with
    | none => pure false
    | some job =>
      emit (.putJob jobId (job.renewed (now + leaseDuration)))
      pure true

/-- `heartbeat_loop`, cancelled after some renewals. -/
def heartbeatLoop (jobId workerId leaseToken : ℕ) (leaseDuration : ℤ) (sleepInterval : ℚ)
    (renewals : ℕ) : Task Unit := do
  if sleepInterval ≤ 0 then raise (.valueError "sleep_interval must be positive")
  rounds renewals
where
  rounds : ℕ → Task Unit
    | 0 => pure ()
    | renewals + 1 => do
      match ← (renew jobId workerId leaseToken leaseDuration).attempt with
      | .ok true => rounds renewals
      | _ => pure ()

def completeIfOwned (jobId workerId leaseToken : ℕ) (s3Key : ArtifactKey) (expiresAt : ℤ) :
    Task Bool := do
  let now ← Task.now
  Task.inTransaction .complete do
    match ← updateOwned now jobId workerId leaseToken with
    | none => pure false
    | some job =>
      emit (.note (.completed jobId leaseToken now))
      emit (.putJob jobId (job.completed s3Key expiresAt))
      pure true

/-- `session.get(…, with_for_update=True)` locks the row before it is read. -/
def recordFailureIfOwned (jobId workerId leaseToken : ℕ) (error : Failure) : Task Bool := do
  let now ← Task.now
  Task.inTransaction .recordFailure do
    acquire (Lock.job jobId)
    let d ← view
    match d.select (·.owned now workerId leaseToken) jobId with
    | none => pure false
    | some job =>
      emit (.note (.failed jobId leaseToken now))
      emit (.putJob jobId (job.failed now error))
      pure true

end ExportJobService

/-- The row of `create_export`. -/
def newJob (assetId : ℕ) (timeframe : String) (startTime endTime : ℤ)
    (maxAttempts : { n : ℕ // 0 < n }) (createdAt : ℤ) : ExportJob :=
  { assetId, timeframe, startTime, endTime, createdAt
    maxAttempts := maxAttempts.1, positive := maxAttempts.2 }

/-- `create_export`: a new job under a drawn id. -/
def createExport (assetId : ℕ) (timeframe : String) (startTime endTime : ℤ)
    (maxAttempts : { n : ℕ // 0 < n }) : Task Unit := do
  let now ← Task.now
  transaction do
    let id ← draw
    emit (.putJob id (newJob assetId timeframe startTime endTime maxAttempts now))

/-- The wall clock moves on. -/
def tick (microseconds : ℕ) : Task Unit := do
  emit (.tick microseconds)
  commitNow

end Quantive.Exports
