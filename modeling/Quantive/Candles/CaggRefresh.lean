import Quantive.Intervals
import Quantive.Candles.Leases

/-!
# Refresh of the continuous aggregates

`services/cagg_refresh.py`: the scheduler that adds refresh jobs for the uncovered parts of
an aligned window, and the worker that refreshes the five aggregates one after the other
under its claim.
-/

namespace Quantive.Candles
open Quantive.ReadCommitted Prog

def caggRefreshJobs : JobTable CaggRefreshJob where
  rows := Database.caggJobs
  put := .putCaggJob
  lock := .caggJob
  pending job := job.status = .pending
  processing job := job.status = .processing
  claim := CaggRefreshJob.claim
  nextAttemptAt := CaggRefreshJob.nextAttemptAt
  createdAt := CaggRefreshJob.createdAt
  claimed c job := { job with status := .processing, claim := some c, nextAttemptAt := none }
  renewed c job := { job with claim := some c }

/-! ### Scheduling -/

/-- The bucket width that `compute_cagg_bucket_alignment` aligns to. -/
def bucketWidth (timeframe : Option String) : ℤ :=
  if timeframe = some "5m" then 5 * minute
  else if timeframe = some "15m" then 15 * minute
  else if timeframe = some "1h" then hour
  else if timeframe = some "4h" then 4 * hour
  else day

/-- `compute_cagg_bucket_alignment`, `cagg_refresh.py:428-497`. -/
def computeCaggBucketAlignment (startTime endTime : ℤ) (timeframe : Option String)
    (endInclusive : Bool) : Except Failure (ℤ × ℤ) := do
  if endInclusive then
    if endTime < startTime then
      throw (.valueError "inclusive CAGG refresh window must have start_time <= end_time")
  else
    if endTime ≤ startTime then
      throw (.valueError "CAGG refresh window must have start_time < end_time")
  let endTime := if endInclusive then endTime + 1 else endTime
  let width := bucketWidth timeframe
  let alignedEnd := floorTo width endTime
  pure (floorTo width startTime, if alignedEnd < endTime then alignedEnd + width else alignedEnd)

def CaggRefreshJob.meets (start stop : ℤ) (job : CaggRefreshJob) : Bool :=
  job.status.isActive && job.windowStart < stop && start < job.windowEnd

/-- The active jobs that meet a window, in the order of the SELECT. -/
def activeCaggJobs (d : Database) (start stop : ℤ) : List ℕ :=
  ((d.caggJobs.entries.filter fun e => CaggRefreshJob.meets start stop e.2).insertionSort
    fun e f => e.2.windowStart < f.2.windowStart ∨
      e.2.windowStart = f.2.windowStart ∧ e.1 ≤ f.1).map (·.1)

/-- INSERT of a refresh job with `ck_cagg_refresh_jobs_valid_window` and
`exclude_active_cagg_refresh_jobs`. -/
def insertCaggJob (windowStart windowEnd : ℤ) : Task Unit := do
  let id ← draw
  let createdAt ← Task.now
  let d ← view
  if h : windowStart < windowEnd then
    if (activeCaggJobs d windowStart windowEnd).isEmpty then
      emit (.putCaggJob id { windowStart := windowStart, windowEnd := windowEnd
                             createdAt := createdAt, valid := h })
    else raise (.database "IntegrityError")
  else raise (.database "IntegrityError")

def CaggRefreshJob.met (id : ℕ) (job : CaggRefreshJob) : MetJob :=
  ⟨id, job.windowStart, job.windowEnd, job.claim.map (·.leaseToken)⟩

/-- `schedule_cagg_refresh_jobs`, `cagg_refresh.py:500-550`. -/
def scheduleCaggRefreshJobs (startTime endTime : ℤ) (timeframe : Option String)
    (endInclusive : Bool) : Task Unit := do
  let (alignedStart, alignedEnd) ← Task.ofExcept
    (computeCaggBucketAlignment startTime endTime timeframe endInclusive)
  acquire .caggScheduler
  let d ← view
  let ids := activeCaggJobs d alignedStart alignedEnd
  let active ← Task.lockRows .caggJob (fun d id =>
    (d.caggJobs.lookup id).filter (CaggRefreshJob.meets alignedStart alignedEnd)) ids.length ids
  let uncovered := uncoveredIntervals alignedStart alignedEnd
    (active.map fun r => (r.2.windowStart, r.2.windowEnd))
  forEach (fun w => insertCaggJob w.1 w.2) uncovered
  emit (.note (.scheduled alignedStart alignedEnd (active.map fun r => r.2.met r.1) uncovered))

/-- `schedule_cagg_refresh_job`; a nonempty window always has a new or an active job. -/
def scheduleCaggRefreshJob (startTime endTime : ℤ) (timeframe : Option String)
    (endInclusive : Bool) : Task Unit :=
  scheduleCaggRefreshJobs startTime endTime timeframe endInclusive

/-! ### The worker -/

/-- `_refresh_one`, `cagg_refresh.py:228-300`. The procedure runs outside a transaction: its start
and its end are seen at once. -/
def refreshOne (cagg : Cagg) (job : CaggRefreshJob) (jobId workerId leaseToken : ℕ) : Task Unit := do
  if ← Task.ownershipLost then raise (.leaseLost jobId)
  caggRefreshJobs.assertOwned jobId workerId leaseToken
  Task.connection
  emit (.note (.refreshStarted cagg leaseToken job.windowStart job.windowEnd))
  commitNow
  Task.connection
  if ← Task.ownershipLost then raise (.leaseLost jobId)
  emit (.note (.refreshFinished cagg leaseToken job.windowStart job.windowEnd))
  commitNow

/-- `_complete_if_owned`. -/
def completeCaggJob (jobId workerId leaseToken : ℕ) : Task Bool := do
  let now ← Task.now
  Task.inTransaction (caggRefreshJobs.updateOwned now jobId workerId leaseToken fun job =>
    { job with status := .completed, claim := none, nextAttemptAt := none, errorCategory := none })

/-- The row after a failed attempt. -/
def CaggRefreshJob.failed (error : Failure) (now : ℤ) (job : CaggRefreshJob) : CaggRefreshJob :=
  let job := { job with
    retryCount := job.retryCount + 1, errorCategory := some error.typeName, claim := none }
  if job.retryCount ≤ job.maxRetries then
    { job with status := .pending, nextAttemptAt := some (now + retryDelay job.retryCount) }
  else { job with status := .failed, nextAttemptAt := none }

/-- What the handlers of a worker make of an attempt: a lost lease is left alone, another error is
recorded. -/
def settleAttempt (attempt : Task Unit) (record : Failure → Task Unit)
    (raiseOnAttemptError : Bool) : Task Unit := do
  match ← attempt.attempt with
  | .ok () => pure ()
  | .error (.leaseLost _) => pure ()
  | .error e =>
    record e
    if raiseOnAttemptError then raise e

/-- `process_pending_jobs`, `cagg_refresh.py:352-425`. -/
def processPendingCaggJobs (leaseDuration : ℤ) (respectRetrySchedule raiseOnAttemptError : Bool) :
    Task Bool := do
  let workerId ← draw
  match ← caggRefreshJobs.claimNext workerId leaseDuration respectRetrySchedule with
  | none => pure false
  | some (jobId, job, leaseToken) =>
    let attempt : Task Unit := do
      forEach (fun cagg => refreshOne cagg job jobId workerId leaseToken) caggNames
      if ← Task.ownershipLost then raise (.leaseLost jobId)
      if !(← completeCaggJob jobId workerId leaseToken) then raise (.leaseLost jobId)
    let record (error : Failure) : Task Unit :=
      caggRefreshJobs.recordFailure jobId workerId leaseToken (CaggRefreshJob.failed error)
    settleAttempt attempt record raiseOnAttemptError
    pure true

/-! ### What these programs write -/

section
variable {O : (q : Question) → Answer q → Prop} {S : Write → Prop} {A : Question → Prop}

/-- The writes of a scheduling call. -/
def SchedulerWrite : Write → Prop
  | .putCaggJob _ _ => True
  | .note (.scheduled _ _ _ _) => True
  | _ => False

theorem emits_insertCaggJob (hA : LocalQuestions A) (windowStart windowEnd : ℤ) :
    (insertCaggJob windowStart windowEnd).Emits O SchedulerWrite A := by
  refine emits_draw.bind fun id => (emits_now hA).bind fun createdAt => ?_
  refine emits_view.bind fun d => ?_
  split
  · split
    · exact (emits_emit _).mpr trivial
    · trivial
  · trivial

theorem emits_scheduleCaggRefreshJobs (hA : LocalQuestions A) (startTime endTime : ℤ)
    (timeframe : Option String) (endInclusive : Bool) :
    (scheduleCaggRefreshJobs startTime endTime timeframe endInclusive).Emits O SchedulerWrite A := by
  refine (emits_ofExcept _).bind fun window => Emits.bind (emits_acquire _) fun _ => ?_
  refine emits_view.bind fun d => Emits.bind (emits_lockRows _ _ _ _) fun active => ?_
  refine Emits.bind (Emits.forEach fun w _ => emits_insertCaggJob hA _ _) fun _ => ?_
  exact (emits_emit _).mpr trivial

theorem emits_settleAttempt {attempt : Task Unit} {record : Failure → Task Unit}
    (hattempt : attempt.Emits O S A) (hrecord : ∀ e, (record e).Emits O S A)
    (raiseOnAttemptError : Bool) :
    (settleAttempt attempt record raiseOnAttemptError).Emits O S A := by
  refine hattempt.attempt.bind fun r => ?_
  split
  · trivial
  · trivial
  · refine (hrecord _).bind fun _ => ?_
    split <;> trivial

end

end Quantive.Candles
