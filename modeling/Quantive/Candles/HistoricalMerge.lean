import Quantive.Candles.GapRepair

/-!
# Historical merge

`services/historical_merge.py`: one durable job a day, whose worker moves the staged candles
of the day to the raw table page by page, hands the day to the refresh scheduler, and then
wakes the gap jobs that wait for it.
-/

namespace Quantive.Candles
open Quantive.ReadCommitted Prog

def mergeJobs : JobTable HistoricalMergeJob where
  rows := Database.mergeJobs
  put := .putMergeJob
  lock := .mergeJob
  pending job := job.status = .pending
  processing job := job.status = .processing
  claim := HistoricalMergeJob.claim
  nextAttemptAt := HistoricalMergeJob.nextAttemptAt
  createdAt := HistoricalMergeJob.createdAt
  claimed c job := { job with status := .processing, claim := some c, nextAttemptAt := none }
  renewed c job := { job with claim := some c }

/-! ### Days -/

/-- The days of the staged candles, in order. -/
def Database.stagedDays (d : Database) : List ℤ :=
  (d.staging.keys.map fun k => floorTo day k.timestamp).dedup.insertionSort (· ≤ ·)

def HistoricalMergeJob.reopened (job : HistoricalMergeJob) : HistoricalMergeJob :=
  { job with status := .pending, claim := none, nextAttemptAt := none, errorCategory := none }

/-- INSERT of a day with ON CONFLICT DO UPDATE of a closed job. -/
def upsertMergeDay (dayBucket : ℤ) : Task Unit := do
  let id ← draw
  let createdAt ← Task.now
  acquire (.mergeDay dayBucket)
  let d ← view
  match d.mergeJobs.entries.find? fun e => e.2.dayBucket = dayBucket with
  | none => emit (.putMergeJob id { dayBucket := dayBucket, createdAt := createdAt })
  | some e =>
    acquire (.mergeJob e.1)
    let d ← view
    match d.mergeJobs.lookup e.1 with
    | none => pure ()
    | some job =>
      if job.status = .completed ∨ job.status = .failed then emit (.putMergeJob e.1 job.reopened)

/-- `schedule_staged_days`, `historical_merge.py:51-92`. -/
def scheduleStagedDays (maxDays : ℕ) : Task Unit := do
  if maxDays = 0 then raise (.valueError "max_days must be positive")
  Task.inTransaction do
    let d ← view
    forEach upsertMergeDay (d.stagedDays.take maxDays)

/-! ### Pages -/

/-- `_decompress_day` and `_recompress_day`: a fenced statement that moves no row. -/
def compressionStatement (jobId workerId leaseToken : ℕ) : Task Unit := do
  if ← Task.ownershipLost then raise (.leaseLost jobId)
  mergeJobs.assertOwned jobId workerId leaseToken
  Task.connection

/-- The staged keys of a day, by asset and timestamp. -/
def Database.stagedKeys (d : Database) (start stop : ℤ) : List CandleKey :=
  (d.staging.keys.filter fun k => start ≤ k.timestamp && k.timestamp < stop).insertionSort
    fun k l => k.assetId < l.assetId ∨ k.assetId = l.assetId ∧ k.timestamp ≤ l.timestamp

/-- The dict of a staged row. -/
def stagedPayload (row : CandleKey × StoredCandle) : CandlePayload :=
  { assetId := some row.1.assetId, timestamp := row.1.timestamp
    «open» := some row.2.values.open, high := some row.2.values.high
    low := some row.2.values.low, close := some row.2.values.close
    volume := some row.2.values.volume, source := some row.2.source
    sourceEventTime := row.2.sourceEventTime, sourceReceivedAt := row.2.sourceReceivedAt }

/-- The rows of one asset after the other. -/
def promoteGroup (jobId : ℕ) (group : List (CandleKey × StoredCandle)) : Task Unit :=
  match group with
  | [] => pure ()
  | row :: _ => commitRawBatchInTransaction (.mergeJob jobId) row.1.assetId (group.map stagedPayload)

/-- `_merge_one_page`, `historical_merge.py:246-310`. -/
def mergeOnePage (dayBucket : ℤ) (pageSize jobId workerId leaseToken : ℕ) : Task ℕ := do
  if ← Task.ownershipLost then raise (.leaseLost jobId)
  Task.inTransaction do
    mergeJobs.assertOwnedLocked jobId workerId leaseToken
    let d ← view
    let (rows, _) ← Task.lockRowsSkip .stagedCandle (fun d k => d.staging.lookup k) pageSize
      (d.stagedKeys dayBucket (dayBucket + day))
    if rows.isEmpty then pure 0
    else
      if ← Task.ownershipLost then raise (.leaseLost jobId)
      forEach (promoteGroup jobId) (rows.splitBy fun r s => r.1.assetId = s.1.assetId)
      forEach (fun row => emit (.deleteStaged row.1)) rows
      pure rows.length

/-- The loop over the pages; the fuel bounds their number. -/
def mergePages (dayBucket : ℤ) (pageSize jobId workerId leaseToken : ℕ) : ℕ → Task Unit
  | 0 => stuck
  | fuel + 1 => do
    if ← Task.ownershipLost then raise (.leaseLost jobId)
    let count ← mergeOnePage dayBucket pageSize jobId workerId leaseToken
    if count = 0 then pure ()
    else mergePages dayBucket pageSize jobId workerId leaseToken fuel

/-! ### Completion -/

/-- `_complete_if_owned`, `historical_merge.py:332-380`. -/
def completeMergeJob (dayBucket : ℤ) (jobId workerId leaseToken : ℕ) : Task Bool := do
  let now ← Task.now
  Task.inTransaction do
    mergeJobs.assertOwnedLocked jobId workerId leaseToken
    let d ← view
    if !(d.stagedKeys dayBucket (dayBucket + day)).isEmpty then pure false
    else
      scheduleCaggRefreshJob dayBucket (dayBucket + day) (some "1d") false
      mergeJobs.updateOwned now jobId workerId leaseToken fun job =>
        { job with status := .completed, claim := none, nextAttemptAt := none
                   errorCategory := none }

/-- The row after a failed attempt. -/
def HistoricalMergeJob.failed (error : Failure) (now : ℤ) (job : HistoricalMergeJob) :
    HistoricalMergeJob :=
  let job := { job with
    retryCount := job.retryCount + 1, errorCategory := some error.typeName, claim := none }
  if job.retryCount ≤ job.maxRetries then
    { job with status := .pending, nextAttemptAt := some (now + retryDelay job.retryCount) }
  else { job with status := .failed, nextAttemptAt := none }

/-- The check and the update of one waiting job. -/
def releaseGapJob (id : ℕ) (job : GapRepairJob) : Task Unit := do
  let d ← view
  if d.stagedFor job then pure ()
  else
    let now ← Task.now
    emit (.putGapJob id { job with status := .pending, nextAttemptAt := some now })

/-- `_release_gap_jobs_waiting_for_merge`, `historical_merge.py:420-456`, after the completion under
`leaseToken`. -/
def releaseGapJobsWaitingForMerge (maxJobs leaseToken : ℕ) : Task Unit := do
  if maxJobs = 0 then raise (.valueError "max_jobs must be positive")
  Task.inTransaction do
    let d ← view
    let waiting (job : GapRepairJob) : Bool := job.status = .awaitingMerge
    let (rows, complete) ← Task.lockRowsSkip .gapJob (gapRepairJobs.select · waiting) maxJobs
      (gapRepairJobs.oldest d waiting)
    forEach (fun r => releaseGapJob r.1 r.2) rows
    emit (.note (.released leaseToken complete))

/-! ### The worker -/

structure MergeParameters where
  leaseDuration : ℤ := 5 * minute
  pageSize : ℕ := 1000
  respectRetrySchedule : Bool := true
  raiseOnAttemptError : Bool := true

/-- The attempt of `process_next_job` on a claimed day. -/
def mergeAttempt (p : MergeParameters) (dayBucket : ℤ) (jobId workerId leaseToken fuel : ℕ) :
    Task Unit := do
  compressionStatement jobId workerId leaseToken
  mergePages dayBucket p.pageSize jobId workerId leaseToken fuel
  compressionStatement jobId workerId leaseToken
  if ← Task.ownershipLost then raise (.leaseLost jobId)
  if !(← completeMergeJob dayBucket jobId workerId leaseToken) then raise (.leaseLost jobId)
  releaseGapJobsWaitingForMerge 100 leaseToken

/-- `process_next_job`, `historical_merge.py:458-553`. -/
def processNextMergeJob (p : MergeParameters) (fuel : ℕ) : Task Bool := do
  if p.pageSize = 0 then raise (.valueError "page_size must be positive")
  let workerId ← draw
  match ← mergeJobs.claimNext workerId p.leaseDuration p.respectRetrySchedule with
  | none => pure false
  | some (jobId, job, leaseToken) =>
    settleAttempt (mergeAttempt p job.dayBucket jobId workerId leaseToken fuel)
      (fun error => mergeJobs.recordFailure jobId workerId leaseToken
        (HistoricalMergeJob.failed error)) p.raiseOnAttemptError
    pure true

/-- The loop of `process_available_jobs`. -/
def processMergeJobs (p : MergeParameters) (fuel : ℕ) : ℕ → Task Unit
  | 0 => pure ()
  | maxJobs + 1 => do
    if ← processNextMergeJob p fuel then processMergeJobs p fuel maxJobs

/-- `process_available_jobs`, `historical_merge.py:555-574`. -/
def processAvailableJobs (maxJobs maxScheduleDays : ℕ) (p : MergeParameters) (fuel : ℕ) :
    Task Unit := do
  if maxJobs = 0 ∨ maxScheduleDays = 0 then
    raise (.valueError "historical merge bounds must be positive")
  scheduleStagedDays maxScheduleDays
  processMergeJobs p fuel maxJobs

end Quantive.Candles
