import Quantive.Candles.Binance
import Quantive.Candles.CaggRefresh

/-!
# Gap repair

`services/gap_repair.py`: the scan that schedules a repair job for every missing interval,
and the worker that reconciles a claimed window with the exchange, batch by batch under its
claim, and then completes, parks or fails the job.
-/

namespace Quantive.Candles
open Quantive.ReadCommitted Prog

def gapRepairJobs : JobTable GapRepairJob where
  rows := Database.gapJobs
  put := .putGapJob
  lock := .gapJob
  pending job := job.status = .pending
  processing job := job.status = .processing
  claim := GapRepairJob.claim
  nextAttemptAt := GapRepairJob.nextAttemptAt
  createdAt := GapRepairJob.createdAt
  claimed c job := { job with status := .processing, claim := some c, nextAttemptAt := none }
  renewed c job := { job with claim := some c }

/-- A substring test, `marker in text`. -/
def contains (text marker : List Char) : Bool := text.tails.any fun t => marker.isPrefixOf t

/-- `str.lower`, as far as a marker in ASCII can tell: beyond ASCII, only the Kelvin sign and the
capital I with a dot have an ASCII letter in their lower case. -/
def lower (text : List Char) : List Char :=
  text.flatMap fun c =>
    if c.toNat = 0x212A then ['k']
    else if c.toNat = 0x130 then ['i', Char.ofNat 0x307]
    else [c.toLower]

/-- `classify_error`: the category and whether the job may retry. -/
def classifyError : Failure → String × Bool
  | .incompleteCoverage _ => ("INCOMPLETE_COVERAGE", true)
  | .rateLimit => ("RATE_LIMITED", true)
  | .temporaryBan => ("RATE_LIMITED", true)
  | .network => ("NETWORK", true)
  | .payloadCorruption _ => ("VALIDATION", false)
  | .malformedMessage _ => ("VALIDATION", false)
  | .valueError _ => ("VALIDATION", false)
  | .api text =>
    let errorText := lower text.toList
    let marked (markers : List String) : Bool := markers.any fun m => contains errorText m.toList
    if marked ["401", "403", "auth", "api key"] then ("AUTHENTICATION", false)
    else if marked ["400", "invalid symbol", "illegal"] then ("PERMANENT", false)
    else ("TRANSIENT", true)
  | e =>
    if ["OperationalError", "DBAPIError", "InterfaceError"].any fun m =>
        contains e.typeName.toList m.toList then ("DATABASE", true)
    else ("TRANSIENT", true)

/-- `GAP_REPAIR_MAX_ACTIVE_OVERLAPS` and the detection limits. -/
structure GapRepairSettings where
  detection : DetectionLimits := {}
  maxActiveOverlaps : ℕ := 500

/-- `detect_gaps`, in a session of its own. -/
def detectGaps (settings : GapRepairSettings) (assetId : ℕ) (startTime endTime : ℤ) :
    Task (List (ℤ × ℤ)) := do
  if endTime ≤ startTime then pure []
  else
    Task.connection
    detectMissingRanges settings.detection assetId startTime endTime

/-! ### Scheduling -/

def GapRepairJob.meets (assetId : ℕ) (start stop : ℤ) (job : GapRepairJob) : Bool :=
  job.assetId = assetId && job.status.isActive && job.startTime < stop && start < job.endTime

def activeGapJobs (d : Database) (assetId : ℕ) (start stop : ℤ) : List ℕ :=
  ((d.gapJobs.entries.filter fun e => GapRepairJob.meets assetId start stop e.2).insertionSort
    fun e f => e.2.startTime < f.2.startTime ∨
      e.2.startTime = f.2.startTime ∧ e.1 ≤ f.1).map (·.1)

/-- INSERT of a repair job with `ck_gap_repair_jobs_valid_window` and
`exclude_active_gap_repair_jobs`. -/
def insertGapJob (assetId : ℕ) (symbol : String) (startTime endTime : ℤ) (maxRetries : ℕ) :
    Task ℕ := do
  let id ← draw
  let createdAt ← Task.now
  let d ← view
  if h : startTime < endTime then
    if (activeGapJobs d assetId startTime endTime).isEmpty then
      emit (.putGapJob id { assetId := assetId, symbol := symbol, startTime := startTime
                            endTime := endTime, maxRetries := maxRetries, createdAt := createdAt
                            valid := h })
      pure id
    else raise (.database "IntegrityError")
  else raise (.database "IntegrityError")

/-- `str.upper` of an ASCII symbol. -/
def upper (symbol : String) : String := String.ofList (symbol.toList.map Char.toUpper)

/-- `schedule_repair_jobs`, `gap_repair.py:151-244`: the ids it returns. -/
def scheduleRepairJobs (settings : GapRepairSettings) (assetId : ℕ) (startTime endTime : ℤ)
    (maxRetries : ℕ) : Task (List ℕ) := do
  if endTime ≤ startTime then pure []
  else Task.inTransaction do
    let assets ← Task.lockRows .asset (fun d id =>
      (d.assets.lookup id).filter fun a => a.exchange = "BINANCE" && a.isActive) 1 [assetId]
    match assets with
    | [] => pure []
    | (_, asset) :: _ =>
      let d ← view
      let active ← Task.lockRows .gapJob (fun d id =>
        (d.gapJobs.lookup id).filter (GapRepairJob.meets assetId startTime endTime))
        (settings.maxActiveOverlaps + 1) (activeGapJobs d assetId startTime endTime)
      let first := (active.map (·.1)).take 1
      if settings.maxActiveOverlaps < active.length then pure first
      else
        let uncovered := uncoveredIntervals startTime endTime
          (active.map fun r => (r.2.startTime, r.2.endTime))
        let created ← collect (fun w => do
          let id ← insertGapJob assetId (upper asset.symbol) w.1 w.2 maxRetries
          pure (some id)) uncovered
        pure (if created.isEmpty then first else created)

/-! ### Reconciliation -/

/-- `_commit_owned_batch`, `gap_repair.py:370-408`. -/
def commitOwnedBatch (assetId jobId workerId leaseToken : ℕ) (batch : List CandlePayload) :
    Task Unit := do
  if ← Task.ownershipLost then raise (.leaseLost jobId)
  Task.inTransaction do
    lockAsset assetId
    gapRepairJobs.assertOwnedLocked jobId workerId leaseToken
    if ← Task.ownershipLost then raise (.leaseLost jobId)
    commitBatchInTransaction (.gapJob jobId) assetId batch

/-- The claim a reconciliation runs under; an inline repair has none. -/
structure RepairClaim where
  jobId : ℕ
  workerId : ℕ
  leaseToken : ℕ

/-- `persist` of `_execute_reconciliation`. -/
def persist (assetId : ℕ) (claim : Option RepairClaim) (batch : List CandlePayload) : Task Unit :=
  if batch.isEmpty then pure ()
  else match claim with
    | none => commitBatch assetId batch (pure ())
    | some c => commitOwnedBatch assetId c.jobId c.workerId c.leaseToken batch

/-- The body of the loop over the candles of the stream. -/
def reconcileCandle (assetId : ℕ) (claim : Option RepairClaim) (batchSize : ℕ)
    (batch : List CandlePayload) (candle : CandlePayload) : Task (List CandlePayload) := do
  match claim with
  | none => pure ()
  | some c => if ← Task.ownershipLost then raise (.leaseLost c.jobId)
  let batch := batch ++ [{ candle with assetId := some assetId }]
  if batchSize ≤ batch.length then
    persist assetId claim batch
    pure []
  else pure batch

/-- `_execute_reconciliation`, `gap_repair.py:410-484`. -/
def executeReconciliation (assetId : ℕ) (symbol : String) (startTime endTime : ℤ) (batchSize : ℕ)
    (claim : Option RepairClaim) (fuel : ℕ) : Task Unit := do
  if batchSize = 0 then raise (.valueError "batch_size must be positive")
  let batch ← getKlines (reconcileCandle assetId claim batchSize) symbol startTime endTime fuel []
  persist assetId claim batch

/-! ### Completion -/

/-- `_mark_complete_and_schedule_cagg`, `gap_repair.py:486-536`. -/
def markCompleteAndScheduleCagg (job : GapRepairJob) (jobId workerId leaseToken : ℕ) :
    Task Bool := do
  let now ← Task.now
  let (alignedStart, alignedEnd) ← Task.ofExcept
    (computeCaggBucketAlignment job.startTime job.endTime none true)
  Task.inTransaction do
    lockAsset job.assetId
    gapRepairJobs.assertOwnedLocked jobId workerId leaseToken
    scheduleCaggRefreshJob alignedStart alignedEnd none false
    gapRepairJobs.updateOwned now jobId workerId leaseToken fun job =>
      { job with status := .completed, claim := none, nextAttemptAt := none, errorCategory := none }

/-- `_has_staged_rows`, in a session of its own. -/
def hasStagedRows (job : GapRepairJob) : Task Bool := do
  Task.connection
  let d ← view
  pure (d.stagedFor job)

/-- `_mark_awaiting_merge_if_owned`. -/
def markAwaitingMerge (jobId workerId leaseToken : ℕ) : Task Bool := do
  let now ← Task.now
  Task.inTransaction (gapRepairJobs.updateOwned now jobId workerId leaseToken fun job =>
    { job with status := .awaitingMerge, claim := none, nextAttemptAt := none
               errorCategory := none })

/-- The row after a failed attempt. -/
def GapRepairJob.failed (error : Failure) (now : ℤ) (job : GapRepairJob) : GapRepairJob :=
  let (category, retryable) := classifyError error
  let job := { job with
    retryCount := job.retryCount + 1, errorCategory := some category, claim := none }
  if retryable && job.retryCount ≤ job.maxRetries then
    { job with status := .pending, nextAttemptAt := some (now + retryDelay job.retryCount) }
  else { job with status := .failed, nextAttemptAt := none }

structure RepairParameters where
  settings : GapRepairSettings := {}
  leaseDuration : ℤ := 5 * minute
  batchSize : ℕ := 1000
  respectRetrySchedule : Bool := false
  raiseOnAttemptError : Bool := true

/-- The attempt of `process_next_job` on a claimed job, `gap_repair.py:655-697`. -/
def repairAttempt (p : RepairParameters) (job : GapRepairJob) (c : RepairClaim) (fuel : ℕ) :
    Task Unit := do
  let gaps ← detectGaps p.settings job.assetId job.startTime job.endTime
  forEach (fun gap => do
    if ← Task.ownershipLost then raise (.leaseLost c.jobId)
    executeReconciliation job.assetId job.symbol gap.1 gap.2 p.batchSize (some c) fuel) gaps
  let remaining ← detectGaps p.settings job.assetId job.startTime job.endTime
  if !remaining.isEmpty then
    if ← hasStagedRows job then
      if !(← markAwaitingMerge c.jobId c.workerId c.leaseToken) then raise (.leaseLost c.jobId)
    else raise (.incompleteCoverage c.jobId)
  else
    if ← Task.ownershipLost then raise (.leaseLost c.jobId)
    if !(← markCompleteAndScheduleCagg job c.jobId c.workerId c.leaseToken) then
      raise (.leaseLost c.jobId)

/-- `process_next_job`, `gap_repair.py:624-718`. -/
def processNextGapJob (p : RepairParameters) (fuel : ℕ) : Task Bool := do
  let workerId ← draw
  match ← gapRepairJobs.claimNext workerId p.leaseDuration p.respectRetrySchedule with
  | none => pure false
  | some (jobId, job, leaseToken) =>
    settleAttempt (repairAttempt p job ⟨jobId, workerId, leaseToken⟩ fuel)
      (fun error => gapRepairJobs.recordFailure jobId workerId leaseToken (GapRepairJob.failed error))
      p.raiseOnAttemptError
    pure true

/-- `repair_gap_inline`, `gap_repair.py:720-749`. -/
def repairGapInline (settings : GapRepairSettings) (assetId : ℕ) (symbol : String)
    (startTime endTime : ℤ) (batchSize fuel : ℕ) : Task Unit := do
  let gaps ← detectGaps settings assetId startTime endTime
  forEach (fun gap => do
    executeReconciliation assetId symbol gap.1 gap.2 batchSize none fuel
    Task.inTransaction (scheduleCaggRefreshJob gap.1 gap.2 none true)) gaps

/-! ### The scan -/

structure ScanBounds where
  maxAssets : ℕ := 100
  maxJobs : ℕ := 500
  pageSize : ℕ := 25
  positive : 0 < maxAssets ∧ 0 < maxJobs ∧ 0 < pageSize := by decide

/-- A page of active assets of the exchange, by id. -/
def activeAssets (d : Database) (lastAssetId limit : ℕ) : List (ℕ × AssetRegistry) :=
  ((((d.assets.entries.filter fun e => e.2.isActive && e.2.exchange = "BINANCE" &&
    lastAssetId < e.1).map fun e => (e.1, e.2)).insertionSort fun r s => r.1 ≤ s.1).take limit)

/-- The gaps of one asset; the count is of the jobs scheduled so far. -/
def scheduleGaps (settings : GapRepairSettings) (maxJobs assetId : ℕ) :
    List (ℤ × ℤ) → ℕ → Task ℕ
  | [], scheduled => pure scheduled
  | gap :: gaps, scheduled => do
    if maxJobs ≤ scheduled then pure scheduled
    else
      let jobs ← scheduleRepairJobs settings assetId gap.1 gap.2 5
      scheduleGaps settings maxJobs assetId gaps (scheduled + (jobs.take (maxJobs - scheduled)).length)

def scanAssets (settings : GapRepairSettings) (maxJobs : ℕ) (startTime now : ℤ) :
    List (ℕ × AssetRegistry) → ℕ → Task ℕ
  | [], scheduled => pure scheduled
  | asset :: assets, scheduled => do
    if maxJobs ≤ scheduled then pure scheduled
    else
      let gaps ← detectGaps settings asset.1 startTime now
      let scheduled ← scheduleGaps settings maxJobs asset.1 gaps scheduled
      scanAssets settings maxJobs startTime now assets scheduled

def scanPages (settings : GapRepairSettings) (bounds : ScanBounds) (startTime now : ℤ) :
    ℕ → ℕ → ℕ → ℕ → Task Unit
  | 0, _, _, _ => stuck
  | fuel + 1, lastAssetId, inspected, scheduled => do
    if inspected < bounds.maxAssets ∧ scheduled < bounds.maxJobs then
      Task.connection
      let d ← view
      let assets := activeAssets d lastAssetId (min bounds.pageSize (bounds.maxAssets - inspected))
      match assets.getLast? with
      | none => pure ()
      | some last =>
        let scheduled ← scanAssets settings bounds.maxJobs startTime now assets scheduled
        scanPages settings bounds startTime now fuel last.1 (inspected + assets.length) scheduled
    else pure ()

/-- `scan_and_schedule_active_assets`, `gap_repair.py:751-803`; every page inspects an asset, so
the number of assets bounds the pages. -/
def scanAndScheduleActiveAssets (settings : GapRepairSettings) (bounds : ScanBounds)
    (lookbackWindow : ℤ) : Task Unit := do
  if lookbackWindow ≤ 0 then raise (.valueError "lookback_window must be positive")
  let now ← Task.now
  scanPages settings bounds (now - lookbackWindow) now (bounds.maxAssets + 1) 0 0 0

/-! ### What a reconciliation writes -/

section
variable {O : (q : Question) → Answer q → Prop} {A : Question → Prop}

/-- On whose behalf a repair writes. -/
def RepairClaim.writer : Option RepairClaim → Writer
  | none => .direct
  | some c => .gapJob c.jobId

theorem emits_persist (hA : LocalQuestions A) (assetId : ℕ) (claim : Option RepairClaim)
    (batch : List CandlePayload) :
    (persist assetId claim batch).Emits O (BatchWrite (RepairClaim.writer claim)) A := by
  unfold persist
  split
  · trivial
  · cases claim with
    | none => exact emits_commitBatch hA assetId batch
    | some c =>
      refine (emits_ownershipLost hA).bind fun lost => ?_
      cases lost with
      | true => trivial
      | false =>
        refine emits_inTransaction hA (Emits.bind (emits_acquire _) fun _ => ?_)
        refine (gapRepairJobs.emits_assertOwnedLocked hA _ _ _).bind fun _ => ?_
        refine (emits_ownershipLost hA).bind fun lost => ?_
        cases lost with
        | true => trivial
        | false => exact emits_commitBatchInTransaction hA assetId batch

theorem emits_reconcileCandle (hA : LocalQuestions A) (assetId : ℕ) (claim : Option RepairClaim)
    (batchSize : ℕ) (batch : List CandlePayload) (candle : CandlePayload) :
    (reconcileCandle assetId claim batchSize batch candle).Emits O
      (BatchWrite (RepairClaim.writer claim)) A := by
  have hstep (batch : List CandlePayload) : (if batchSize ≤ batch.length then (do
      persist assetId claim batch
      pure []) else pure batch : Task (List CandlePayload)).Emits O
        (BatchWrite (RepairClaim.writer claim)) A := by
    split
    · exact (emits_persist hA assetId claim batch).bind fun _ => trivial
    · trivial
  unfold reconcileCandle
  cases claim with
  | none => exact hstep _
  | some c =>
    refine (emits_ownershipLost hA).bind fun lost => ?_
    cases lost with
    | true => trivial
    | false => exact hstep _

theorem emits_executeReconciliation (hA : LocalQuestions A) {symbol : String} {endTime : ℤ}
    (hklines : ∀ start, A (.klines ⟨symbol, start, milliseconds endTime, klinesLimit⟩))
    (assetId : ℕ) (startTime : ℤ) (batchSize : ℕ) (claim : Option RepairClaim) (fuel : ℕ) :
    (executeReconciliation assetId symbol startTime endTime batchSize claim fuel).Emits O
      (BatchWrite (RepairClaim.writer claim)) A := by
  unfold executeReconciliation
  split
  · trivial
  · refine Emits.bind ?_ fun batch => emits_persist hA assetId claim batch
    exact emits_klinePages hA hklines (emits_reconcileCandle hA assetId claim batchSize) fuel _ _

end

end Quantive.Candles
