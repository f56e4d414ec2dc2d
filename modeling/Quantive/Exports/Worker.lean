import Quantive.Exports.Lifecycle

/-!
# The export worker

One claimed attempt generates its file, uploads it under a key of its own, and completes the
job with that key; an attempt that does not complete the job deletes its object. The
content of the file and its place on the disk are left out.
-/

namespace Quantive.Exports
open Quantive.ReadCommitted Prog
open ExportJobService

/-- `_artifact_object_key` -/
def artifactObjectKey (id : ℕ) (job : ExportJob) (leaseToken : ℕ) : ArtifactKey :=
  ⟨job.assetId, job.timeframe, id, job.attemptCount, leaseToken⟩

def raiseIfLost (message : String) : Task Unit := do
  if ← Task.ownershipLost then raise (.leaseLost message)

/-- The stream of candles; ownership is checked with every candle and in the table after
`chunkSize` of them. -/
def streamCandles (jobId workerId leaseToken : ℕ) : ℕ → ℕ → Task Unit
  | 0, _ => pure ()
  | candles + 1, chunkSize => do
    Task.await
    raiseIfLost "export claim lost for job"
    if 10000 ≤ chunkSize + 1 then
      assertOwned jobId workerId leaseToken
      raiseIfLost "export claim lost for job"
      streamCandles jobId workerId leaseToken candles 0
    else
      streamCandles jobId workerId leaseToken candles (chunkSize + 1)

/-- `_generate_parquet_export` -/
def generateParquetExport (jobId workerId leaseToken candles : ℕ) : Task Unit := do
  assertOwned jobId workerId leaseToken
  raiseIfLost "export claim lost for job"
  streamCandles jobId workerId leaseToken candles 0
  assertOwned jobId workerId leaseToken
  raiseIfLost "export claim lost for job"

def deletion : Task Bool := query Question.deletion

/-- `_delete_artifact_sync` in a thread: its own exceptions are logged. -/
def deleteArtifact (key : ArtifactKey) : Task Unit := do
  if ← deletion then
    emit (.deleteObject key)
    commitNow
  Task.await

def upload : Task UploadResult := query Question.upload

/-- The upload itself, run to its end in a thread. -/
def uploadArtifact (key : ArtifactKey) : Task UploadResult := do
  let result ← upload
  if result.stored then
    emit (.putObject key)
    commitNow
  pure result

/-- A lost claim drops the object that was uploaded. -/
def discardUpload (uploaded : Bool) (key : ArtifactKey) (message : String) : Task Bool :=
  if uploaded then do
    deleteArtifact key
    raise (.leaseLost message)
  else raise (.leaseLost message)

/-- `_upload_artifact_with_fence`; a cancelled wait still awaits the uploader. -/
def uploadArtifactWithFence (key : ArtifactKey) : Task Bool := do
  raiseIfLost "export claim lost before object upload"
  let result ← uploadArtifact key
  Task.await
  let lost ← Task.ownershipLost
  if lost then
    let uploaded := match result.outcome with
      | .ok uploaded => uploaded
      | .error _ => false
    discardUpload uploaded key "export claim lost during object upload"
  else
    match result.outcome with
    | .error failure => raise failure
    | .ok uploaded =>
      let lost ← Task.ownershipLost
      if lost then discardUpload uploaded key "export claim lost after object upload"
      else pure uploaded

/-- `settings.S3_PRESIGNED_EXPIRY_SECONDS` -/
def presignedExpiry : ℤ := 3600 * second

/-- The `try` block: the flags `uploaded` and `completed` with the outcome. -/
def attemptExport (id workerId leaseToken candles : ℕ) (key : ArtifactKey) :
    Task (Bool × Bool × Except Failure Bool) := do
  let uploading : Task Bool := do
    generateParquetExport id workerId leaseToken candles
    uploadArtifactWithFence key
  match ← uploading.attempt with
  | .error failure => pure (false, false, .error failure)
  | .ok false => pure (false, false, .error (.runtimeError "object storage upload returned false"))
  | .ok true =>
    if ← Task.ownershipLost then
      pure (true, false, .error (.leaseLost "export claim lost for job"))
    else
      let now ← Task.now
      match ← (completeIfOwned id workerId leaseToken key (now + presignedExpiry)).attempt with
      | .error failure => pure (true, false, .error failure)
      | .ok false =>
        pure (true, false, .error (.leaseLost "export claim lost before completion for job"))
      | .ok true => pure (true, true, .ok true)

/-- The `except` clauses. -/
def settleExport (id workerId leaseToken : ℕ) : Except Failure Bool → Task (Except Failure Bool)
  | .ok done => pure (.ok done)
  | .error (.leaseLost _) => pure (.ok false)
  | .error .cancelled => pure (.error .cancelled)
  | .error failure => do
    match ← (recordFailureIfOwned id workerId leaseToken failure).attempt with
    | .ok _ => pure (.error failure)
    | .error failure => pure (.error failure)

/-- The `finally` clause, then the outcome; the heartbeat is a session of its own. -/
def finishExport (key : ArtifactKey) (uploaded completed : Bool) (outcome : Except Failure Bool) :
    Task Bool := do
  if uploaded && !completed then deleteArtifact key
  match outcome with
  | .ok done => pure done
  | .error failure => raise failure

/-- `_execute_claimed_export` -/
def executeClaimedExport (id : ℕ) (job : ExportJob) (workerId candles : ℕ) : Task Bool := do
  match job.leaseToken with
  | none => raise (.runtimeError "claimed export job has no lease token")
  | some leaseToken =>
    let key := artifactObjectKey id job leaseToken
    let (uploaded, completed, outcome) ← attemptExport id workerId leaseToken candles key
    let outcome ← settleExport id workerId leaseToken outcome
    finishExport key uploaded completed outcome

/-- `_run_export_job` -/
def runExportJob (jobId workerId : ℕ) (leaseDuration : ℤ) (candles : ℕ) : Task Bool := do
  match ← claimJob jobId workerId leaseDuration true with
  | none => pure false
  | some (id, job) => executeClaimedExport id job workerId candles

/-- The claims of the recovery sweep; `sizes` are the candles of the exports it gets. -/
def recoverExports (workerId : ℕ) (leaseDuration : ℤ) : List ℕ → Task ℕ
  | [] => pure 0
  | candles :: sizes => do
    match ← claimNextJob workerId leaseDuration true with
    | none => pure 0
    | some (id, job) =>
      match ← (executeClaimedExport id job workerId candles).attempt with
      | .error .cancelled => raise .cancelled
      | _ =>
        let processed ← recoverExports workerId leaseDuration sizes
        pure (processed + 1)

/-- `_run_available_exports` with `max_jobs` the number of `sizes`. -/
def runAvailableExports (workerId : ℕ) (leaseDuration : ℤ) (sizes : List ℕ) : Task ℕ := do
  if sizes.isEmpty then raise (.valueError "max_jobs must be positive")
  let _ ← reapExpiredExhaustedJobs sizes.length none
  recoverExports workerId leaseDuration sizes

/-- The sessions; `heartbeat` renews one claim for its worker. -/
inductive Session where
  | worker (n : ℕ)
  | heartbeat (n jobId workerId leaseToken : ℕ)
  | client (n : ℕ)
  | clock
  deriving DecidableEq

inductive WorkerProgram : Session → Task Unit → Prop
  | runExportJob (n jobId workerId : ℕ) (leaseDuration : ℤ) (candles : ℕ) :
      WorkerProgram (.worker n) do
        let _ ← runExportJob jobId workerId leaseDuration candles
        pure ()
  | runAvailableExports (n workerId : ℕ) (leaseDuration : ℤ) (sizes : List ℕ) :
      WorkerProgram (.worker n) do
        let _ ← runAvailableExports workerId leaseDuration sizes
        pure ()
  | heartbeatLoop (n jobId workerId leaseToken : ℕ) (leaseDuration : ℤ) (sleepInterval : ℚ)
      (renewals : ℕ) : WorkerProgram (.heartbeat n jobId workerId leaseToken)
        (heartbeatLoop jobId workerId leaseToken leaseDuration sleepInterval renewals)
  | createExport (n assetId : ℕ) (timeframe : String) (startTime endTime : ℤ)
      (maxAttempts : { n : ℕ // 0 < n }) :
      WorkerProgram (.client n) (createExport assetId timeframe startTime endTime maxAttempts)
  | tick (microseconds : ℕ) : WorkerProgram .clock (tick microseconds)

/-- Export workers over surroundings that answer as `oracle` says, from an empty table. -/
def exportWorkers (oracle : (q : Question) → Answer q → Prop) :
    System Session Database Write Lock Answer Failure where
  oracle := oracle
  programs := WorkerProgram
  init d := d.jobs = ∅ ∧ d.history = []

/-- Any exception at any point and any upload result. -/
def anyAnswer : (q : Question) → Answer q → Prop := fun _ _ => True

/-- A completion never raises after its commit took effect. -/
def Acknowledged : (q : Question) → Answer q → Prop
  | .reply .complete, failure => failure = (none : Option Failure)
  | _, _ => True

/-- A completed job names an object that exists, and a key on any job is the key of an attempt
that completed that job. -/
structure Database.Published (d : Database) : Prop where
  stored : ∀ id job, d.job id = some job → job.status = .completed →
    ∃ key, job.s3Key = some key ∧ key ∈ d.objects
  attempts : ∀ id job key, d.job id = some job → job.s3Key = some key →
    key.jobId = id ∧ ∃ now, .completed id key.leaseToken now ∈ d.history

end Quantive.Exports
