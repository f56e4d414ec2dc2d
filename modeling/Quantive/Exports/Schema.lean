import Mathlib.Data.Finset.Basic
import Mathlib.Data.List.AList
import Quantive.Clock
import Quantive.ReadCommitted.Locking

/-!
# Export jobs and their artifacts

The `export_jobs` table, the objects of the export bucket, and the wall clock that every
worker reads, as one state; what a worker asks its surroundings. `history` is not a table: it
records each claim with its token, and each end of an attempt with the clock reading of its
check.
-/

namespace Quantive.Exports
open Quantive.ReadCommitted

inductive ExportStatus where
  | pending | processing | completed | failed
  deriving DecidableEq, Repr

/-- Neither `COMPLETED` nor `FAILED`. -/
def ExportStatus.isOpen (s : ExportStatus) : Bool := s = .pending || s = .processing

/-- The parts of `_artifact_object_key`. -/
structure ArtifactKey where
  assetId : ℕ
  timeframe : String
  jobId : ℕ
  attemptCount : ℕ
  leaseToken : ℕ
  deriving DecidableEq

/-- A row of `export_jobs`; a worker id, a token and a job id are drawn uuids. `positive` is
`ck_export_jobs_max_attempts_positive`. -/
structure ExportJob where
  assetId : ℕ
  timeframe : String
  startTime : ℤ
  endTime : ℤ
  status : ExportStatus := .pending
  s3Key : Option ArtifactKey := none
  errorMessage : Option String := none
  errorCategory : Option String := none
  workerId : Option ℕ := none
  leaseToken : Option ℕ := none
  claimedAt : Option ℤ := none
  leaseExpiresAt : Option ℤ := none
  attemptCount : ℕ := 0
  maxAttempts : ℕ := 5
  nextAttemptAt : Option ℤ := none
  expiresAt : Option ℤ := none
  createdAt : ℤ
  positive : 0 < maxAttempts := by decide

inductive Event where
  | claimed (jobId leaseToken : ℕ)
  | completed (jobId leaseToken : ℕ) (now : ℤ)
  | failed (jobId leaseToken : ℕ) (now : ℤ)
  deriving DecidableEq

structure Database where
  jobs : AList fun _ : ℕ => ExportJob := ∅
  objects : Finset ArtifactKey := ∅
  clock : ℤ := 0
  history : List Event := []

inductive Write where
  | putJob (id : ℕ) (job : ExportJob)
  | putObject (key : ArtifactKey)
  | deleteObject (key : ArtifactKey)
  | tick (microseconds : ℕ)
  | note (event : Event)

namespace Database

def job (d : Database) (id : ℕ) : Option ExportJob := d.jobs.lookup id

def putJob (d : Database) (id : ℕ) (job : ExportJob) : Database :=
  { d with jobs := d.jobs.insert id job }

def record (d : Database) (e : Event) : Database := { d with history := d.history ++ [e] }

def apply : Write → Database → Database
  | .putJob id job, d => d.putJob id job
  | .putObject key, d => { d with objects := insert key d.objects }
  | .deleteObject key, d => { d with objects := d.objects.erase key }
  | .tick microseconds, d => { d with clock := d.clock + microseconds }
  | .note event, d => d.record event

@[simp] theorem job_putJob (d : Database) (id : ℕ) (row : ExportJob) :
    (d.putJob id row).job id = some row := AList.lookup_insert _

@[simp] theorem job_putJob_ne (d : Database) {id other : ℕ} (row : ExportJob) (h : other ≠ id) :
    (d.putJob id row).job other = d.job other := AList.lookup_insert_ne h

@[simp] theorem putJob_clock (d : Database) (id : ℕ) (row : ExportJob) :
    (d.putJob id row).clock = d.clock := rfl
@[simp] theorem putJob_objects (d : Database) (id : ℕ) (row : ExportJob) :
    (d.putJob id row).objects = d.objects := rfl
@[simp] theorem putJob_history (d : Database) (id : ℕ) (row : ExportJob) :
    (d.putJob id row).history = d.history := rfl
@[simp] theorem record_job (d : Database) (e : Event) (id : ℕ) :
    (d.record e).job id = d.job id := rfl
@[simp] theorem record_clock (d : Database) (e : Event) : (d.record e).clock = d.clock := rfl
@[simp] theorem record_objects (d : Database) (e : Event) : (d.record e).objects = d.objects := rfl
@[simp] theorem record_history (d : Database) (e : Event) :
    (d.record e).history = d.history ++ [e] := rfl

end Database

instance : Store Database Write := ⟨Database.apply⟩

/-- The row lock of a job. -/
inductive Lock where
  | job (id : ℕ)
  deriving DecidableEq

/-- The exceptions of the worker; `other` carries the name of the class and the text. -/
inductive Failure where
  | valueError (message : String)
  | runtimeError (message : String)
  | leaseLost (message : String)
  | cancelled
  | other (typeName message : String)
  deriving DecidableEq, Repr

/-- `type(error).__name__` -/
def Failure.typeName : Failure → String
  | .valueError _ => "ValueError"
  | .runtimeError _ => "RuntimeError"
  | .leaseLost _ => "ExportLeaseLostError"
  | .cancelled => "CancelledError"
  | .other typeName _ => typeName

/-- `str(error)` -/
def Failure.message : Failure → String
  | .valueError message => message
  | .runtimeError message => message
  | .leaseLost message => message
  | .cancelled => ""
  | .other _ message => message

/-- The database calls of `ExportJobService`. -/
inductive Call where
  | reap | claim | assertOwned | heartbeat | complete | recordFailure
  deriving DecidableEq, Repr

/-- What the upload of an artifact comes to: whether the object is stored, and what the uploader
returns or raises. An object is stored whenever it returns true. -/
structure UploadResult where
  stored : Bool
  outcome : Except Failure Bool
  faithful : outcome = .ok true → stored = true

inductive Question where
  /-- An exception of the call before its commit takes effect. -/
  | fault (call : Call)
  /-- An exception of the call after its commit took effect. -/
  | reply (call : Call)
  /-- `ownership_lost.is_set()` -/
  | ownershipLost
  /-- An exception at an await outside the database calls. -/
  | await
  | upload
  /-- Whether the storage carries a deletion out. -/
  | deletion

def Answer : Question → Type
  | .fault _ => Option Failure
  | .reply _ => Option Failure
  | .ownershipLost => Bool
  | .await => Option Failure
  | .upload => UploadResult
  | .deletion => Bool

abbrev Task := Prog Database Write Lock Answer Failure

namespace Task
open Prog

/-- `datetime.now(timezone.utc)` -/
def now : Task ℤ := do
  let d ← view
  pure d.clock

def ownershipLost : Task Bool := query Question.ownershipLost

/-- Raise what the surroundings raise. -/
def orRaise : Option Failure → Task Unit
  | none => pure ()
  | some failure => raise failure

def await : Task Unit := do
  let failure ← (query Question.await : Task (Option Failure))
  orRaise failure

/-- The transaction of a call fails before it has an effect, or its commit takes effect and may
still raise. -/
def inTransaction {α : Type} (call : Call) (body : Task α) : Task α := do
  let failure ← (query (Question.fault call) : Task (Option Failure))
  orRaise failure
  let result ← transaction body
  let failure ← (query (Question.reply call) : Task (Option Failure))
  orRaise failure
  pure result

end Task
end Quantive.Exports
