import Mathlib.Algebra.Order.Ring.Rat
import Mathlib.Data.List.AList
import Quantive.Clock
import Quantive.ReadCommitted.Triple

/-!
# The candle store

The tables of the ingestion and repair services as the migrations define them, the
writes of their statements, their locks, and what a service asks its surroundings. A row
that a CHECK constraint rejects cannot be built. `history` is not a table: it records
the writes that later statements are about, in commit order.
-/

namespace Quantive.Candles
open Quantive.ReadCommitted

/-! ### Rows -/

structure Ohlcv where
  «open» : ℚ
  high : ℚ
  low : ℚ
  close : ℚ
  volume : ℚ
  deriving DecidableEq

/-- `ck_raw_1m_candles_ohlcv_valid`, `ck_gap_staging_candles_ohlcv_valid`. -/
def Ohlcv.Valid (v : Ohlcv) : Prop :=
  0 < v.open ∧ 0 < v.high ∧ 0 < v.low ∧ 0 < v.close ∧ 0 ≤ v.volume ∧ v.low ≤ v.high ∧
    v.low ≤ v.open ∧ v.open ≤ v.high ∧ v.low ≤ v.close ∧ v.close ≤ v.high

instance (v : Ohlcv) : Decidable v.Valid := by
  unfold Ohlcv.Valid; infer_instance

/-- The primary key of `raw_1m_candles` and `gap_staging_candles`; `aligned` is
`ck_raw_1m_candles_timestamp_minute`. -/
structure CandleKey where
  assetId : ℕ
  timestamp : ℤ
  aligned : timestamp % minute = 0 := by decide
  deriving DecidableEq

/-- The columns of a raw or staged candle besides its key. -/
structure StoredCandle where
  values : Ohlcv
  source : String
  sourceEventTime : Option ℤ := none
  sourceReceivedAt : Option ℤ := none
  dataRevision : ℕ := 1
  valid : values.Valid := by decide
  positive : 0 < dataRevision := by decide
  deriving DecidableEq

/-- A row of `sync_ranges`; `ordered` is `chk_valid_time_range`. -/
structure SyncRange where
  assetId : ℕ
  startTimestamp : ℤ
  endTimestamp : ℤ
  ordered : startTimestamp ≤ endTimestamp := by decide
  deriving DecidableEq

structure AssetRegistry where
  symbol : String
  exchange : String := "BINANCE"
  isActive : Bool := true
  deriving DecidableEq

/-- The columns of a claim; a worker id and a fencing token are drawn uuids. -/
structure Claim where
  workerId : ℕ
  leaseToken : ℕ
  claimedAt : ℤ
  leaseExpiresAt : ℤ
  deriving DecidableEq

inductive GapRepairStatus where
  | pending | processing | awaitingMerge | completed | failed | cancelled
  deriving DecidableEq, Repr

inductive HistoricalMergeStatus where
  | pending | processing | completed | failed
  deriving DecidableEq, Repr

inductive RefreshStatus where
  | pending | processing | completed | failed
  deriving DecidableEq, Repr

/-- A row of `gap_repair_jobs`. The claim columns are set and cleared together, except that a
completed job keeps its `worker_id` and `claimed_at`, which nothing reads. -/
structure GapRepairJob where
  assetId : ℕ
  symbol : String
  startTime : ℤ
  endTime : ℤ
  status : GapRepairStatus := .pending
  claim : Option Claim := none
  retryCount : ℕ := 0
  maxRetries : ℕ := 5
  nextAttemptAt : Option ℤ := none
  errorCategory : Option String := none
  createdAt : ℤ
  valid : startTime < endTime := by decide
  deriving DecidableEq

/-- A row of `historical_merge_jobs`. -/
structure HistoricalMergeJob where
  dayBucket : ℤ
  status : HistoricalMergeStatus := .pending
  claim : Option Claim := none
  retryCount : ℕ := 0
  maxRetries : ℕ := 5
  nextAttemptAt : Option ℤ := none
  errorCategory : Option String := none
  createdAt : ℤ
  deriving DecidableEq

/-- A row of `cagg_refresh_jobs`. -/
structure CaggRefreshJob where
  windowStart : ℤ
  windowEnd : ℤ
  status : RefreshStatus := .pending
  claim : Option Claim := none
  retryCount : ℕ := 0
  maxRetries : ℕ := 5
  nextAttemptAt : Option ℤ := none
  errorCategory : Option String := none
  createdAt : ℤ
  valid : windowStart < windowEnd := by decide
  deriving DecidableEq

def GapRepairStatus.isActive (s : GapRepairStatus) : Bool :=
  s = .pending || s = .processing || s = .awaitingMerge

def RefreshStatus.isActive (s : RefreshStatus) : Bool := s = .pending || s = .processing

/-- `cagg_names`. -/
inductive Cagg where
  | candles5m | candles15m | candles1h | candles4h | candles1d
  deriving DecidableEq, Repr

def caggNames : List Cagg := [.candles5m, .candles15m, .candles1h, .candles4h, .candles1d]

theorem mem_caggNames (g : Cagg) : g ∈ caggNames := by cases g <;> decide

/-! ### The history -/

/-- On whose behalf a raw row is written. -/
inductive Writer where
  | gapJob (id : ℕ)
  | mergeJob (id : ℕ)
  | direct
  deriving DecidableEq, Repr

/-- A job that a scheduling call found active. -/
structure MetJob where
  id : ℕ
  windowStart : ℤ
  windowEnd : ℤ
  token : Option ℕ
  deriving DecidableEq

inductive Event where
  /-- A raw row was inserted or corrected. -/
  | rawWritten (writer : Writer) (key : CandleKey)
  | unstaged (key : CandleKey)
  /-- A gap job got a status; `staged`: a staged row is inside its window. -/
  | gapJob (id : ℕ) (status : GapRepairStatus) (staged : Bool)
  /-- A merge job that had the claim `token` got a status; `stranded`: a parked gap job has no
  staged row left. -/
  | mergeJob (id : ℕ) (status : HistoricalMergeStatus) (token : Option ℕ) (stranded : Bool)
  /-- A scheduling call for the aligned window met active jobs and created windows. -/
  | scheduled (start stop : ℤ) (met : List MetJob) (created : List (ℤ × ℤ))
  /-- A refresh of an aggregate was started under the claim `token`. -/
  | refreshStarted (cagg : Cagg) (token : ℕ) (start stop : ℤ)
  | refreshFinished (cagg : Cagg) (token : ℕ) (start stop : ℤ)
  /-- The release scan after the completion under `token`; `complete`: no waiting job was
  beyond its limit or locked. -/
  | released (token : ℕ) (complete : Bool)
  /-- A job was claimed under a fresh token. -/
  | claimed (token : ℕ)
  deriving DecidableEq

/-! ### The database -/

abbrev Table (K V : Type) := AList fun _ : K => V

structure Database where
  assets : Table ℕ AssetRegistry := ∅
  raw : Table CandleKey StoredCandle := ∅
  staging : Table CandleKey StoredCandle := ∅
  revisions : Table (CandleKey × ℕ) StoredCandle := ∅
  syncRanges : Table ℕ SyncRange := ∅
  gapJobs : Table ℕ GapRepairJob := ∅
  mergeJobs : Table ℕ HistoricalMergeJob := ∅
  caggJobs : Table ℕ CaggRefreshJob := ∅
  history : List Event := []

/-- A staged row of the asset is inside `[start, stop]`. -/
def Database.stagedIn (d : Database) (assetId : ℕ) (start stop : ℤ) : Bool :=
  d.staging.keys.any fun k => k.assetId = assetId && start ≤ k.timestamp && k.timestamp ≤ stop

def Database.stagedFor (d : Database) (job : GapRepairJob) : Bool :=
  d.stagedIn job.assetId job.startTime job.endTime

/-- A gap job is parked without a staged row in its window. -/
def Database.stranded (d : Database) : Bool :=
  d.gapJobs.entries.any fun e => e.2.status = .awaitingMerge && !d.stagedFor e.2

inductive Write where
  | putRaw (writer : Writer) (key : CandleKey) (row : StoredCandle)
  | deleteRaw (key : CandleKey)
  | putStaged (key : CandleKey) (row : StoredCandle)
  | deleteStaged (key : CandleKey)
  | putRevision (key : CandleKey) (row : StoredCandle)
  | insertRange (id : ℕ) (range : SyncRange)
  | deleteRange (id : ℕ)
  | putGapJob (id : ℕ) (job : GapRepairJob)
  | putMergeJob (id : ℕ) (job : HistoricalMergeJob)
  | putCaggJob (id : ℕ) (job : CaggRefreshJob)
  | note (event : Event)

namespace Database

/-- The token of the claim on a merge job. -/
def mergeToken (d : Database) (id : ℕ) : Option ℕ := do
  let job ← d.mergeJobs.lookup id
  let claim ← job.claim
  pure claim.leaseToken

def record (d : Database) (e : Event) : Database := { d with history := d.history ++ [e] }

def apply : Write → Database → Database
  | .putRaw writer key row, d =>
    { d with raw := d.raw.insert key row }.record (.rawWritten writer key)
  | .deleteRaw key, d => { d with raw := d.raw.erase key }
  | .putStaged key row, d => { d with staging := d.staging.insert key row }
  | .deleteStaged key, d => { d with staging := d.staging.erase key }.record (.unstaged key)
  | .putRevision key row, d =>
    { d with revisions := d.revisions.insert (key, row.dataRevision) row }
  | .insertRange id range, d => { d with syncRanges := d.syncRanges.insert id range }
  | .deleteRange id, d => { d with syncRanges := d.syncRanges.erase id }
  | .putGapJob id job, d =>
    { d with gapJobs := d.gapJobs.insert id job }.record (.gapJob id job.status (d.stagedFor job))
  | .putMergeJob id job, d =>
    { d with mergeJobs := d.mergeJobs.insert id job }.record
      (.mergeJob id job.status (d.mergeToken id) d.stranded)
  | .putCaggJob id job, d => { d with caggJobs := d.caggJobs.insert id job }
  | .note event, d => d.record event

end Database

instance : Store Database Write := ⟨Database.apply⟩

/-! ### Locks, questions and exceptions -/

/-- Row locks, the two advisory locks, and the unique-index entry of a merge day. -/
inductive Lock where
  | asset (id : ℕ)
  | syncAdvisory (assetId : ℕ)
  | caggScheduler
  | rawCandle (key : CandleKey)
  | stagedCandle (key : CandleKey)
  | syncRange (id : ℕ)
  | gapJob (id : ℕ)
  | mergeJob (id : ℕ)
  | mergeDay (day : ℤ)
  | caggJob (id : ℕ)
  deriving DecidableEq

/-- The exceptions of the services. A database error carries the name of its class, an API error
its text. -/
inductive Failure where
  | leaseLost (jobId : ℕ)
  | incompleteCoverage (jobId : ℕ)
  | payloadCorruption (message : String)
  | malformedMessage (message : String)
  | valueError (message : String)
  | runtimeError (message : String)
  | rateLimit
  | temporaryBan
  | network
  | api (text : String)
  | database (typeName : String)
  | other (typeName : String)
  deriving DecidableEq, Repr

/-- `type(error).__name__` -/
def Failure.typeName : Failure → String
  | .leaseLost _ => "LeaseLostError"
  | .incompleteCoverage _ => "IncompleteCoverageError"
  | .payloadCorruption _ => "PayloadCorruptionError"
  | .malformedMessage _ => "MalformedMessageError"
  | .valueError _ => "ValueError"
  | .runtimeError _ => "RuntimeError"
  | .rateLimit => "RateLimitError"
  | .temporaryBan => "TemporaryBanError"
  | .network => "NetworkError"
  | .api _ => "APIError"
  | .database typeName => typeName
  | .other typeName => typeName

/-- One element of a klines answer. -/
structure Kline where
  openTimeMs : ℤ
  values : Ohlcv
  closeTimeMs : Option ℤ
  deriving DecidableEq

/-- What `_request` gives for the klines endpoint; `none` is an element that is no list of at
least six numbers. -/
inductive KlinesResponse where
  | klines (elements : List (Option Kline))
  | notList
  | raised (failure : Failure)
  deriving DecidableEq

/-- The parameters of a klines request. -/
structure KlinesRequest where
  symbol : String
  startTime : ℤ
  endTime : ℤ
  limit : ℕ
  deriving DecidableEq

inductive Question where
  /-- `datetime.now(timezone.utc)` -/
  | now
  /-- An exception of the connection at this point. -/
  | fault
  /-- `ownership_lost.is_set()` -/
  | ownershipLost
  | klines (request : KlinesRequest)

def Answer : Question → Type
  | .now => ℤ
  | .fault => Option Failure
  | .ownershipLost => Bool
  | .klines _ => KlinesResponse

abbrev Task := Prog Database Write Lock Answer Failure

namespace Task
open Prog

def now : Task ℤ := query Question.now

def ownershipLost : Task Bool := query Question.ownershipLost

/-- The connection may fail here. -/
def connection : Task Unit := do
  match ← (query Question.fault : Task (Option Failure)) with
  | none => pure ()
  | some failure => raise failure

/-- `async with session.begin()`: the transaction fails before it has an effect, or its commit
takes effect and may still raise. -/
def inTransaction {α : Type} (body : Task α) : Task α := do
  connection
  let result ← transaction body
  connection
  pure result

end Task
end Quantive.Candles
