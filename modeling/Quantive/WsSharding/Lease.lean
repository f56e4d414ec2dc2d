import Quantive.Candles.Ingestion
import Quantive.ReadCommitted.Embed
import Quantive.ReadCommitted.Locking

/-!
# Shard leases and the persistence fence

Redis keeps a lease and a counter for every shard, PostgreSQL a fence row and the candles. The
three Lua scripts are single writes that leave their reply under the name of the call;
`redisTime` is the clock that expires leases. `history` records what the scripts did.
-/

namespace Quantive.WsSharding
open Quantive.ReadCommitted Prog
open Quantive.Candles (CandlePayload commitBatchInTransaction)

structure ShardLeaseClaim where
  shardId : ℕ
  workerId : ℕ
  claimToken : ℕ
  claimedAt : ℤ
  leaseExpiresAt : ℤ
  fencingToken : ℕ := 0
  deriving DecidableEq

/-- The value of a lease key, and the instant from which on Redis no longer has it. -/
structure ShardLease where
  claim : ShardLeaseClaim
  deadline : ℤ
  deriving DecidableEq

/-- `positive` is `ck_ws_shard_persistence_fence_positive`. -/
structure WsShardPersistenceFence where
  fencingToken : ℕ
  claimToken : ℕ
  workerId : ℕ
  positive : 0 < fencingToken := by decide

inductive LeaseEvent where
  | acquired (claim : ShardLeaseClaim)
  | renewed (shardId claimToken fencingToken : ℕ)
  | released (shardId claimToken fencingToken : ℕ)
  deriving DecidableEq

/-- Redis and PostgreSQL; a reply of `none` is an error of the script. -/
structure Stores where
  candles : Candles.Database := {}
  fences : ℕ → Option WsShardPersistenceFence := fun _ => none
  leases : ℕ → Option ShardLease := fun _ => none
  counters : ℕ → ℕ := fun _ => 0
  redisTime : ℤ := 0
  replies : List (ℕ × Option ℕ) := []
  history : List LeaseEvent := []

inductive StoreWrite where
  | candles (w : Candles.Write)
  | putFence (shardId : ℕ) (row : WsShardPersistenceFence)
  | acquireLease (call : ℕ) (claim : ShardLeaseClaim) (ttlMs : ℕ)
  | renewLease (call shardId claimToken fencingToken ttlMs : ℕ)
  | releaseLease (call shardId claimToken fencingToken : ℕ)
  | redisTick (ms : ℕ)

namespace Stores

/-- The lease key of a shard, if it exists and is not expired. -/
def lease (d : Stores) (shardId : ℕ) : Option ShardLease :=
  (d.leases shardId).filter fun l => d.redisTime < l.deadline

def answer (d : Stores) (call : ℕ) (reply : Option ℕ) : Stores :=
  { d with replies := (call, reply) :: d.replies }

def record (d : Stores) (e : LeaseEvent) : Stores := { d with history := d.history ++ [e] }

def setLease (d : Stores) (shardId : ℕ) (lease : Option ShardLease) : Stores :=
  { d with leases := Function.update d.leases shardId lease }

def matching (claimToken fencingToken : ℕ) (l : ShardLease) : Bool :=
  l.claim.claimToken = claimToken && l.claim.fencingToken = fencingToken

/-- `ACQUIRE_LEASE_LUA`; a time to live of zero is an error of `SET … PX`, after `INCR`. -/
def acquireLease (call : ℕ) (claim : ShardLeaseClaim) (ttlMs : ℕ) (d : Stores) : Stores :=
  match d.lease claim.shardId with
  | some _ => d.answer call (some 0)
  | none =>
    let fencingToken := d.counters claim.shardId + 1
    let d := { d with counters := Function.update d.counters claim.shardId fencingToken }
    if ttlMs = 0 then d.answer call none
    else
      let claim := { claim with fencingToken }
      ((d.setLease claim.shardId (some ⟨claim, d.redisTime + ttlMs⟩)).record
        (.acquired claim)).answer call (some fencingToken)

/-- `RENEW_LEASE_LUA`; `PEXPIRE` with zero deletes the key. -/
def renewLease (call shardId claimToken fencingToken ttlMs : ℕ) (d : Stores) : Stores :=
  match (d.lease shardId).filter (matching claimToken fencingToken) with
  | none => d.answer call (some 0)
  | some l =>
    let lease := if ttlMs = 0 then none else some { l with deadline := d.redisTime + ttlMs }
    ((d.setLease shardId lease).record
      (.renewed shardId claimToken fencingToken)).answer call (some 1)

/-- `RELEASE_LEASE_LUA` -/
def releaseLease (call shardId claimToken fencingToken : ℕ) (d : Stores) : Stores :=
  match (d.lease shardId).filter (matching claimToken fencingToken) with
  | none => d.answer call (some 0)
  | some _ =>
    ((d.setLease shardId none).record
      (.released shardId claimToken fencingToken)).answer call (some 1)

def putFence (d : Stores) (shardId : ℕ) (row : WsShardPersistenceFence) : Stores :=
  { d with fences := Function.update d.fences shardId (some row) }

def apply : StoreWrite → Stores → Stores
  | .candles w, d => { d with candles := Candles.Database.apply w d.candles }
  | .putFence shardId row, d => d.putFence shardId row
  | .acquireLease call claim ttlMs, d => d.acquireLease call claim ttlMs
  | .renewLease call shardId claimToken fencingToken ttlMs, d =>
    d.renewLease call shardId claimToken fencingToken ttlMs
  | .releaseLease call shardId claimToken fencingToken, d =>
    d.releaseLease call shardId claimToken fencingToken
  | .redisTick ms, d => { d with redisTime := d.redisTime + ms }

end Stores

instance : Store Stores StoreWrite := ⟨Stores.apply⟩

inductive StoreLock where
  | candles (l : Candles.Lock)
  | fence (shardId : ℕ)
  deriving DecidableEq

inductive ShardFailure where
  | redisUnavailable
  | valueError (message : String)
  | persistenceFenceLost (shardId fencingToken : ℕ)
  | ingestion (failure : Candles.Failure)
  deriving DecidableEq

abbrev ShardTask := Prog Stores StoreWrite StoreLock Candles.Answer ShardFailure

/-- The ingestion service inside the two stores. -/
def ingestion : Embedding Candles.Database Candles.Write Candles.Lock Candles.Answer
    Candles.Failure Stores StoreWrite StoreLock Candles.Answer ShardFailure where
  part := Stores.candles
  write := .candles
  lock := .candles
  question q := q
  answer _ r := r
  failure := .ingestion

namespace ShardTask

def fault : ShardTask (Option Candles.Failure) := query Candles.Question.fault

def now : ShardTask ℤ := query Candles.Question.now

/-- A script runs atomically; the call may fail before or after it. -/
def evalScript (script : ℕ → StoreWrite) : ShardTask ℕ := do
  let before ← fault
  if before.isSome then raise .redisUnavailable
  else
    let call ← draw
    emit (script call)
    commitNow
    let after ← fault
    if after.isSome then raise .redisUnavailable
    else
      let d ← view
      match d.replies.lookup call with
      | some (some reply) => pure reply
      | _ => raise .redisUnavailable

/-- A transaction fails before it has an effect, or its commit takes effect and may still raise. -/
def inTransaction {α : Type} (body : ShardTask α) : ShardTask α := do
  match ← fault with
  | some failure => raise (.ingestion failure)
  | none =>
    let result ← transaction body
    match ← fault with
    | some failure => raise (.ingestion failure)
    | none => pure result

end ShardTask
open ShardTask

/-! ### `ShardLeaseManager` -/

def acquireShardLease (shardId workerId ttlMs : ℕ) : ShardTask (Option ShardLeaseClaim) := do
  let now ← now
  let claimToken ← draw
  let claim : ShardLeaseClaim :=
    { shardId, workerId, claimToken, claimedAt := now
      leaseExpiresAt := now + ttlMs * millisecond }
  let fencingToken ← evalScript fun call => .acquireLease call claim ttlMs
  pure (if fencingToken = 0 then none else some { claim with fencingToken })

def renewShardLease (claim : ShardLeaseClaim) (ttlMs : ℕ) : ShardTask Bool := do
  let result ← evalScript fun call =>
    .renewLease call claim.shardId claim.claimToken claim.fencingToken ttlMs
  pure (result = 1)

def releaseShardLease (claim : ShardLeaseClaim) : ShardTask Bool := do
  let released ← (evalScript fun call =>
    .releaseLease call claim.shardId claim.claimToken claim.fencingToken).attempt
  match released with
  | .ok result => pure (result = 1)
  | .error _ => pure false

/-! ### `ShardPersistenceFencer` -/

/-- The fence row is the one of the claim. -/
def ShardLeaseClaim.registers (claim : ShardLeaseClaim) (row : WsShardPersistenceFence) : Bool :=
  row.fencingToken = claim.fencingToken && row.claimToken = claim.claimToken &&
    row.workerId = claim.workerId

/-- The `WHERE` of the `ON CONFLICT` clause. -/
def ShardLeaseClaim.supersedes (claim : ShardLeaseClaim) (row : WsShardPersistenceFence) : Bool :=
  row.fencingToken < claim.fencingToken || claim.registers row

/-- `register_claim`, with the check of the constructor. -/
def registerClaim (claim : ShardLeaseClaim) : ShardTask Bool :=
  if h : 0 < claim.fencingToken then inTransaction do
    acquire (StoreLock.fence claim.shardId)
    let d ← view
    if (d.fences claim.shardId).all claim.supersedes then
      emit (.putFence claim.shardId ⟨claim.fencingToken, claim.claimToken, claim.workerId, h⟩)
      pure true
    else pure false
  else raise (.valueError "persistence-fenced shard claims require a positive fencing token")

def assertCurrent (claim : ShardLeaseClaim) : ShardTask Unit := do
  let row ← lockMatching (StoreLock.fence claim.shardId) fun d : Stores =>
    (d.fences claim.shardId).filter claim.registers
  match row with
  | none => raise (.persistenceFenceLost claim.shardId claim.fencingToken)
  | some _ => pure ()

/-- `_commit_batch` with the ownership check of a shard's pipeline. -/
def commitFencedBatch (claim : ShardLeaseClaim) (assetId : ℕ) (batch : List CandlePayload) :
    ShardTask Unit :=
  if batch.isEmpty then pure ()
  else inTransaction do
    assertCurrent claim
    (commitBatchInTransaction .direct assetId batch).embed ingestion

/-! ### `ShardSupervisor` -/

/-- The renewal after a registration, which may have waited. -/
def stillOwner (claim : ShardLeaseClaim) (ttlMs : ℕ) : ShardTask Bool := do
  match ← (renewShardLease claim ttlMs).attempt with
  | .ok renewed => pure renewed
  | .error _ => pure false

/-- A claim that is not used is released. -/
def abandon (claim : ShardLeaseClaim) : ShardTask (Option ShardLeaseClaim) := do
  let _ ← releaseShardLease claim
  pure none

/-- `attempt_acquire_shard`: the claim under which a runtime was started. The last exception is of
`runtime.start`. -/
def attemptAcquireShard (shardId workerId ttlMs : ℕ) : ShardTask (Option ShardLeaseClaim) := do
  match ← (acquireShardLease shardId workerId ttlMs).attempt with
  | .error _ => pure none
  | .ok none => pure none
  | .ok (some claim) =>
    match ← (registerClaim claim).attempt with
    | .error _ => abandon claim
    | .ok false => abandon claim
    | .ok true =>
      let owner ← stillOwner claim ttlMs
      if owner then
        let started ← fault
        if started.isSome then abandon claim else pure (some claim)
      else abandon claim

/-! ### The sessions -/

/-- `holder` and `pipeline` act under a claim; `redis` is the passing of its time. -/
inductive ShardParty where
  | supervisor (n : ℕ)
  | holder (n : ℕ) (claim : ShardLeaseClaim)
  | pipeline (n : ℕ) (claim : ShardLeaseClaim)
  | redis
  deriving DecidableEq

inductive ShardProgram : ShardParty → ShardTask Unit → Prop
  | attemptAcquireShard (n shardId workerId ttlMs : ℕ) : ShardProgram (.supervisor n) do
      let _ ← attemptAcquireShard shardId workerId ttlMs
      pure ()
  | registerClaim (n : ℕ) (claim : ShardLeaseClaim) : ShardProgram (.holder n claim) do
      let _ ← registerClaim claim
      pure ()
  | renewShardLease (n : ℕ) (claim : ShardLeaseClaim) (ttlMs : ℕ) :
      ShardProgram (.holder n claim) do
        let _ ← renewShardLease claim ttlMs
        pure ()
  | releaseShardLease (n : ℕ) (claim : ShardLeaseClaim) : ShardProgram (.holder n claim) do
      let _ ← releaseShardLease claim
      pure ()
  | commitFencedBatch (n : ℕ) (claim : ShardLeaseClaim) (assetId : ℕ)
      (batch : List CandlePayload) :
      ShardProgram (.pipeline n claim) (commitFencedBatch claim assetId batch)
  | redisTick (ms : ℕ) : ShardProgram .redis do
      emit (.redisTick ms)
      commitNow

/-- Any exceptions and clock readings, over any candles, before any lease was given. -/
def shards : System ShardParty Stores StoreWrite StoreLock Candles.Answer ShardFailure where
  oracle _ _ := True
  programs := ShardProgram
  init d := d.fences = (fun _ => none) ∧ d.leases = (fun _ => none) ∧ d.history = []

end Quantive.WsSharding
