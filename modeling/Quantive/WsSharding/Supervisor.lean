import Quantive.WsSharding.Lease

/-!
# The supervisor

`ShardSupervisor` (`ws_sharding/supervisor.py`) and its runtimes at their await points, over Redis.
What runs between two awaits is one function here, and the tasks take turns in any order: the call
that holds the lock, the heartbeat of every runtime, and what fences a runtime from inside. An await
that does not suspend is followed by its own next turn, and a call to Redis is executed in a turn
of its own. The turns begin after `start` has set `_is_running`.
-/

namespace Quantive.WsSharding
open Quantive.Candles (Table)

inductive ShardRuntimeState where
  | initializing | running | fenced | stopped
  deriving DecidableEq

/-- `startRaised` is not a field of the code: `start` raised, and nothing refers to the runtime. -/
structure ShardRuntime where
  shardId : ℕ
  claim : ShardLeaseClaim
  state : ShardRuntimeState := .initializing
  isAcceptingWork : Bool := false
  startRaised : Bool := false

namespace ShardRuntime

def isRunning (r : ShardRuntime) : Bool := r.state = .running

/-- `start` of a new runtime: nothing raises before the state is set. -/
def start (r : ShardRuntime) : ShardRuntime := { r with state := .running, isAcceptingWork := true }

def fence (r : ShardRuntime) : ShardRuntime :=
  if r.state = .fenced then r else { r with state := .fenced, isAcceptingWork := false }

/-- `stop` up to its first await. -/
def stop (r : ShardRuntime) : ShardRuntime :=
  if r.state = .stopped then r else { r with isAcceptingWork := false }

def finishStop (wasFenced : Bool) (r : ShardRuntime) : ShardRuntime :=
  if wasFenced then r else { r with state := .stopped }

end ShardRuntime

/-! ### The tasks -/

/-- What Redis has answered; `none` before it has executed the script. -/
abbrev Executed := Option (Option ℕ)

/-- Where `_heartbeat_loop` waits: for its first turn, for the interval, for the renewal, or in
`runtime.stop` of the cleanup. -/
inductive HeartbeatAt where
  | created
  | sleeping
  | renewing (reply : Executed)
  | stopping (wasFenced : Bool)
  | done
  deriving DecidableEq

/-- The heartbeat of a runtime, under the number of the runtime. -/
structure Heartbeat where
  «at» : HeartbeatAt := .created
  cancelled : Bool := false
  deriving DecidableEq

/-- A call that wants the lock. -/
inductive Call where
  | attemptAcquireShard (shardId : ℕ)
  | shutdown
  deriving DecidableEq

/-- Where the call that holds the lock waits: an acquisition for the three scripts and the
registration, `shutdown` for the heartbeats, for a runtime to stop, or for a release. -/
inductive Holder where
  | acquiring (claim : ShardLeaseClaim) (reply : Executed)
  | registering (claim : ShardLeaseClaim)
  | confirming (claim : ShardLeaseClaim) (reply : Executed)
  | releasing (claim : ShardLeaseClaim) (reply : Executed)
  | joining (tasks : List ℕ)
  | stopping (runtime : ℕ) (wasFenced : Bool) (rest : List ℕ)
  | handingBack (claim : ShardLeaseClaim) (reply : Executed) (rest : List ShardLeaseClaim)

/-- `persistent`: there is a session factory. -/
structure SupervisorConfig where
  workerId : ℕ
  ttlMs : ℕ
  persistent : Bool := true

/-- The objects are numbered as they are made. The order of a dictionary is of no consequence. -/
structure ShardSupervisor where
  isRunning : Bool
  activeShards : Table ℕ ℕ
  activeClaims : Table ℕ ShardLeaseClaim
  heartbeatTasks : Table ℕ ℕ
  runtimes : ℕ → Option ShardRuntime
  heartbeats : ℕ → Option Heartbeat
  made : ℕ
  waiting : List Call
  holder : Option Holder
  stores : Stores

namespace ShardSupervisor

def started (stores : Stores) : ShardSupervisor where
  isRunning := true
  activeShards := ∅
  activeClaims := ∅
  heartbeatTasks := ∅
  runtimes _ := none
  heartbeats _ := none
  made := 0
  waiting := []
  holder := none
  stores := stores

/-- `list(d.values())` -/
def values {V : Type} (d : Table ℕ V) : List V := d.entries.map fun e => e.2

def withHolder (h : Option Holder) (s : ShardSupervisor) : ShardSupervisor := { s with holder := h }

/-- A method call on a runtime. -/
def onRuntime (n : ℕ) (f : ShardRuntime → ShardRuntime) (s : ShardSupervisor) : ShardSupervisor :=
  { s with runtimes := Function.update s.runtimes n ((s.runtimes n).map f) }

def moveHeartbeat (n : ℕ) («at» : HeartbeatAt) (s : ShardSupervisor) : ShardSupervisor :=
  { s with heartbeats :=
      Function.update s.heartbeats n ((s.heartbeats n).map fun h => { h with «at» }) }

/-- `runtime.is_running` of a number. -/
def runs (s : ShardSupervisor) (n : ℕ) : Bool := (s.runtimes n).any ShardRuntime.isRunning

/-- A call of `attempt_acquire_shard` or of `shutdown`, up to the lock. -/
def call (s : ShardSupervisor) : Call → ShardSupervisor
  | .attemptAcquireShard shardId => { s with waiting := s.waiting ++ [.attemptAcquireShard shardId] }
  | .shutdown =>
    if !s.isRunning && s.activeShards.entries.isEmpty then s
    else { s with isRunning := false, waiting := s.waiting ++ [.shutdown] }

/-! ### `attempt_acquire_shard` -/

/-- From the lock to the acquisition; `claimToken` is a new uuid. -/
def enterAcquire (cfg : SupervisorConfig) (shardId claimToken : ℕ) (now : ℤ) (s : ShardSupervisor) :
    ShardSupervisor :=
  if (s.activeShards.lookup shardId).any s.runs then s.withHolder none
  else s.withHolder (some (.acquiring { shardId, workerId := cfg.workerId, claimToken, claimedAt := now
                                        leaseExpiresAt := now + cfg.ttlMs * millisecond } none))

/-- The runtime is made, started and installed; `raises`: its `start` raises. -/
def startRuntime (claim : ShardLeaseClaim) (raises : Bool) (s : ShardSupervisor) : ShardSupervisor :=
  let runtime : ShardRuntime := { shardId := claim.shardId, claim := claim }
  if raises then
    { s with
      runtimes := Function.update s.runtimes s.made (some { runtime.start with startRaised := true })
      made := s.made + 1
      holder := some (.releasing claim none) }
  else
    { s with
      runtimes := Function.update s.runtimes s.made (some runtime.start)
      heartbeats := Function.update s.heartbeats s.made (some {})
      made := s.made + 1
      activeShards := s.activeShards.insert claim.shardId s.made
      activeClaims := s.activeClaims.insert claim.shardId claim
      heartbeatTasks := s.heartbeatTasks.insert claim.shardId s.made
      holder := none }

/-! ### `shutdown` -/

/-- The heartbeats are cancelled. -/
def enterShutdown (s : ShardSupervisor) : ShardSupervisor :=
  let tasks := values s.heartbeatTasks
  { s with
    heartbeats := fun n =>
      if n ∈ tasks then (s.heartbeats n).map fun h => { h with cancelled := true }
      else s.heartbeats n
    holder := some (.joining tasks) }

/-- The loop over the claims. -/
def handBack (s : ShardSupervisor) : List ShardLeaseClaim → ShardSupervisor
  | [] => { s with activeShards := ∅, activeClaims := ∅, holder := none }
  | claim :: rest => s.withHolder (some (.handingBack claim none rest))

/-- The loop over the runtimes. -/
def stopRuntimes (s : ShardSupervisor) : List ℕ → ShardSupervisor
  | [] => s.handBack (values s.activeClaims)
  | n :: rest =>
    let s := s.onRuntime n ShardRuntime.fence
    (s.onRuntime n ShardRuntime.stop).withHolder
      (some (.stopping n ((s.runtimes n).any fun r => r.state = .fenced) rest))

/-- The heartbeats have ended. -/
def joined (s : ShardSupervisor) : ShardSupervisor :=
  { s with heartbeatTasks := ∅ }.stopRuntimes (values s.activeShards)

/-! ### `_heartbeat_loop` -/

/-- The head of the loop. -/
def loopHead (n : ℕ) (s : ShardSupervisor) : HeartbeatAt :=
  if s.isRunning && s.runs n then .sleeping else .done

/-- A renewal was refused or failed: `fence`, and `_cleanup_fenced_shard` up to its await. -/
def cleanupFencedShard (n : ℕ) (r : ShardRuntime) (s : ShardSupervisor) : ShardSupervisor :=
  let s := s.onRuntime n ShardRuntime.fence
  let s := { s with
    activeClaims := s.activeClaims.erase r.shardId
    activeShards :=
      if s.activeShards.lookup r.shardId = some n then s.activeShards.erase r.shardId
      else s.activeShards
    heartbeatTasks :=
      if s.heartbeatTasks.lookup r.shardId = some n then s.heartbeatTasks.erase r.shardId
      else s.heartbeatTasks }
  (s.onRuntime n ShardRuntime.stop).moveHeartbeat n
    (.stopping ((s.runtimes n).any fun r => r.state = .fenced))

/-! ### Turns -/

/-- What an await gives. -/
inductive Outcome where
  | reply
  | unavailable
  | registered (done : Bool)
  | registrationRaised
  | joined
  | stopped
  | stopRaised

/-- A script that Redis executes: its reply, and the stores after it. -/
def script (w : ℕ → StoreWrite) (d : Stores) : Executed × Stores :=
  let d := d.apply (w 0)
  (d.replies.lookup 0, d)

/-- Redis executes the call of the holder. -/
def serveHolder (cfg : SupervisorConfig) (s : ShardSupervisor) : Option ShardSupervisor :=
  match s.holder with
  | some (.acquiring claim none) =>
    let (reply, stores) := script (fun call => .acquireLease call claim cfg.ttlMs) s.stores
    some { s with stores := stores, holder := some (.acquiring claim reply) }
  | some (.confirming claim none) =>
    let (reply, stores) := script (fun call => .renewLease call claim.shardId claim.claimToken
      claim.fencingToken cfg.ttlMs) s.stores
    some { s with stores := stores, holder := some (.confirming claim reply) }
  | some (.releasing claim none) =>
    let (reply, stores) := script (fun call => .releaseLease call claim.shardId claim.claimToken
      claim.fencingToken) s.stores
    some { s with stores := stores, holder := some (.releasing claim reply) }
  | some (.handingBack claim none rest) =>
    let (reply, stores) := script (fun call => .releaseLease call claim.shardId claim.claimToken
      claim.fencingToken) s.stores
    some { s with stores := stores, holder := some (.handingBack claim reply rest) }
  | _ => none

/-- The holder of the lock resumes; `raises` is about the runtime it starts, if it does. -/
def resumeHolder (cfg : SupervisorConfig) (raises : Bool) (s : ShardSupervisor) :
    Holder → Outcome → Option ShardSupervisor
  | .acquiring _ _, .unavailable => some (s.withHolder none)
  | .acquiring claim (some (some fencingToken)), .reply =>
    if fencingToken = 0 then some (s.withHolder none)
    else if cfg.persistent then some (s.withHolder (some (.registering { claim with fencingToken })))
    else some (s.startRuntime { claim with fencingToken } raises)
  | .registering claim, .registered true => some (s.withHolder (some (.confirming claim none)))
  | .registering claim, .registered false => some (s.withHolder (some (.releasing claim none)))
  | .registering claim, .registrationRaised => some (s.withHolder (some (.releasing claim none)))
  | .confirming claim (some (some renewed)), .reply =>
    if renewed = 1 then some (s.startRuntime claim raises)
    else some (s.withHolder (some (.releasing claim none)))
  | .confirming claim _, .unavailable => some (s.withHolder (some (.releasing claim none)))
  | .releasing _ (some (some _)), .reply => some (s.withHolder none)
  | .releasing _ _, .unavailable => some (s.withHolder none)
  | .joining tasks, .joined =>
    if tasks.all fun n => (s.heartbeats n).all fun h => h.at = .done then some s.joined else none
  | .stopping n wasFenced rest, .stopped =>
    some ((s.onRuntime n (ShardRuntime.finishStop wasFenced)).stopRuntimes rest)
  | .stopping _ _ _, .stopRaised => some (s.withHolder none)
  | .handingBack _ (some (some _)) rest, .reply => some (s.handBack rest)
  | .handingBack _ _ rest, .unavailable => some (s.handBack rest)
  | _, _ => none

/-- What a heartbeat does in a turn: it wakes, Redis executes its renewal, its await gives something,
or it ends because it was cancelled. -/
inductive Beat where
  | wake
  | serve
  | resume (outcome : Outcome)
  | cancelled

def beat (cfg : SupervisorConfig) (n : ℕ) (r : ShardRuntime) (h : Heartbeat) (s : ShardSupervisor) :
    Beat → Option ShardSupervisor
  | .cancelled => if h.cancelled && h.at ≠ .done then some (s.moveHeartbeat n .done) else none
  | .wake =>
    if h.cancelled then none
    else match h.at with
      | .created => some (s.moveHeartbeat n (s.loopHead n))
      | .sleeping =>
        some (s.moveHeartbeat n (if s.isRunning && s.runs n then .renewing none else .done))
      | _ => none
  | .serve => match h.at with
    | .renewing none =>
      let (reply, stores) := script (fun call => .renewLease call r.claim.shardId r.claim.claimToken
        r.claim.fencingToken cfg.ttlMs) s.stores
      some ({ s with stores := stores }.moveHeartbeat n (.renewing reply))
    | _ => none
  | .resume outcome => match h.at, outcome with
    | .renewing (some (some renewed)), .reply =>
      if h.cancelled then none
      else if renewed = 1 then some (s.moveHeartbeat n (s.loopHead n))
      else some (s.cleanupFencedShard n r)
    | .renewing _, .unavailable => if h.cancelled then none else some (s.cleanupFencedShard n r)
    -- `stop` may swallow the cancellation
    | .stopping wasFenced, .stopped =>
      some ((s.onRuntime n (ShardRuntime.finishStop wasFenced)).moveHeartbeat n .done)
    | .stopping _, .stopRaised => some (s.moveHeartbeat n .done)
    | _, _ => none

/-- What the other sessions write: they claim under other worker ids. -/
def Foreign (cfg : SupervisorConfig) : StoreWrite → Bool
  | .acquireLease _ claim _ => claim.workerId ≠ cfg.workerId
  | _ => true

inductive Act where
  | call (c : Call)
  | enter (claimToken : ℕ) (now : ℤ)
  | serve
  | resume (outcome : Outcome) (raises : Bool)
  | beat (n : ℕ) (b : Beat)
  /-- The stream or the pipeline fences the runtime. -/
  | fenceInside (n : ℕ)
  | others (w : StoreWrite)

/-- A turn; the lock goes to the call that waits longest. -/
def act (cfg : SupervisorConfig) (s : ShardSupervisor) : Act → Option ShardSupervisor
  | .call c => some (s.call c)
  | .enter claimToken now => match s.holder, s.waiting with
    | none, .attemptAcquireShard shardId :: rest =>
      some ({ s with waiting := rest }.enterAcquire cfg shardId claimToken now)
    | none, .shutdown :: rest => some { s with waiting := rest }.enterShutdown
    | _, _ => none
  | .serve => s.serveHolder cfg
  | .resume outcome raises => s.holder.bind fun h => s.resumeHolder cfg raises h outcome
  | .beat n b => match s.runtimes n, s.heartbeats n with
    | some r, some h => s.beat cfg n r h b
    | _, _ => none
  | .fenceInside n => some (s.onRuntime n ShardRuntime.fence)
  | .others w => if Foreign cfg w then some { s with stores := s.stores.apply w } else none

end ShardSupervisor
end Quantive.WsSharding
