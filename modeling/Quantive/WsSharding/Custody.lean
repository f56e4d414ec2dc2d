import Quantive.WsSharding.PersistenceFence
import Quantive.WsSharding.Supervision

/-!
# Custody of the leases

While Redis can be reached, and no runtime is fenced from inside during a renewal of its lease, a
supervisor knows of every lease that it holds: it is recorded or in the hands of the call that has
the lock. When `shutdown` returns, it holds none.
-/

namespace Quantive.WsSharding

/-! ### Leases of a claim -/

/-- The claim has the lease of its shard. -/
def Stores.Leased (d : Stores) (claim : ShardLeaseClaim) : Prop :=
  ∃ l, d.lease claim.shardId = some l ∧ l.claim = claim

section
variable {d : Stores}

theorem lease_some {k : ℕ} {l : ShardLease} :
    d.lease k = some l ↔ d.leases k = some l ∧ d.redisTime < l.deadline := by
  unfold Stores.lease
  rw [Option.filter_eq_some_iff, decide_eq_true_eq]

/-- An acquisition gives the next token to a new lease, or changes no lease. -/
theorem leased_acquireLease (d : Stores) (call ttlMs : ℕ) (new : ShardLeaseClaim) :
    let d' := d.acquireLease call new ttlMs
    (∃ reply, d'.replies.lookup call = some reply ∧ reply.getD 0 = 0 ∧
        ∀ k, d'.lease k = d.lease k ∧ d.counters k ≤ d'.counters k) ∨
      ∃ token, d'.replies.lookup call = some (some token) ∧ d.counters new.shardId < token ∧
        (∀ k, d.counters k ≤ d'.counters k) ∧ d'.counters new.shardId = token ∧
        (∀ l, d'.lease new.shardId = some l → l.claim = { new with fencingToken := token }) ∧
        ∀ k, k ≠ new.shardId → d'.lease k = d.lease k := by
  have hcounters : ∀ (token : ℕ) (k : ℕ), token = d.counters new.shardId + 1 →
      d.counters k ≤ Function.update d.counters new.shardId token k := by
    intro token k htoken
    by_cases hk : k = new.shardId
    · rw [hk, Function.update_self]
      omega
    · rw [Function.update_of_ne hk]
  rcases acquireLease_cases call new ttlMs d with ⟨-, hd⟩ | ⟨-, token, counters, htoken, hc, hd | hd⟩
  · rw [hd]
    exact .inl ⟨some 0, List.lookup_cons_self, rfl, fun k => ⟨rfl, le_rfl⟩⟩
  · rw [hd]
    refine .inl ⟨none, List.lookup_cons_self, rfl, fun k => ⟨rfl, ?_⟩⟩
    change d.counters k ≤ counters k
    rw [hc]
    exact hcounters token k htoken
  · rw [hd]
    refine .inr ⟨token, List.lookup_cons_self, by omega, fun k => ?_, ?_, fun l hl => ?_, fun k hk => ?_⟩
    · change d.counters k ≤ counters k
      rw [hc]
      exact hcounters token k htoken
    · change counters new.shardId = token
      rw [hc, Function.update_self]
    · obtain ⟨hrow, -⟩ := lease_some.mp hl
      change Function.update d.leases new.shardId _ new.shardId = some l at hrow
      rw [Function.update_self] at hrow
      obtain rfl := Option.some.inj hrow
      rfl
    · exact lease_setLease_ne hk

/-- A renewal gives the lease to nobody else, and is refused when the claim does not have it. -/
theorem leased_renewLease (d : Stores) (call shardId claimToken fencingToken ttlMs : ℕ) :
    let d' := d.renewLease call shardId claimToken fencingToken ttlMs
    d'.counters = d.counters ∧ (∀ k l, d'.lease k = some l → ∃ l₀, d.lease k = some l₀ ∧ l₀.claim = l.claim) ∧
      (d'.replies.lookup call = some (some 1) ∨ d'.replies.lookup call = some (some 0) ∧
        ∀ l, d'.lease shardId = some l →
          ¬ (l.claim.claimToken = claimToken ∧ l.claim.fencingToken = fencingToken)) := by
  cases hlease : (d.lease shardId).filter (Stores.matching claimToken fencingToken) with
  | none =>
    have hd : d.renewLease call shardId claimToken fencingToken ttlMs = d.answer call (some 0) := by
      simp only [Stores.renewLease, hlease]
    rw [hd]
    refine ⟨rfl, fun k l hl => ⟨l, hl, rfl⟩, .inr ⟨List.lookup_cons_self, fun l hl hmatch => ?_⟩⟩
    have hsome : (d.lease shardId).filter (Stores.matching claimToken fencingToken) = some l :=
      Option.filter_eq_some_iff.mpr ⟨hl, matching_iff.mpr hmatch⟩
    rw [hlease] at hsome
    cases hsome
  | some l₀ =>
    obtain ⟨hl₀, -⟩ := Option.filter_eq_some_iff.mp hlease
    have hd : d.renewLease call shardId claimToken fencingToken ttlMs = ((d.setLease shardId
        (if ttlMs = 0 then none else some { l₀ with deadline := d.redisTime + ttlMs })).record
        (.renewed shardId claimToken fencingToken)).answer call (some 1) := by
      simp only [Stores.renewLease, hlease]
    rw [hd]
    refine ⟨rfl, fun k l hl => ?_, .inl List.lookup_cons_self⟩
    by_cases hk : k = shardId
    · subst hk
      obtain ⟨hrow, -⟩ := lease_some.mp hl
      change Function.update d.leases k _ k = some l at hrow
      rw [Function.update_self] at hrow
      split at hrow
      · cases hrow
      · obtain rfl := Option.some.inj hrow
        exact ⟨l₀, hl₀, rfl⟩
    · exact ⟨l, (lease_setLease_ne hk).symm.trans hl, rfl⟩

/-- A release takes the lease from the claim. -/
theorem leased_releaseLease (d : Stores) (call shardId claimToken fencingToken : ℕ) :
    let d' := d.releaseLease call shardId claimToken fencingToken
    d'.counters = d.counters ∧ (∀ k l, d'.lease k = some l → d.lease k = some l) ∧
      (∃ reply, d'.replies.lookup call = some reply) ∧ ∀ l, d'.lease shardId = some l →
        ¬ (l.claim.claimToken = claimToken ∧ l.claim.fencingToken = fencingToken) := by
  cases hlease : (d.lease shardId).filter (Stores.matching claimToken fencingToken) with
  | none =>
    have hd : d.releaseLease call shardId claimToken fencingToken = d.answer call (some 0) := by
      simp only [Stores.releaseLease, hlease]
    rw [hd]
    refine ⟨rfl, fun k l hl => hl, ⟨_, List.lookup_cons_self⟩, fun l hl hmatch => ?_⟩
    have hsome : (d.lease shardId).filter (Stores.matching claimToken fencingToken) = some l :=
      Option.filter_eq_some_iff.mpr ⟨hl, matching_iff.mpr hmatch⟩
    rw [hlease] at hsome
    cases hsome
  | some l₀ =>
    have hd : d.releaseLease call shardId claimToken fencingToken = ((d.setLease shardId none).record
        (.released shardId claimToken fencingToken)).answer call (some 1) := by
      simp only [Stores.releaseLease, hlease]
    rw [hd]
    have hnone : ∀ l, (((d.setLease shardId none).record
        (.released shardId claimToken fencingToken)).answer call (some 1)).lease shardId ≠ some l := by
      intro l hl
      obtain ⟨hrow, -⟩ := lease_some.mp hl
      change Function.update d.leases shardId none shardId = some l at hrow
      rw [Function.update_self] at hrow
      cases hrow
    refine ⟨rfl, fun k l hl => ?_, ⟨_, List.lookup_cons_self⟩, fun l hl => absurd hl (hnone l)⟩
    by_cases hk : k = shardId
    · exact absurd (hk ▸ hl) (hnone l)
    · exact (lease_setLease_ne hk).symm.trans hl

end

namespace ShardSupervisor
variable {cfg : SupervisorConfig} {s s' : ShardSupervisor} {n : ℕ}

/-! ### The invariant -/

def Recorded (s : ShardSupervisor) (claim : ShardLeaseClaim) : Prop :=
  s.activeClaims.lookup claim.shardId = some claim

/-- On the shard in hand the claim is as said, on the others it is recorded. -/
def InHandOr (s : ShardSupervisor) (shardId : ℕ) (claim : ShardLeaseClaim) (said : Prop) : Prop :=
  if claim.shardId = shardId then said else s.Recorded claim

/-- Where a call that holds the lock knows of a claim with a lease. -/
def Holder.Accounts (s : ShardSupervisor) (claim : ShardLeaseClaim) : Holder → Prop
  | .acquiring c (some (some (t + 1))) =>
    s.InHandOr c.shardId claim (claim = { c with fencingToken := t + 1 })
  | .registering c => s.InHandOr c.shardId claim (claim = c)
  | .confirming c _ => s.InHandOr c.shardId claim (claim = c)
  | .releasing c none => s.InHandOr c.shardId claim (claim = c)
  | .releasing c (some _) => s.InHandOr c.shardId claim False
  | .handingBack c none rest => s.Recorded claim ∧ claim ∈ c :: rest
  | .handingBack _ (some _) rest => s.Recorded claim ∧ claim ∈ rest
  | _ => s.Recorded claim

def Accounted (s : ShardSupervisor) (claim : ShardLeaseClaim) : Prop :=
  match s.holder with
  | none => s.Recorded claim
  | some h => Holder.Accounts s claim h

/-- The claim that an acquisition has. -/
def Holder.hand : Holder → Option ShardLeaseClaim
  | .acquiring c (some (some (t + 1))) => some { c with fencingToken := t + 1 }
  | .registering c => some c
  | .confirming c _ => some c
  | _ => none

def Done (s : ShardSupervisor) (n : ℕ) : Prop := ∃ b, s.heartbeats n = some b ∧ b.at = .done

/-- In `shutdown`, the heartbeats of the runtimes are awaited or done. -/
def Holder.Joins (s : ShardSupervisor) : Holder → Prop
  | .joining tasks => ∀ n r, s.Live n r → n ∈ tasks ∨ s.Done n
  | .stopping _ _ _ => ∀ n r, s.Live n r → s.Done n
  | .handingBack _ _ _ => ∀ n r, s.Live n r → s.Done n
  | _ => True

structure Custody (cfg : SupervisorConfig) (s : ShardSupervisor) : Prop where
  beating : ∀ n b, s.heartbeats n = some b → ∃ r, s.runtimes n = some r ∧ r.startRaised = false
  paired : ∀ n r, s.Live n r → ∃ b, s.heartbeats n = some b
  renewing : ∀ n b reply, s.heartbeats n = some b → b.at = .renewing reply → s.runs n = true
  refused : ∀ n b r x, s.heartbeats n = some b → b.at = .renewing (some (some x)) → x ≠ 1 →
    s.runtimes n = some r → ¬ s.stores.Leased r.claim
  tracked : ∀ n r, s.Live n r → s.heartbeatTasks.lookup r.shardId = some n ∨ s.Done n
  joins : ∀ h, s.holder = some h → Holder.Joins s h
  current : ∀ n r, s.Live n r → s.activeClaims.lookup r.shardId = some r.claim
  shards : ∀ n r, s.runtimes n = some r → r.claim.shardId = r.shardId
  tokens : ∀ n r, s.runtimes n = some r → r.claim.fencingToken ≤ s.stores.counters r.claim.shardId
  hand : ∀ h c, s.holder = some h → Holder.hand h = some c →
    c.fencingToken ≤ s.stores.counters c.shardId
  custody : ∀ claim, s.stores.Leased claim → claim.workerId = cfg.workerId → s.Accounted claim

/-- Redis can be reached, and no runtime is fenced from inside while its lease is renewed. -/
def Undisturbed (s : ShardSupervisor) : Act → Prop
  | .resume outcome _ => outcome ≠ .unavailable
  | .beat _ (.resume outcome) => outcome ≠ .unavailable
  | .fenceInside n => ∀ b reply, s.heartbeats n = some b → b.at ≠ .renewing reply
  | _ => True

/-! ### Turns that change little -/

/-- A turn that changes the holder of the lock and Redis. -/
theorem Custody.restored (hs : s.Custody cfg) (hruntimes : s'.runtimes = s.runtimes)
    (hbeats : s'.heartbeats = s.heartbeats) (htasks : s'.heartbeatTasks = s.heartbeatTasks)
    (hclaims : s'.activeClaims = s.activeClaims)
    (hcounters : ∀ k, s.stores.counters k ≤ s'.stores.counters k)
    (hleased : ∀ claim, claim.fencingToken ≤ s.stores.counters claim.shardId →
      s'.stores.Leased claim → s.stores.Leased claim)
    (hjoins : ∀ h, s'.holder = some h → Holder.Joins s h)
    (hhand : ∀ h c, s'.holder = some h → Holder.hand h = some c →
      c.fencingToken ≤ s'.stores.counters c.shardId)
    (hcustody : ∀ claim, s'.stores.Leased claim → claim.workerId = cfg.workerId →
      s'.Accounted claim) : s'.Custody cfg := by
  have hruns : s'.runs = s.runs := by
    unfold ShardSupervisor.runs
    rw [hruntimes]
  have hlive : s'.Live = s.Live := by
    unfold Live
    rw [hruntimes]
  have hdone : s'.Done = s.Done := by
    unfold Done
    rw [hbeats]
  constructor
  · rw [hbeats, hruntimes]
    exact hs.beating
  · rw [hlive, hbeats]
    exact hs.paired
  · rw [hbeats, hruns]
    exact hs.renewing
  · rw [hbeats, hruntimes]
    exact fun n b r x hb hat hx hr h => hs.refused n b r x hb hat hx hr (hleased _ (hs.tokens n r hr) h)
  · rw [hlive, htasks, hdone]
    exact hs.tracked
  · intro h hh
    have hbefore := hjoins h hh
    cases h with
    | joining tasks =>
      change ∀ n r, s'.Live n r → n ∈ tasks ∨ s'.Done n
      rw [hlive, hdone]
      exact hbefore
    | stopping n wasFenced rest =>
      change ∀ n r, s'.Live n r → s'.Done n
      rw [hlive, hdone]
      exact hbefore
    | handingBack claim reply rest =>
      change ∀ n r, s'.Live n r → s'.Done n
      rw [hlive, hdone]
      exact hbefore
    | _ => trivial
  · rw [hlive, hclaims]
    exact hs.current
  · rw [hruntimes]
    exact hs.shards
  · rw [hruntimes]
    exact fun n r hr => (hs.tokens n r hr).trans (hcounters _)
  · exact hhand
  · exact hcustody

/-- A turn that changes the holder of the lock only. -/
theorem Custody.handOver (hs : s.Custody cfg) (hruntimes : s'.runtimes = s.runtimes)
    (hbeats : s'.heartbeats = s.heartbeats) (htasks : s'.heartbeatTasks = s.heartbeatTasks)
    (hclaims : s'.activeClaims = s.activeClaims) (hstores : s'.stores = s.stores)
    (hjoins : ∀ h, s'.holder = some h → Holder.Joins s h)
    (hhand : ∀ h c, s'.holder = some h → Holder.hand h = some c →
      c.fencingToken ≤ s.stores.counters c.shardId)
    (hcustody : ∀ claim, s.stores.Leased claim → claim.workerId = cfg.workerId → s.Accounted claim →
      s'.Accounted claim) : s'.Custody cfg := by
  refine hs.restored hruntimes hbeats htasks hclaims (fun k => by rw [hstores]) (fun claim _ h => ?_)
    hjoins (fun h c hh hc => ?_) fun claim hleased hworker => ?_
  · rwa [hstores] at h
  · rw [hstores]
    exact hhand h c hh hc
  · rw [hstores] at hleased
    exact hcustody claim hleased hworker (hs.custody claim hleased hworker)

theorem Custody.moveHeartbeat (hs : s.Custody cfg) {b : Heartbeat} (hb : s.heartbeats n = some b)
    («at» : HeartbeatAt) (hlate : b.at = .done → «at» = .done)
    (hrenewing : ∀ reply, «at» = .renewing reply → s.runs n = true)
    (hrefused : ∀ r x, «at» = .renewing (some (some x)) → x ≠ 1 → s.runtimes n = some r →
      ¬ s.stores.Leased r.claim) : (s.moveHeartbeat n «at»).Custody cfg := by
  have hself : (s.moveHeartbeat n «at»).heartbeats n = some { b with «at» } := by
    change Function.update s.heartbeats n _ n = _
    rw [Function.update_self, hb]
    rfl
  have hother : ∀ {m}, m ≠ n → (s.moveHeartbeat n «at»).heartbeats m = s.heartbeats m :=
    fun hm => Function.update_of_ne hm _ _
  have hdone : ∀ m, s.Done m → (s.moveHeartbeat n «at»).Done m := by
    rintro m ⟨b', hb', hat⟩
    by_cases hm : m = n
    · rw [hm, hb] at hb'
      obtain rfl := Option.some.inj hb'
      rw [hm]
      exact ⟨_, hself, hlate hat⟩
    · exact ⟨b', (hother hm).trans hb', hat⟩
  constructor
  · intro m b' hb'
    by_cases hm : m = n
    · rw [hm]
      exact hs.beating n b hb
    · exact hs.beating m b' ((hother hm).symm.trans hb')
  · intro m r hr
    by_cases hm : m = n
    · rw [hm]
      exact ⟨_, hself⟩
    · rw [hother hm]
      exact hs.paired m r hr
  · intro m b' reply hb' hat
    by_cases hm : m = n
    · rw [hm, hself] at hb'
      obtain rfl := Option.some.inj hb'
      rw [hm]
      exact hrenewing reply hat
    · exact hs.renewing m b' reply ((hother hm).symm.trans hb') hat
  · intro m b' r x hb' hat hx hr
    by_cases hm : m = n
    · rw [hm, hself] at hb'
      obtain rfl := Option.some.inj hb'
      rw [hm] at hr
      exact hrefused r x hat hx hr
    · exact hs.refused m b' r x ((hother hm).symm.trans hb') hat hx hr
  · exact fun m r hr => (hs.tracked m r hr).imp id (hdone m)
  · intro h hh
    have hbefore := hs.joins h hh
    cases h with
    | joining tasks => exact fun m r hr => (hbefore m r hr).imp id (hdone m)
    | stopping m wasFenced rest => exact fun m r hr => hdone m (hbefore m r hr)
    | handingBack claim reply rest => exact fun m r hr => hdone m (hbefore m r hr)
    | _ => trivial
  · exact hs.current
  · exact hs.shards
  · exact hs.tokens
  · exact hs.hand
  · exact hs.custody

/-- A call of a method that does not stop a runtime during its renewal. -/
theorem Custody.onRuntime (hs : s.Custody cfg) {f : ShardRuntime → ShardRuntime} (hf : Tame f)
    (hidle : ∀ b reply, s.heartbeats n = some b → b.at ≠ .renewing reply) :
    (s.onRuntime n f).Custody cfg := by
  have hsub := subsides_onRuntime (s := s) (n := n) hf
  have hother : ∀ {m}, m ≠ n → (s.onRuntime n f).runtimes m = s.runtimes m :=
    fun hm => Function.update_of_ne hm _ _
  have hold : ∀ {m r'}, (s.onRuntime n f).runtimes m = some r' → ∃ r, s.runtimes m = some r ∧
      r'.shardId = r.shardId ∧ r'.claim = r.claim := by
    intro m r' hr'
    by_cases hm : m = n
    · rw [hm]
      rw [hm] at hr'
      change Function.update s.runtimes n _ n = some r' at hr'
      rw [Function.update_self] at hr'
      obtain ⟨r, hr, rfl⟩ := Option.map_eq_some_iff.mp hr'
      exact ⟨r, hr, hf.shardId r, hf.claim r⟩
    · exact ⟨r', (hother hm).symm.trans hr', rfl, rfl⟩
  constructor
  · intro m b hb
    obtain ⟨r, hr, hraised⟩ := hs.beating m b hb
    by_cases hm : m = n
    · refine ⟨f r, ?_, (hf.startRaised r).trans hraised⟩
      change Function.update s.runtimes n _ m = _
      rw [hm, Function.update_self, ← hm, hr]
      rfl
    · exact ⟨r, (hother hm).trans hr, hraised⟩
  · intro m r' hr'
    obtain ⟨r, hr, -⟩ := hsub.live hr'
    exact hs.paired m r hr
  · intro m b reply hb hat
    by_cases hm : m = n
    · rw [hm] at hb
      exact absurd hat (hidle b reply hb)
    · have hruns := hs.renewing m b reply hb hat
      unfold ShardSupervisor.runs at hruns ⊢
      rwa [hother hm]
  · intro m b r' x hb hat hx hr'
    obtain ⟨r, hr, -, hclaim⟩ := hold hr'
    rw [hclaim]
    exact hs.refused m b r x hb hat hx hr
  · intro m r' hr'
    obtain ⟨r, hr, hshard, -⟩ := hsub.live hr'
    rw [hshard]
    exact hs.tracked m r hr
  · intro h hh
    have hbefore := hs.joins h hh
    have hlive : ∀ {m r'}, (s.onRuntime n f).Live m r' → ∃ r, s.Live m r := by
      intro m r' hr'
      obtain ⟨r, hr, -⟩ := hsub.live hr'
      exact ⟨r, hr⟩
    cases h with
    | joining tasks =>
      intro m r' hr'
      obtain ⟨r, hr⟩ := hlive hr'
      exact hbefore m r hr
    | stopping i wasFenced rest =>
      intro m r' hr'
      obtain ⟨r, hr⟩ := hlive hr'
      exact hbefore m r hr
    | handingBack claim reply rest =>
      intro m r' hr'
      obtain ⟨r, hr⟩ := hlive hr'
      exact hbefore m r hr
    | _ => trivial
  · intro m r' hr'
    obtain ⟨r, hr, hshard, hclaim⟩ := hsub.live hr'
    rw [hshard, hclaim]
    exact hs.current m r hr
  · intro m r' hr'
    obtain ⟨r, hr, hshard, hclaim⟩ := hold hr'
    rw [hshard, hclaim]
    exact hs.shards m r hr
  · intro m r' hr'
    obtain ⟨r, hr, -, hclaim⟩ := hold hr'
    rw [hclaim]
    exact hs.tokens m r hr
  · exact hs.hand
  · exact hs.custody

/-! ### Starting, stopping and cleaning up -/

theorem custody_startRuntime (hsup : s.Supervised) (hs : s.Custody cfg) {claim : ShardLeaseClaim}
    (hidle : ∀ n, s.activeShards.lookup claim.shardId = some n → s.runs n = false)
    (htoken : claim.fencingToken ≤ s.stores.counters claim.shardId)
    (hknown : ∀ c, s.stores.Leased c → c.workerId = cfg.workerId →
      s.InHandOr claim.shardId c (c = claim)) (raises : Bool) : (s.startRuntime claim raises).Custody cfg := by
  have hkept : ∀ {n r}, s.runtimes n = some r → (s.startRuntime claim raises).runtimes n = some r :=
    fun hr => (startRuntime_other claim raises (hsup.ne_made hr)).trans hr
  have hold : ∀ {n r}, (s.startRuntime claim raises).runtimes n = some r →
      s.runtimes n = some r ∨ r.shardId = claim.shardId ∧ r.claim = claim := by
    intro n r hr
    by_cases hn : n = s.made
    · rw [hn] at hr
      cases raises with
      | true =>
        change Function.update s.runtimes s.made _ s.made = some r at hr
        rw [Function.update_self] at hr
        obtain rfl := Option.some.inj hr
        exact .inr ⟨rfl, rfl⟩
      | false =>
        rw [startRuntime_self] at hr
        obtain rfl := Option.some.inj hr
        exact .inr ⟨rfl, rfl⟩
    · rw [startRuntime_other claim raises hn] at hr
      exact .inl hr
  have hcounters : (s.startRuntime claim raises).stores = s.stores := by cases raises <;> rfl
  have hshards : ∀ n r, (s.startRuntime claim raises).runtimes n = some r →
      r.claim.shardId = r.shardId := by
    intro n r hr
    rcases hold hr with hr | ⟨hshard, hclaim⟩
    · exact hs.shards n r hr
    · rw [hshard, hclaim]
  have htokens : ∀ n r, (s.startRuntime claim raises).runtimes n = some r →
      r.claim.fencingToken ≤ (s.startRuntime claim raises).stores.counters r.claim.shardId := by
    intro n r hr
    rw [hcounters]
    rcases hold hr with hr | ⟨-, hclaim⟩
    · exact hs.tokens n r hr
    · rw [hclaim]
      exact htoken
  have hmade : ∀ {b}, s.heartbeats s.made ≠ some b := by
    intro b hb
    obtain ⟨r, hr, -⟩ := hs.beating _ b hb
    exact hsup.ne_made hr rfl
  cases raises with
  | true =>
    constructor
    · intro n b hb
      obtain ⟨r, hr, hraised⟩ := hs.beating n b hb
      exact ⟨r, hkept hr, hraised⟩
    · exact fun n r hr => hs.paired n r (startRuntime_raising hr)
    · intro n b reply hb hat
      obtain ⟨r, hr, -⟩ := hs.beating n b hb
      have hruns := hs.renewing n b reply hb hat
      unfold ShardSupervisor.runs at hruns ⊢
      rwa [startRuntime_other claim true (hsup.ne_made hr)]
    · intro n b r x hb hat hx hr
      obtain ⟨r₀, hr₀, -⟩ := hs.beating n b hb
      rw [startRuntime_other claim true (hsup.ne_made hr₀)] at hr
      exact hs.refused n b r x hb hat hx hr
    · exact fun n r hr => hs.tracked n r (startRuntime_raising hr)
    · intro h hh
      obtain rfl := Option.some.inj hh
      trivial
    · exact fun n r hr => hs.current n r (startRuntime_raising hr)
    · exact hshards
    · exact htokens
    · intro h c hh hc
      obtain rfl := Option.some.inj hh
      cases hc
    · exact hknown
  | false =>
    have hbeat : ∀ {n b}, (s.startRuntime claim false).heartbeats n = some b →
        n = s.made ∧ b = {} ∨ s.heartbeats n = some b := by
      intro n b hb
      change Function.update s.heartbeats s.made _ n = some b at hb
      by_cases hn : n = s.made
      · rw [hn, Function.update_self] at hb
        exact .inl ⟨hn, (Option.some.inj hb).symm⟩
      · rw [Function.update_of_ne hn] at hb
        exact .inr hb
    constructor
    · intro n b hb
      rcases hbeat hb with ⟨rfl, -⟩ | hb
      · exact ⟨_, startRuntime_self claim, rfl⟩
      · obtain ⟨r, hr, hraised⟩ := hs.beating n b hb
        exact ⟨r, hkept hr, hraised⟩
    · intro n r hr
      change ∃ b, Function.update s.heartbeats s.made _ n = some b
      rcases startRuntime_live hsup hidle hr with ⟨rfl, -⟩ | ⟨hn, hbefore, -⟩
      · exact ⟨_, Function.update_self _ _ _⟩
      · rw [Function.update_of_ne hn]
        exact hs.paired n r hbefore
    · intro n b reply hb hat
      rcases hbeat hb with ⟨-, rfl⟩ | hb
      · cases hat
      · obtain ⟨r, hr, -⟩ := hs.beating n b hb
        have hruns := hs.renewing n b reply hb hat
        unfold ShardSupervisor.runs at hruns ⊢
        rwa [startRuntime_other claim false (hsup.ne_made hr)]
    · intro n b r x hb hat hx hr
      rcases hbeat hb with ⟨-, rfl⟩ | hb
      · cases hat
      · obtain ⟨r₀, hr₀, -⟩ := hs.beating n b hb
        rw [startRuntime_other claim false (hsup.ne_made hr₀)] at hr
        exact hs.refused n b r x hb hat hx hr
    · intro n r hr
      change (s.heartbeatTasks.insert claim.shardId s.made).lookup r.shardId = some n ∨ _
      rcases startRuntime_live hsup hidle hr with ⟨rfl, rfl⟩ | ⟨hn, hbefore, hshard⟩
      · exact .inl (AList.lookup_insert _)
      · rw [AList.lookup_insert_ne hshard]
        refine (hs.tracked n r hbefore).imp id fun ⟨b, hb, hat⟩ => ⟨b, ?_, hat⟩
        change Function.update s.heartbeats s.made _ n = some b
        rw [Function.update_of_ne hn]
        exact hb
    · intro h hh
      cases hh
    · intro n r hr
      change (s.activeClaims.insert claim.shardId claim).lookup r.shardId = some r.claim
      rcases startRuntime_live hsup hidle hr with ⟨-, rfl⟩ | ⟨-, hbefore, hshard⟩
      · exact AList.lookup_insert _
      · rw [AList.lookup_insert_ne hshard]
        exact hs.current n r hbefore
    · exact hshards
    · exact htokens
    · intro h c hh
      cases hh
    · intro c hleased hworker
      have hin := hknown c hleased hworker
      change (s.activeClaims.insert claim.shardId claim).lookup c.shardId = some c
      unfold InHandOr at hin
      by_cases hshard : c.shardId = claim.shardId
      · rw [if_pos hshard] at hin
        rw [hin]
        exact AList.lookup_insert _
      · rw [if_neg hshard] at hin
        rw [AList.lookup_insert_ne hshard]
        exact hin

theorem Custody.live_idle (hs : s.Custody cfg) (hdone : ∀ n r, s.Live n r → s.Done n) {b : Heartbeat}
    {reply : Executed} (hb : s.heartbeats n = some b) : b.at ≠ .renewing reply := by
  intro hat
  obtain ⟨r, hr, hraised⟩ := hs.beating n b hb
  have hruns := hs.renewing n b reply hb hat
  unfold ShardSupervisor.runs at hruns
  rw [hr] at hruns
  obtain ⟨b', hb', hdone'⟩ := hdone n r ⟨hr, hruns, hraised⟩
  rw [hb] at hb'
  obtain rfl := Option.some.inj hb'
  rw [hat] at hdone'
  cases hdone'

theorem custody_handBack (hs : s.Custody cfg) (hidle : ∀ n r, ¬ s.Live n r)
    {claims : List ShardLeaseClaim} (hall : ∀ claim, s.stores.Leased claim →
      claim.workerId = cfg.workerId → s.Recorded claim ∧ claim ∈ claims) :
    (s.handBack claims).Custody cfg := by
  cases claims with
  | nil =>
    constructor
    · exact hs.beating
    · exact hs.paired
    · exact hs.renewing
    · exact hs.refused
    · exact fun n r hr => absurd hr (hidle n r)
    · intro h hh
      cases hh
    · exact fun n r hr => absurd hr (hidle n r)
    · exact hs.shards
    · exact hs.tokens
    · intro h c hh
      cases hh
    · intro claim hleased hworker
      cases (hall claim hleased hworker).2
  | cons claim rest =>
    refine hs.handOver rfl rfl rfl rfl rfl (fun h hh => ?_) (fun h c hh hc => ?_)
      fun c hleased hworker _ => hall c hleased hworker
    · obtain rfl := Option.some.inj hh
      exact fun n r hr => absurd hr (hidle n r)
    · obtain rfl := Option.some.inj hh
      cases hc

theorem custody_stopRuntimes (hsup : s.Supervised) (hs : s.Custody cfg)
    (hdone : ∀ n r, s.Live n r → s.Done n) (hrecorded : ∀ claim, s.stores.Leased claim →
      claim.workerId = cfg.workerId → s.Recorded claim) {rest : List ℕ}
    (hrest : ∀ k n, s.activeShards.lookup k = some n → s.runs n = true → n ∈ rest) :
    (s.stopRuntimes rest).Custody cfg := by
  cases rest with
  | nil =>
    refine custody_handBack hs (fun n r hr => ?_) fun claim hleased hworker => ?_
    · cases hrest _ n (hsup.live n r hr) hr.runs
    · have hclaim := hrecorded claim hleased hworker
      exact ⟨hclaim, List.mem_map.mpr ⟨⟨_, claim⟩, AList.mem_lookup_iff.mp hclaim, rfl⟩⟩
  | cons m rest =>
    have hfenced := hs.onRuntime (n := m) tame_fence fun b reply hb => hs.live_idle hdone hb
    have hstopped := hfenced.onRuntime (n := m) tame_stop fun b reply hb => hs.live_idle hdone hb
    refine hstopped.handOver rfl rfl rfl rfl rfl (fun h hh => ?_) (fun h c hh hc => ?_)
      fun claim hleased hworker _ => hrecorded claim hleased hworker
    · obtain rfl := Option.some.inj hh
      intro n r hr
      obtain ⟨r₁, hr₁, -⟩ := (subsides_onRuntime tame_stop).live hr
      obtain ⟨r₀, hr₀, -⟩ := (subsides_onRuntime tame_fence).live hr₁
      exact hdone n r₀ hr₀
    · obtain rfl := Option.some.inj hh
      cases hc

theorem custody_enterShutdown (hs : s.Custody cfg) (hfree : s.holder = none) :
    s.enterShutdown.Custody cfg := by
  have hbeat : ∀ {n b'}, s.enterShutdown.heartbeats n = some b' →
      ∃ b, s.heartbeats n = some b ∧ b'.at = b.at := by
    intro n b' hb'
    change (if n ∈ values s.heartbeatTasks then _ else s.heartbeats n) = some b' at hb'
    split at hb'
    · obtain ⟨b, hb, rfl⟩ := Option.map_eq_some_iff.mp hb'
      exact ⟨b, hb, rfl⟩
    · exact ⟨b', hb', rfl⟩
  have hdone : ∀ {n}, s.Done n → s.enterShutdown.Done n := by
    rintro n ⟨b, hb, hat⟩
    change ∃ b', (if n ∈ values s.heartbeatTasks then _ else s.heartbeats n) = some b' ∧ _
    split
    · exact ⟨{ b with cancelled := true }, by rw [hb]; rfl, hat⟩
    · exact ⟨b, hb, hat⟩
  constructor
  · intro n b' hb'
    obtain ⟨b, hb, -⟩ := hbeat hb'
    exact hs.beating n b hb
  · intro n r hr
    obtain ⟨b, hb⟩ := hs.paired n r hr
    change ∃ b', (if n ∈ values s.heartbeatTasks then _ else s.heartbeats n) = some b'
    split
    · exact ⟨{ b with cancelled := true }, by rw [hb]; rfl⟩
    · exact ⟨b, hb⟩
  · intro n b' reply hb' hat
    obtain ⟨b, hb, hsame⟩ := hbeat hb'
    exact hs.renewing n b reply hb (hsame ▸ hat)
  · intro n b' r x hb' hat
    obtain ⟨b, hb, hsame⟩ := hbeat hb'
    exact hs.refused n b r x hb (hsame ▸ hat)
  · exact fun n r hr => (hs.tracked n r hr).imp id hdone
  · intro h hh
    obtain rfl := Option.some.inj hh
    intro n r hr
    refine (hs.tracked n r hr).imp (fun htask => ?_) hdone
    exact List.mem_map.mpr ⟨⟨_, n⟩, AList.mem_lookup_iff.mp htask, rfl⟩
  · exact hs.current
  · exact hs.shards
  · exact hs.tokens
  · intro h c hh hc
    obtain rfl := Option.some.inj hh
    cases hc
  · intro claim hleased hworker
    have hbefore := hs.custody claim hleased hworker
    unfold Accounted at hbefore
    rw [hfree] at hbefore
    exact hbefore

theorem InHandOr.mono {claim : ShardLeaseClaim} {k : ℕ} {said : Prop} (h : s.InHandOr k claim said)
    (hrecorded : s.Recorded claim → s'.Recorded claim) : s'.InHandOr k claim said := by
  unfold InHandOr at h ⊢
  split at h
  · rename_i hk
    rw [if_pos hk]
    exact h
  · rename_i hk
    rw [if_neg hk]
    exact hrecorded h

theorem Accounted.mono {claim : ShardLeaseClaim} (h : s.Accounted claim) (hholder : s'.holder = s.holder)
    (hrecorded : s.Recorded claim → s'.Recorded claim) : s'.Accounted claim := by
  unfold Accounted at h ⊢
  rw [hholder]
  cases hx : s.holder with
  | none =>
    rw [hx] at h
    exact hrecorded h
  | some x =>
    rw [hx] at h
    dsimp only at h ⊢
    unfold Holder.Accounts at h ⊢
    split at h
    · exact InHandOr.mono h hrecorded
    · exact InHandOr.mono h hrecorded
    · exact InHandOr.mono h hrecorded
    · exact InHandOr.mono h hrecorded
    · exact InHandOr.mono h hrecorded
    · exact ⟨hrecorded h.1, h.2⟩
    · exact ⟨hrecorded h.1, h.2⟩
    · exact hrecorded h

/-- The entries of a shard on which nothing runs are dropped. -/
theorem Custody.dropped (hs : s.Custody cfg) {k : ℕ} (hidle : ∀ n r, s.Live n r → r.shardId ≠ k)
    (hgone : ∀ claim, s.stores.Leased claim → claim.shardId = k → ¬ s.Recorded claim)
    (shards : Candles.Table ℕ ℕ) {tasks : Candles.Table ℕ ℕ}
    (htasks : ∀ j, j ≠ k → tasks.lookup j = s.heartbeatTasks.lookup j) :
    ({ s with activeClaims := s.activeClaims.erase k, activeShards := shards
              heartbeatTasks := tasks } : ShardSupervisor).Custody cfg := by
  constructor
  · exact hs.beating
  · exact hs.paired
  · exact hs.renewing
  · exact hs.refused
  · intro n r hr
    change tasks.lookup r.shardId = some n ∨ s.Done n
    rw [htasks _ (hidle n r hr)]
    exact hs.tracked n r hr
  · exact hs.joins
  · intro n r hr
    change (s.activeClaims.erase k).lookup r.shardId = some r.claim
    rw [AList.lookup_erase_ne (hidle n r hr)]
    exact hs.current n r hr
  · exact hs.shards
  · exact hs.tokens
  · exact hs.hand
  · intro claim hleased hworker
    refine (hs.custody claim hleased hworker).mono rfl fun hrecorded => ?_
    have hk : claim.shardId ≠ k := fun hk => hgone claim hleased hk hrecorded
    change (s.activeClaims.erase k).lookup claim.shardId = some claim
    rw [AList.lookup_erase_ne hk]
    exact hrecorded

theorem custody_cleanup (hsup : s.Supervised) (hs : s.Custody cfg) {r : ShardRuntime} {b : Heartbeat}
    {x : ℕ} (hr : s.runtimes n = some r) (hb : s.heartbeats n = some b)
    (hat : b.at = .renewing (some (some x))) (hx : x ≠ 1) : (s.cleanupFencedShard n r).Custody cfg := by
  have hlive : s.Live n r := by
    obtain ⟨r', hr', hraised⟩ := hs.beating n b hb
    obtain rfl := Option.some.inj (hr.symm.trans hr')
    have hruns := hs.renewing n b _ hb hat
    unfold ShardSupervisor.runs at hruns
    rw [hr] at hruns
    exact ⟨hr, hruns, hraised⟩
  have hrefused := hs.refused n b r x hb hat hx hr
  obtain ⟨wasFenced, hw⟩ : ∃ wasFenced,
      ((s.onRuntime n ShardRuntime.fence).runtimes n).any (fun r => r.state = .fenced) = wasFenced :=
    ⟨_, rfl⟩
  have hmoved := hs.moveHeartbeat hb (.stopping wasFenced)
    (fun hdone => by rw [hat] at hdone; cases hdone) (fun _ h => by cases h) fun _ _ h => by cases h
  have hself : (s.moveHeartbeat n (.stopping wasFenced)).heartbeats n =
      some { b with «at» := .stopping wasFenced } := by
    change Function.update s.heartbeats n _ n = _
    rw [Function.update_self, hb]
    rfl
  have hstill : ∀ b' reply, (s.moveHeartbeat n (.stopping wasFenced)).heartbeats n = some b' →
      b'.at ≠ .renewing reply := by
    intro b' reply hb' hat'
    rw [hself] at hb'
    obtain rfl := Option.some.inj hb'
    cases hat'
  have hfenced := hmoved.onRuntime (n := n) tame_fence hstill
  have hidle : ∀ m r', (s.onRuntime n ShardRuntime.fence).Live m r' → r'.shardId ≠ r.shardId := by
    intro m r' hm hshard
    obtain ⟨r₀, hr₀, hsame, -⟩ := (subsides_onRuntime tame_fence).live hm
    have hinstalled := hsup.live m r₀ hr₀
    rw [← hsame, hshard, hsup.live n r hlive] at hinstalled
    obtain rfl := Option.some.inj hinstalled
    have hruns := hm.runs
    rw [runs_onRuntime_fence] at hruns
    cases hruns
  -- the recorded claim was refused
  have hgone : ∀ claim, s.stores.Leased claim → claim.shardId = r.shardId → ¬ s.Recorded claim := by
    intro claim hleased hk hrecorded
    have hcurrent := hs.current n r hlive
    change s.activeClaims.lookup claim.shardId = some claim at hrecorded
    rw [hk, hcurrent] at hrecorded
    obtain rfl := Option.some.inj hrecorded
    exact hrefused hleased
  have htasks : ∀ j, j ≠ r.shardId → (if s.heartbeatTasks.lookup r.shardId = some n then
      s.heartbeatTasks.erase r.shardId else s.heartbeatTasks).lookup j = s.heartbeatTasks.lookup j := by
    intro j hj
    split
    · exact AList.lookup_erase_ne hj
    · rfl
  have hdropped := hfenced.dropped hidle hgone (if s.activeShards.lookup r.shardId = some n then
    s.activeShards.erase r.shardId else s.activeShards) htasks
  have hstopped := hdropped.onRuntime (n := n) tame_stop hstill
  rw [← hw] at hstopped
  exact hstopped

/-! ### Every turn keeps it -/

theorem leased_renewed {call shardId claimToken fencingToken ttlMs : ℕ} {d : Stores}
    {claim : ShardLeaseClaim}
    (h : (d.renewLease call shardId claimToken fencingToken ttlMs).Leased claim) : d.Leased claim := by
  obtain ⟨l, hl, hclaim⟩ := h
  obtain ⟨l₀, hl₀, hsame⟩ := (leased_renewLease _ _ _ _ _ _).2.1 _ l hl
  exact ⟨l₀, hl₀, hsame.trans hclaim⟩

theorem leased_released {call : ℕ} {claim c : ShardLeaseClaim} {d : Stores}
    (h : (d.releaseLease call c.shardId c.claimToken c.fencingToken).Leased claim) :
    d.Leased claim ∧ claim ≠ c := by
  obtain ⟨l, hl, hclaim⟩ := h
  refine ⟨⟨l, (leased_releaseLease _ _ _ _ _).2.1 _ l hl, hclaim⟩, ?_⟩
  rintro rfl
  refine (leased_releaseLease _ _ _ _ _).2.2.2 l hl ?_
  rw [hclaim]
  exact ⟨rfl, rfl⟩

theorem custody_acquire (hs : s.Custody cfg) {claim : ShardLeaseClaim}
    (hholder : s.holder = some (.acquiring claim none)) :
    let d := s.stores.acquireLease 0 claim cfg.ttlMs
    ({ s with stores := d, holder := some (.acquiring claim (d.replies.lookup 0)) } :
      ShardSupervisor).Custody cfg := by
  intro d
  have hrecorded : ∀ c, s.stores.Leased c → c.workerId = cfg.workerId → s.Recorded c := by
    intro c hc hworker
    have hbefore := hs.custody c hc hworker
    unfold Accounted at hbefore
    rw [hholder] at hbefore
    exact hbefore
  rcases leased_acquireLease s.stores 0 cfg.ttlMs claim with
    ⟨reply, hreply, hzero, hsame⟩ | ⟨token, hreply, hlater, hcounters, hcounter, hnew, hother⟩
  · have hleased : ∀ c, d.Leased c → s.stores.Leased c := by
      rintro c ⟨l, hl, hc⟩
      exact ⟨l, (hsame _).1.symm.trans hl, hc⟩
    change d.replies.lookup 0 = some reply at hreply
    rw [hreply]
    have hfits : ∀ s' c, Holder.Accounts s' c (.acquiring claim (some reply)) = s'.Recorded c ∧
        Holder.hand (.acquiring claim (some reply)) = none := by
      intro s' c
      rcases reply with _ | _ | token
      · exact ⟨rfl, rfl⟩
      · exact ⟨rfl, rfl⟩
      · cases hzero
    refine hs.restored rfl rfl rfl rfl (fun k => (hsame k).2) (fun c _ hc => hleased c hc) (fun x hx => ?_)
      (fun x c hx hc => ?_) fun c hc hworker => ?_
    · obtain rfl := Option.some.inj hx
      trivial
    · obtain rfl := Option.some.inj hx
      rw [(hfits s c).2] at hc
      cases hc
    · change Holder.Accounts _ c (.acquiring claim (some reply))
      rw [(hfits _ c).1]
      exact hrecorded c (hleased c hc) hworker
  · change d.replies.lookup 0 = some (some token) at hreply
    rw [hreply]
    obtain ⟨t, rfl⟩ : ∃ t, token = t + 1 := ⟨token - 1, by omega⟩
    have hleased : ∀ c, d.Leased c → c.shardId = claim.shardId ∧ c = { claim with fencingToken := t + 1 } ∨
        c.shardId ≠ claim.shardId ∧ s.stores.Leased c := by
      rintro c ⟨l, hl, hc⟩
      by_cases hk : c.shardId = claim.shardId
      · exact .inl ⟨hk, hc.symm.trans (hnew l (hk ▸ hl))⟩
      · exact .inr ⟨hk, l, (hother _ hk).symm.trans hl, hc⟩
    refine hs.restored rfl rfl rfl rfl hcounters (fun c hc hleased' => ?_) (fun x hx => ?_)
      (fun x c hx hc => ?_) fun c hc hworker => ?_
    · rcases hleased c hleased' with ⟨-, rfl⟩ | ⟨-, hbefore⟩
      · dsimp only at hc
        omega
      · exact hbefore
    · obtain rfl := Option.some.inj hx
      trivial
    · obtain rfl := Option.some.inj hx
      obtain rfl := Option.some.inj hc
      exact le_of_eq hcounter.symm
    · change InHandOr _ claim.shardId c (c = { claim with fencingToken := t + 1 })
      unfold InHandOr
      rcases hleased c hc with ⟨hk, hsame⟩ | ⟨hk, hbefore⟩
      · rw [if_pos hk]
        exact hsame
      · rw [if_neg hk]
        exact hrecorded c hbefore hworker

theorem custody_serveHolder (hs : s.Custody cfg) (h : s.serveHolder cfg = some s') :
    s'.Custody cfg := by
  unfold serveHolder at h
  split at h
  · rename_i claim hholder
    obtain rfl := Option.some.inj h
    exact custody_acquire hs hholder
  · rename_i claim hholder
    obtain rfl := Option.some.inj h
    refine hs.restored rfl rfl rfl rfl (fun k => ?_) (fun c _ hc => leased_renewed hc) (fun x hx => ?_)
      (fun x c hx hc => ?_) fun c hc hworker => ?_
    · exact le_of_eq (congrFun (leased_renewLease _ _ _ _ _ _).1.symm k)
    · obtain rfl := Option.some.inj hx
      trivial
    · obtain rfl := Option.some.inj hx
      have htoken := hs.hand _ c hholder hc
      exact htoken.trans (le_of_eq (congrFun (leased_renewLease _ _ _ _ _ _).1.symm _))
    · have hbefore := hs.custody c (leased_renewed hc) hworker
      unfold Accounted at hbefore
      rw [hholder] at hbefore
      exact hbefore
  · rename_i claim hholder
    obtain rfl := Option.some.inj h
    refine hs.restored rfl rfl rfl rfl (fun k => ?_) (fun c _ hc => (leased_released hc).1) (fun x hx => ?_)
      (fun x c hx hc => ?_) fun c hc hworker => ?_
    · exact le_of_eq (congrFun (leased_releaseLease _ _ _ _ _).1.symm k)
    · obtain rfl := Option.some.inj hx
      trivial
    · obtain rfl := Option.some.inj hx
      cases hc
    · obtain ⟨hc, hne⟩ := leased_released hc
      have hbefore := hs.custody c hc hworker
      unfold Accounted at hbefore
      rw [hholder] at hbefore
      obtain ⟨reply, hreply⟩ := (leased_releaseLease s.stores 0 claim.shardId claim.claimToken
        claim.fencingToken).2.2.1
      change Holder.Accounts _ c (.releasing claim ((s.stores.releaseLease 0 claim.shardId
        claim.claimToken claim.fencingToken).replies.lookup 0))
      rw [hreply]
      change s.InHandOr claim.shardId c (c = claim) at hbefore
      change InHandOr _ claim.shardId c False
      unfold InHandOr at hbefore ⊢
      split at hbefore
      · exact absurd hbefore hne
      · rename_i hk
        rw [if_neg hk]
        exact hbefore
  · rename_i claim rest hholder
    obtain rfl := Option.some.inj h
    refine hs.restored rfl rfl rfl rfl (fun k => ?_) (fun c _ hc => (leased_released hc).1) (fun x hx => ?_)
      (fun x c hx hc => ?_) fun c hc hworker => ?_
    · exact le_of_eq (congrFun (leased_releaseLease _ _ _ _ _).1.symm k)
    · obtain rfl := Option.some.inj hx
      have hjoins := hs.joins _ hholder
      exact hjoins
    · obtain rfl := Option.some.inj hx
      cases hc
    · obtain ⟨hc, hne⟩ := leased_released hc
      have hbefore := hs.custody c hc hworker
      unfold Accounted at hbefore
      rw [hholder] at hbefore
      obtain ⟨hrecorded, hmem⟩ : s.Recorded c ∧ c ∈ claim :: rest := hbefore
      obtain ⟨reply, hreply⟩ := (leased_releaseLease s.stores 0 claim.shardId claim.claimToken
        claim.fencingToken).2.2.1
      change Holder.Accounts _ c (.handingBack claim ((s.stores.releaseLease 0 claim.shardId
        claim.claimToken claim.fencingToken).replies.lookup 0) rest)
      rw [hreply]
      exact ⟨hrecorded, (List.mem_cons.mp hmem).resolve_left hne⟩
  · cases h

theorem Custody.withHolder (hs : s.Custody cfg) {h : Option Holder}
    (hjoins : ∀ x, h = some x → Holder.Joins s x)
    (hhand : ∀ x c, h = some x → Holder.hand x = some c → c.fencingToken ≤ s.stores.counters c.shardId)
    (hcustody : ∀ claim, s.Accounted claim → (s.withHolder h).Accounted claim) :
    (s.withHolder h).Custody cfg :=
  hs.handOver rfl rfl rfl rfl rfl hjoins hhand fun claim _ _ hbefore => hcustody claim hbefore

/-- The lock is free again, with nothing in hand. -/
theorem custody_leave (hs : s.Custody cfg)
    (hrecorded : ∀ claim, s.Accounted claim → s.Recorded claim) : (s.withHolder none).Custody cfg :=
  hs.withHolder (fun x hx => by cases hx) (fun x c hx => by cases hx) hrecorded

/-- From one place of an acquisition to the next, with the same claim in hand. -/
theorem custody_carry (hs : s.Custody cfg) (claim : ShardLeaseClaim) {x : Holder}
    (hin : ∀ c, s.Accounted c → s.InHandOr claim.shardId c (c = claim))
    (hnext : ∀ t : ShardSupervisor, ∀ c, Holder.Accounts t c x = t.InHandOr claim.shardId c (c = claim))
    (hjoins : Holder.Joins s x)
    (hhand : ∀ c, Holder.hand x = some c → c.fencingToken ≤ s.stores.counters c.shardId) :
    (s.withHolder (some x)).Custody cfg := by
  refine hs.withHolder (fun y hy => ?_) (fun y c hy hc => ?_) fun c hc => ?_
  · obtain rfl := Option.some.inj hy
    exact hjoins
  · obtain rfl := Option.some.inj hy
    exact hhand c hc
  · change Holder.Accounts (s.withHolder (some x)) c x
    rw [hnext]
    exact hin c hc

theorem custody_joined (hsup : s.Supervised) (hs : s.Custody cfg) {tasks : List ℕ}
    (hx : s.holder = some (.joining tasks))
    (hall : (tasks.all fun n => (s.heartbeats n).all fun h => h.at = .done) = true) :
    s.joined.Custody cfg := by
  have hdone : ∀ n r, s.Live n r → s.Done n := by
    intro n r hr
    rcases hs.joins _ hx n r hr with htask | hdone
    · obtain ⟨b, hb⟩ := hs.paired n r hr
      have hat := List.all_eq_true.mp hall n htask
      rw [hb] at hat
      exact ⟨b, hb, of_decide_eq_true hat⟩
    · exact hdone
  have hrecorded : ∀ claim, s.stores.Leased claim → claim.workerId = cfg.workerId → s.Recorded claim := by
    intro claim hleased hworker
    have hbefore := hs.custody claim hleased hworker
    unfold Accounted at hbefore
    rw [hx] at hbefore
    exact hbefore
  have hcleared : ({ s with heartbeatTasks := ∅ } : ShardSupervisor).Custody cfg :=
    ⟨hs.beating, hs.paired, hs.renewing, hs.refused, fun n r hr => .inr (hdone n r hr), hs.joins,
      hs.current, hs.shards, hs.tokens, hs.hand, hs.custody⟩
  have hsup' : ({ s with heartbeatTasks := ∅ } : ShardSupervisor).Supervised := by
    have hsub : Subsides s { s with heartbeatTasks := ∅ } := .of_eq rfl rfl fun h => h
    exact hsup.still hsub rfl rfl rfl rfl hsup.closing fun y hy => hsub.fits (hsup.holder y hy)
  refine custody_stopRuntimes hsup' hcleared hdone hrecorded fun k n hn _ => ?_
  exact List.mem_map.mpr ⟨⟨k, n⟩, AList.mem_lookup_iff.mp hn, rfl⟩

theorem custody_resumeHolder (hsup : s.Supervised) (hs : s.Custody cfg) {x : Holder}
    (hx : s.holder = some x) {raises : Bool} {outcome : Outcome} (hok : outcome ≠ .unavailable)
    (h : s.resumeHolder cfg raises x outcome = some s') : s'.Custody cfg := by
  have hfits := hsup.holder x hx
  have haccounts : ∀ claim, s.Accounted claim → Holder.Accounts s claim x := by
    intro claim hbefore
    unfold Accounted at hbefore
    rwa [hx] at hbefore
  cases x with
  | acquiring claim reply =>
    cases outcome with
    | unavailable => exact absurd rfl hok
    | reply =>
      rcases reply with _ | _ | _ | t
      · cases h
      · cases h
      · cases h
        exact custody_leave hs haccounts
      · let granted : ShardLeaseClaim := { claim with fencingToken := t + 1 }
        have htoken : granted.fencingToken ≤ s.stores.counters granted.shardId := hs.hand _ _ hx rfl
        have hin : ∀ c, s.Accounted c → s.InHandOr granted.shardId c (c = granted) := haccounts
        have hidle : ∀ n, s.activeShards.lookup granted.shardId = some n → s.runs n = false := hfits
        change (if cfg.persistent then some (s.withHolder (some (.registering granted)))
          else some (s.startRuntime granted raises)) = some s' at h
        split at h
        · cases h
          exact custody_carry hs granted hin (fun _ _ => rfl) trivial fun c hc => by
            cases hc
            exact htoken
        · cases h
          exact custody_startRuntime hsup hs hidle htoken (fun c hc hworker =>
            hin c (hs.custody c hc hworker)) raises
    | _ => rcases reply with _ | _ | _ | t <;> cases h
  | registering claim =>
    have hrelease : (s.withHolder (some (.releasing claim none))).Custody cfg :=
      custody_carry hs _ haccounts (fun _ _ => rfl) trivial fun c hc => by cases hc
    cases outcome with
    | registered done =>
      cases done with
      | true =>
        cases h
        have htoken := hs.hand _ _ hx rfl
        exact custody_carry hs _ haccounts (fun _ _ => rfl) trivial fun c hc => by cases hc; exact htoken
      | false =>
        cases h
        exact hrelease
    | registrationRaised =>
      cases h
      exact hrelease
    | _ => cases h
  | confirming claim reply =>
    cases outcome with
    | unavailable => exact absurd rfl hok
    | reply =>
      rcases reply with _ | _ | renewed
      · cases h
      · cases h
      · change (if renewed = 1 then _ else _) = some s' at h
        split at h
        · cases h
          exact custody_startRuntime hsup hs hfits (hs.hand _ _ hx rfl) (fun c hc hworker =>
            haccounts c (hs.custody c hc hworker)) raises
        · cases h
          exact custody_carry hs _ haccounts (fun _ _ => rfl) trivial fun c hc => by cases hc
    | _ => rcases reply with _ | _ | renewed <;> cases h
  | releasing claim reply =>
    cases outcome with
    | unavailable => exact absurd rfl hok
    | reply =>
      rcases reply with _ | _ | released
      · cases h
      · cases h
      · cases h
        refine custody_leave hs fun c hc => ?_
        have hin : s.InHandOr claim.shardId c False := haccounts c hc
        unfold InHandOr at hin
        split at hin
        · exact hin.elim
        · exact hin
    | _ => rcases reply with _ | _ | released <;> cases h
  | joining tasks =>
    cases outcome with
    | joined =>
      unfold resumeHolder at h
      dsimp only at h
      split at h
      · rename_i hall
        cases h
        exact custody_joined hsup hs hx hall
      · cases h
    | _ => cases h
  | stopping m wasFenced rest =>
    cases outcome with
    | stopped =>
      cases h
      have hdone : ∀ n r, s.Live n r → s.Done n := hs.joins _ hx
      have hsub := subsides_onRuntime (s := s) (n := m) (tame_finishStop wasFenced)
      have hfinished := hs.onRuntime (n := m) (tame_finishStop wasFenced) fun b reply hb =>
        hs.live_idle hdone hb
      refine custody_stopRuntimes (supervised_onRuntime hsup (tame_finishStop wasFenced)) hfinished
        (fun n r hr => ?_) (fun claim hleased hworker => haccounts claim (hs.custody claim hleased hworker))
        fun k n hn hrun => hfits.2 k n hn (hsub.runs hrun)
      obtain ⟨r₀, hr₀, -⟩ := hsub.live hr
      exact hdone n r₀ hr₀
    | stopRaised =>
      cases h
      exact custody_leave hs haccounts
    | _ => cases h
  | handingBack claim reply rest =>
    cases outcome with
    | unavailable => exact absurd rfl hok
    | reply =>
      rcases reply with _ | _ | released
      · cases h
      · cases h
      · cases h
        refine custody_handBack hs (fun n r hr => ?_) fun c hleased hworker =>
          haccounts c (hs.custody c hleased hworker)
        have hstill := hfits.2 _ n (hsup.live n r hr)
        rw [hr.runs] at hstill
        cases hstill
    | _ => rcases reply with _ | _ | released <;> cases h

/-- Redis is written to by what claims under other names, or by no acquisition. -/
theorem Custody.written (hs : s.Custody cfg) {stores : Stores}
    (hcounters : ∀ k, s.stores.counters k ≤ stores.counters k)
    (hleased : ∀ claim, claim.fencingToken ≤ s.stores.counters claim.shardId ∨
      claim.workerId = cfg.workerId → stores.Leased claim → s.stores.Leased claim) :
    ({ s with stores := stores } : ShardSupervisor).Custody cfg := by
  refine hs.restored rfl rfl rfl rfl hcounters (fun claim hc => hleased claim (.inl hc)) hs.joins
    (fun h c hh hc => (hs.hand h c hh hc).trans (hcounters _)) fun claim hc hworker => ?_
  have hbefore := hs.custody claim (hleased claim (.inr hworker) hc) hworker
  exact hbefore.mono rfl id

theorem custody_beat (hsup : s.Supervised) (hs : s.Custody cfg) {r : ShardRuntime} {h : Heartbeat}
    (hr : s.runtimes n = some r) (hh : s.heartbeats n = some h) {b : Beat}
    (hok : b ≠ .resume .unavailable) (hact : s.beat cfg n r h b = some s') : s'.Custody cfg := by
  cases b with
  | wake =>
    unfold beat at hact
    dsimp only at hact
    split at hact
    · cases hact
    · split at hact
      · rename_i hat
        cases hact
        refine hs.moveHeartbeat hh _ (fun hdone => ?_) (fun reply hrenew => ?_) fun _ _ hrenew => ?_
        · rw [hat] at hdone
          cases hdone
        · unfold loopHead at hrenew
          split at hrenew <;> cases hrenew
        · unfold loopHead at hrenew
          split at hrenew <;> cases hrenew
      · rename_i hat
        cases hact
        refine hs.moveHeartbeat hh _ (fun hdone => ?_) (fun reply hrenew => ?_) fun _ _ hrenew => ?_
        · rw [hat] at hdone
          cases hdone
        · split at hrenew
          · rename_i hrun
            exact (Bool.and_eq_true _ _ ▸ hrun).2
          · cases hrenew
        · split at hrenew <;> cases hrenew
      · cases hact
  | serve =>
    unfold beat at hact
    dsimp only at hact
    split at hact
    · rename_i hat
      cases hact
      obtain ⟨hcounters, -, hreply⟩ := leased_renewLease s.stores 0 r.claim.shardId r.claim.claimToken
        r.claim.fencingToken cfg.ttlMs
      have hwritten := hs.written (fun k => le_of_eq (congrFun hcounters.symm k))
        fun claim _ hc => leased_renewed hc
      refine hwritten.moveHeartbeat hh _ (fun hdone => ?_) (fun _ _ => hs.renewing n h _ hh hat) ?_
      · rw [hat] at hdone
        cases hdone
      · intro r' x hx hne hr' hleased
        obtain rfl := Option.some.inj (hr.symm.trans hr')
        have hx' : (s.stores.renewLease 0 r.claim.shardId r.claim.claimToken r.claim.fencingToken
            cfg.ttlMs).replies.lookup 0 = some (some x) := HeartbeatAt.renewing.inj hx
        rcases hreply with hone | ⟨-, hrefused⟩
        · rw [hone] at hx'
          cases hx'
          exact hne rfl
        · obtain ⟨l, hl, hclaim⟩ := hleased
          refine hrefused l hl ?_
          rw [hclaim]
          exact ⟨rfl, rfl⟩
    · cases hact
  | resume outcome =>
    unfold beat at hact
    dsimp only at hact
    split at hact
    · rename_i renewed hat
      split at hact
      · cases hact
      · split at hact
        · cases hact
          refine hs.moveHeartbeat hh _ (fun hdone => ?_) (fun reply hrenew => ?_) fun _ _ hrenew => ?_
          · rw [hat] at hdone
            cases hdone
          · unfold loopHead at hrenew
            split at hrenew <;> cases hrenew
          · unfold loopHead at hrenew
            split at hrenew <;> cases hrenew
        · rename_i hne
          cases hact
          exact custody_cleanup hsup hs hr hh hat hne
    · exact absurd rfl hok
    · rename_i wasFenced hat
      cases hact
      have hfinished := hs.onRuntime (n := n) (tame_finishStop wasFenced) fun b reply hb hrenew => by
        obtain rfl := Option.some.inj (hh.symm.trans hb)
        rw [hat] at hrenew
        cases hrenew
      exact hfinished.moveHeartbeat hh .done (fun _ => rfl) (fun _ h => by cases h) fun _ _ h => by cases h
    · cases hact
      exact hs.moveHeartbeat hh .done (fun _ => rfl) (fun _ h => by cases h) fun _ _ h => by cases h
    · cases hact
  | cancelled =>
    unfold beat at hact
    dsimp only at hact
    split at hact
    · cases hact
      exact hs.moveHeartbeat hh .done (fun _ => rfl) (fun _ h => by cases h) fun _ _ h => by cases h
    · cases hact

theorem leased_foreign {w : StoreWrite} (hw : Foreign cfg w = true) (d : Stores) :
    (∀ k, d.counters k ≤ (d.apply w).counters k) ∧
      ∀ claim, claim.fencingToken ≤ d.counters claim.shardId ∨ claim.workerId = cfg.workerId →
        (d.apply w).Leased claim → d.Leased claim := by
  cases w with
  | candles w => exact ⟨fun k => le_rfl, fun claim _ h => h⟩
  | putFence shardId row => exact ⟨fun k => le_rfl, fun claim _ h => h⟩
  | acquireLease call new ttlMs =>
    have hforeign : new.workerId ≠ cfg.workerId := of_decide_eq_true hw
    rcases leased_acquireLease d call ttlMs new with
      ⟨-, -, -, hsame⟩ | ⟨token, -, hlater, hcounters, -, hnew, hother⟩
    · exact ⟨fun k => (hsame k).2, fun claim _ ⟨l, hl, hclaim⟩ => ⟨l, (hsame _).1.symm.trans hl, hclaim⟩⟩
    · refine ⟨hcounters, fun claim hold ⟨l, hl, hclaim⟩ => ?_⟩
      by_cases hk : claim.shardId = new.shardId
      · have hgranted := hnew l (hk ▸ hl)
        rw [hclaim] at hgranted
        rcases hold with htoken | hworker
        · rw [hgranted] at htoken
          dsimp only at htoken
          omega
        · rw [hgranted] at hworker
          exact absurd hworker hforeign
      · exact ⟨l, (hother _ hk).symm.trans hl, hclaim⟩
  | renewLease call shardId claimToken fencingToken ttlMs =>
    exact ⟨fun k => le_of_eq (congrFun (leased_renewLease _ _ _ _ _ _).1.symm k),
      fun claim _ h => leased_renewed h⟩
  | releaseLease call shardId claimToken fencingToken =>
    refine ⟨fun k => le_of_eq (congrFun (leased_releaseLease _ _ _ _ _).1.symm k), ?_⟩
    exact fun claim _ ⟨l, hl, hclaim⟩ => ⟨l, (leased_releaseLease _ _ _ _ _).2.1 _ l hl, hclaim⟩
  | redisTick ms =>
    refine ⟨fun k => le_rfl, fun claim _ ⟨l, hl, hclaim⟩ => ⟨l, ?_, hclaim⟩⟩
    obtain ⟨hrow, hdeadline⟩ := lease_some.mp hl
    have hlater : d.redisTime + ms < l.deadline := hdeadline
    exact lease_some.mpr ⟨hrow, by omega⟩

theorem custody_act (hsup : s.Supervised) (hs : s.Custody cfg) {a : Act} (hok : s.Undisturbed a)
    (h : s.act cfg a = some s') : s'.Custody cfg := by
  have hwaits : ∀ {t : ShardSupervisor}, t.runtimes = s.runtimes → t.heartbeats = s.heartbeats →
      t.heartbeatTasks = s.heartbeatTasks → t.activeClaims = s.activeClaims → t.stores = s.stores →
      t.holder = s.holder → t.Custody cfg := by
    intro t hruntimes hbeats htasks hclaims hstores hholder
    refine hs.handOver hruntimes hbeats htasks hclaims hstores (fun x hx => hs.joins x (hholder ▸ hx))
      (fun x c hx => hs.hand x c (hholder ▸ hx)) fun claim _ _ hbefore => hbefore.mono hholder fun hc => ?_
    unfold Recorded
    rw [hclaims]
    exact hc
  cases a with
  | call c =>
    cases h
    cases c with
    | attemptAcquireShard shardId => exact hwaits rfl rfl rfl rfl rfl rfl
    | shutdown =>
      unfold call
      dsimp only
      split
      · exact hs
      · exact hwaits rfl rfl rfl rfl rfl rfl
  | enter claimToken now =>
    unfold act at h
    dsimp only at h
    split at h
    · rename_i shardId rest hholder hwaiting
      cases h
      have hrest : ({ s with waiting := rest } : ShardSupervisor).Custody cfg :=
        hwaits rfl rfl rfl rfl rfl rfl
      have hrecorded : ∀ claim, Accounted { s with waiting := rest } claim → s.Recorded claim := by
        intro claim hc
        unfold Accounted at hc
        dsimp only at hc
        rw [hholder] at hc
        exact hc
      unfold enterAcquire
      split
      · exact custody_leave hrest hrecorded
      · refine hrest.withHolder (fun x hx => ?_) (fun x c hx hc => ?_) hrecorded
        · cases hx
          trivial
        · cases hx
          cases hc
    · rename_i rest hholder hwaiting
      cases h
      exact custody_enterShutdown (hwaits rfl rfl rfl rfl rfl rfl) hholder
    · cases h
  | serve => exact custody_serveHolder hs h
  | resume outcome raises =>
    obtain ⟨x, hx, hresume⟩ := Option.bind_eq_some_iff.mp h
    exact custody_resumeHolder hsup hs hx hok hresume
  | beat n b =>
    unfold act at h
    dsimp only at h
    split at h
    · rename_i r b' hr hb
      refine custody_beat hsup hs hr hb (fun hout => ?_) h
      rw [hout] at hok
      exact hok rfl
    · cases h
  | fenceInside n =>
    cases h
    exact hs.onRuntime tame_fence hok
  | others w =>
    unfold act at h
    dsimp only at h
    split at h
    · rename_i hw
      cases h
      obtain ⟨hcounters, hleased⟩ := leased_foreign hw s.stores
      exact hs.written hcounters hleased
    · cases h

/-! ### Runs -/

theorem custody_started {stores : Stores}
    (hnew : ∀ claim, stores.Leased claim → claim.workerId ≠ cfg.workerId) :
    (started stores).Custody cfg where
  beating n b h := by cases h
  paired n r h := by cases h.1
  renewing n b reply h := by cases h
  refused n b r x h := by cases h
  tracked n r h := by cases h.1
  joins h hh := by cases hh
  current n r h := by cases h.1
  shards n r h := by cases h
  tokens n r h := by cases h
  hand h c hh := by cases hh
  custody claim hleased hworker := absurd hworker (hnew claim hleased)

theorem custody_turns {stores : Stores}
    (hnew : ∀ claim, stores.Leased claim → claim.workerId ≠ cfg.workerId)
    (h : Relation.ReflTransGen (Turn cfg Undisturbed) (started stores) s) :
    s.Supervised ∧ s.Custody cfg := by
  induction h with
  | refl => exact ⟨supervised_started stores, custody_started hnew⟩
  | tail _ hturn ih =>
    obtain ⟨a, hok, hact⟩ := hturn
    exact ⟨supervised_act ih.1 hact, custody_act ih.1 ih.2 hok hact⟩

/-- The leases under the name of the worker. -/
structure Custodial (cfg : SupervisorConfig) (s : ShardSupervisor) : Prop where
  /-- The claim of a runtime that runs is recorded. -/
  current : ∀ n r, s.Live n r → s.Recorded r.claim
  /-- What has a lease is recorded or in the hands of the call that has the lock. -/
  known : ∀ claim, s.stores.Leased claim → claim.workerId = cfg.workerId → s.Accounted claim
  /-- When `shutdown` returns, nothing has a lease. -/
  returned : ∀ x outcome raises s', s.holder = some x → Holder.Closes x →
    s.act cfg (.resume outcome raises) = some s' → outcome ≠ .unavailable → outcome ≠ .stopRaised →
    s'.holder = none → ∀ claim, s'.stores.Leased claim → claim.workerId ≠ cfg.workerId

/-- The lock is let go when the last claim is handed back. -/
theorem returned_handBack {claims : List ShardLeaseClaim}
    (hall : ∀ claim, s.stores.Leased claim → claim.workerId = cfg.workerId → claim ∈ claims)
    (hfree : (s.handBack claims).holder = none) {claim : ShardLeaseClaim}
    (h : (s.handBack claims).stores.Leased claim) : claim.workerId ≠ cfg.workerId := by
  cases claims with
  | nil =>
    intro hworker
    cases hall claim h hworker
  | cons c rest => cases hfree

theorem returned_stopRuntimes (hrecorded : ∀ claim, s.stores.Leased claim →
    claim.workerId = cfg.workerId → s.Recorded claim) {rest : List ℕ}
    (hfree : (s.stopRuntimes rest).holder = none) {claim : ShardLeaseClaim}
    (h : (s.stopRuntimes rest).stores.Leased claim) : claim.workerId ≠ cfg.workerId := by
  cases rest with
  | nil =>
    refine returned_handBack (fun c hc hworker => ?_) hfree h
    exact List.mem_map.mpr ⟨⟨_, c⟩, AList.mem_lookup_iff.mp (hrecorded c hc hworker), rfl⟩
  | cons m rest => cases hfree

theorem returned_resume (hs : s.Custody cfg) {x : Holder} (hx : s.holder = some x)
    (hcloses : Holder.Closes x) {outcome : Outcome} {raises : Bool}
    (h : s.resumeHolder cfg raises x outcome = some s') (hok : outcome ≠ .unavailable)
    (hraised : outcome ≠ .stopRaised) (hfree : s'.holder = none) {claim : ShardLeaseClaim}
    (hleased : s'.stores.Leased claim) : claim.workerId ≠ cfg.workerId := by
  have hknown : ∀ c, s.stores.Leased c → c.workerId = cfg.workerId → Holder.Accounts s c x := by
    intro c hc hworker
    have hbefore := hs.custody c hc hworker
    unfold Accounted at hbefore
    rwa [hx] at hbefore
  cases x with
  | joining tasks =>
    cases outcome with
    | joined =>
      unfold resumeHolder at h
      dsimp only at h
      split at h
      · cases h
        exact returned_stopRuntimes (s := { s with heartbeatTasks := ∅ }) hknown hfree hleased
      · cases h
    | _ => cases h
  | stopping m wasFenced rest =>
    cases outcome with
    | stopped =>
      cases h
      exact returned_stopRuntimes (s := s.onRuntime m (ShardRuntime.finishStop wasFenced)) hknown hfree
        hleased
    | stopRaised => exact absurd rfl hraised
    | _ => cases h
  | handingBack c reply rest =>
    cases outcome with
    | reply =>
      rcases reply with _ | _ | released
      · cases h
      · cases h
      · cases h
        exact returned_handBack (fun c hc hworker => (hknown c hc hworker).2) hfree hleased
    | unavailable => exact absurd rfl hok
    | _ => rcases reply with _ | _ | released <;> cases h
  | _ => exact hcloses.elim

/-- Shard 0 is acquired; then the supervisor is shut down, up to the answer to its last release. -/
def closing : List Act :=
  [.call (.attemptAcquireShard 0), .enter 7 0, .serve, .resume .reply false,
    .resume (.registered true) false, .serve, .resume .reply false, .beat 0 .wake, .call .shutdown,
    .enter 8 0, .beat 0 .cancelled, .resume .joined false, .resume .stopped false, .serve]

end ShardSupervisor
end Quantive.WsSharding
