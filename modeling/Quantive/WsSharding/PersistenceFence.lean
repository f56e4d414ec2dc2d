import Quantive.WsSharding.Lease

/-!
# Fencing of the candle writes

A pipeline commits candles only while it holds the lock of its shard's fence row and the row is
the one of its claim; a registration takes the same lock and never lowers the token. So no
write of a pipeline commits after a newer generation was registered, however long the pipeline was
paused and whatever became of its lease.
-/

namespace Quantive.WsSharding
open Quantive.ReadCommitted Prog Protocol ShardTask
open Quantive.Candles (CandlePayload commitBatchInTransaction open_commitBatchInTransaction)

namespace Stores

/-- The fencing tokens of the acquisitions of a shard, in order. -/
def issued (d : Stores) (shardId : ℕ) : List ℕ :=
  d.history.filterMap fun e => match e with
    | .acquired claim => if claim.shardId = shardId then some claim.fencingToken else none
    | _ => none

/-- Tokens are given out in increasing order, and the counter knows the last one. -/
structure Counted (d : Stores) : Prop where
  increasing : ∀ shardId, (d.issued shardId).Pairwise (· < ·)
  bounded : ∀ shardId, ∀ t ∈ d.issued shardId, t ≤ d.counters shardId

end Stores

/-- The writes of Redis. -/
def StoreWrite.IsScript : StoreWrite → Prop
  | .candles _ => False
  | .putFence _ _ => False
  | _ => True

/-- What a step of party `i` may do to the stores. -/
inductive Effect (i : ShardParty) (d : Stores) : Stores → Prop
  | none : Effect i d d
  | script {w : StoreWrite} : w.IsScript → Effect i d (Store.apply w d)
  | register {claim : ShardLeaseClaim} {row : WsShardPersistenceFence} :
      claim.registers row → (d.fences claim.shardId).all claim.supersedes = true →
      Effect i d (d.putFence claim.shardId row)
  | commit {n : ℕ} {claim : ShardLeaseClaim} {row : WsShardPersistenceFence}
      {candles : Candles.Database} : i = .pipeline n claim →
      d.fences claim.shardId = some row → claim.registers row → Effect i d { d with candles }

/-! ### What the scripts do -/

section
variable {d : Stores} {shardId : ℕ}

theorem matching_iff {claimToken fencingToken : ℕ} {l : ShardLease} :
    Stores.matching claimToken fencingToken l = true ↔
      l.claim.claimToken = claimToken ∧ l.claim.fencingToken = fencingToken := by
  simp [Stores.matching]

theorem lease_setLease_ne {other : ℕ} {lease : Option ShardLease} (h : shardId ≠ other) :
    (d.setLease other lease).lease shardId = d.lease shardId := by
  change ((Function.update d.leases other lease) shardId).filter _ = _
  rw [Function.update_of_ne h]
  rfl

/-- What an acquisition does: it meets a lease, fails after `INCR`, or gives the next token. -/
theorem acquireLease_cases (call : ℕ) (claim : ShardLeaseClaim) (ttlMs : ℕ) (d : Stores) :
    ((d.lease claim.shardId).isSome ∧ d.acquireLease call claim ttlMs = d.answer call (some 0)) ∨
    (d.lease claim.shardId = none ∧ ∃ token counters, token = d.counters claim.shardId + 1 ∧
      counters = Function.update d.counters claim.shardId token ∧
      (d.acquireLease call claim ttlMs = { d with counters }.answer call none ∨
        d.acquireLease call claim ttlMs = (({ d with counters }.setLease claim.shardId
          (some ⟨{ claim with fencingToken := token }, d.redisTime + ttlMs⟩)).record
          (.acquired { claim with fencingToken := token })).answer call (some token))) := by
  cases hlease : d.lease claim.shardId with
  | some l => exact Or.inl ⟨rfl, by simp only [Stores.acquireLease, hlease]⟩
  | none =>
    refine Or.inr ⟨rfl, _, _, rfl, rfl, ?_⟩
    by_cases httl : ttlMs = 0
    · exact Or.inl (by simp only [Stores.acquireLease, hlease, httl, if_true])
    · exact Or.inr (by simp only [Stores.acquireLease, hlease, httl, if_false])

/-- What a renewal or a release does: nothing, or it sets the lease of its own tokens. -/
theorem renewLease_cases (call shardId claimToken fencingToken ttlMs : ℕ) (d : Stores) :
    d.renewLease call shardId claimToken fencingToken ttlMs = d.answer call (some 0) ∨
    ∃ l lease, d.lease shardId = some l ∧ l.claim.claimToken = claimToken ∧
      l.claim.fencingToken = fencingToken ∧
      d.renewLease call shardId claimToken fencingToken ttlMs = ((d.setLease shardId lease).record
        (.renewed shardId claimToken fencingToken)).answer call (some 1) := by
  cases hlease : (d.lease shardId).filter (Stores.matching claimToken fencingToken) with
  | none => exact Or.inl (by simp only [Stores.renewLease, hlease])
  | some l =>
    obtain ⟨hl, hmatch⟩ := Option.filter_eq_some_iff.mp hlease
    obtain ⟨hclaim, hfence⟩ := matching_iff.mp hmatch
    exact Or.inr ⟨l, if ttlMs = 0 then none else some { l with deadline := d.redisTime + ttlMs },
      hl, hclaim, hfence, by simp only [Stores.renewLease, hlease]⟩

theorem releaseLease_cases (call shardId claimToken fencingToken : ℕ) (d : Stores) :
    d.releaseLease call shardId claimToken fencingToken = d.answer call (some 0) ∨
    ∃ l, d.lease shardId = some l ∧ l.claim.claimToken = claimToken ∧
      l.claim.fencingToken = fencingToken ∧
      d.releaseLease call shardId claimToken fencingToken = ((d.setLease shardId none).record
        (.released shardId claimToken fencingToken)).answer call (some 1) := by
  cases hlease : (d.lease shardId).filter (Stores.matching claimToken fencingToken) with
  | none => exact Or.inl (by simp only [Stores.releaseLease, hlease])
  | some l =>
    obtain ⟨hl, hmatch⟩ := Option.filter_eq_some_iff.mp hlease
    obtain ⟨hclaim, hfence⟩ := matching_iff.mp hmatch
    exact Or.inr ⟨l, hl, hclaim, hfence, by simp only [Stores.releaseLease, hlease]⟩

/-- How a step treats a lease: it leaves it alone, the lease expires, or a script that carries the
tokens of the lease itself renews or releases it. -/
def LeaseKept (d d' : Stores) (shardId : ℕ) (l : ShardLease) : Prop :=
  d'.lease shardId = some l ∨ l.deadline ≤ d'.redisTime ∨
    d'.history = d.history ++ [.renewed shardId l.claim.claimToken l.claim.fencingToken] ∨
    d'.history = d.history ++ [.released shardId l.claim.claimToken l.claim.fencingToken]

theorem script_lease {w : StoreWrite} (hw : w.IsScript) {l : ShardLease}
    (hl : d.lease shardId = some l) : LeaseKept d (Store.apply w d) shardId l := by
  cases w with
  | candles w => exact hw.elim
  | putFence shardId row => exact hw.elim
  | acquireLease call claim ttlMs =>
    change LeaseKept d (d.acquireLease call claim ttlMs) shardId l
    rcases acquireLease_cases call claim ttlMs d with ⟨_, hd⟩ | ⟨hfree, _, _, _, _, hd | hd⟩
    · rw [hd]
      exact Or.inl hl
    · rw [hd]
      exact Or.inl hl
    · have hne : shardId ≠ claim.shardId := by
        rintro rfl
        rw [hfree] at hl
        cases hl
      rw [hd]
      exact Or.inl ((lease_setLease_ne hne).trans hl)
  | renewLease call other claimToken fencingToken ttlMs =>
    change LeaseKept d (d.renewLease call other claimToken fencingToken ttlMs) shardId l
    rcases renewLease_cases call other claimToken fencingToken ttlMs d with
      hd | ⟨l', lease, hl', hclaim, hfence, hd⟩
    · rw [hd]
      exact Or.inl hl
    · rw [hd]
      by_cases hshard : shardId = other
      · subst hshard
        rw [hl] at hl'
        cases hl'
        refine Or.inr (Or.inr (Or.inl ?_))
        rw [hclaim, hfence]
        rfl
      · exact Or.inl ((lease_setLease_ne hshard).trans hl)
  | releaseLease call other claimToken fencingToken =>
    change LeaseKept d (d.releaseLease call other claimToken fencingToken) shardId l
    rcases releaseLease_cases call other claimToken fencingToken d with
      hd | ⟨l', hl', hclaim, hfence, hd⟩
    · rw [hd]
      exact Or.inl hl
    · rw [hd]
      by_cases hshard : shardId = other
      · subst hshard
        rw [hl] at hl'
        cases hl'
        refine Or.inr (Or.inr (Or.inr ?_))
        rw [hclaim, hfence]
        rfl
      · exact Or.inl ((lease_setLease_ne hshard).trans hl)
  | redisTick ms =>
    obtain ⟨hrow, _⟩ := Option.filter_eq_some_iff.mp hl
    by_cases hlive : d.redisTime + ms < l.deadline
    · refine Or.inl (Option.filter_eq_some_iff.mpr ⟨hrow, ?_⟩)
      exact decide_eq_true hlive
    · exact Or.inr (Or.inl (Int.not_lt.mp hlive))

/-- A script leaves the fence rows and the candles alone. -/
theorem script_tables {w : StoreWrite} (hw : w.IsScript) :
    (Store.apply w d).fences = d.fences ∧ (Store.apply w d).candles = d.candles := by
  cases w with
  | candles w => exact hw.elim
  | putFence shardId row => exact hw.elim
  | acquireLease call claim ttlMs =>
    change (d.acquireLease call claim ttlMs).fences = _ ∧ (d.acquireLease call claim ttlMs).candles = _
    rcases acquireLease_cases call claim ttlMs d with ⟨_, hd⟩ | ⟨_, _, _, _, _, hd | hd⟩ <;>
      rw [hd] <;> exact ⟨rfl, rfl⟩
  | renewLease call other claimToken fencingToken ttlMs =>
    change (d.renewLease call other claimToken fencingToken ttlMs).fences = _ ∧
      (d.renewLease call other claimToken fencingToken ttlMs).candles = _
    rcases renewLease_cases call other claimToken fencingToken ttlMs d with
      hd | ⟨_, _, _, _, _, hd⟩ <;> rw [hd] <;> exact ⟨rfl, rfl⟩
  | releaseLease call other claimToken fencingToken =>
    change (d.releaseLease call other claimToken fencingToken).fences = _ ∧
      (d.releaseLease call other claimToken fencingToken).candles = _
    rcases releaseLease_cases call other claimToken fencingToken d with
      hd | ⟨_, _, _, _, hd⟩ <;> rw [hd] <;> exact ⟨rfl, rfl⟩
  | redisTick ms => exact ⟨rfl, rfl⟩

theorem counted_of_same {d' : Stores} (h : d.Counted) (hissued : ∀ s, d'.issued s = d.issued s)
    (hcounters : ∀ s, d.counters s ≤ d'.counters s) : d'.Counted where
  increasing s := by
    rw [hissued]
    exact h.increasing s
  bounded s t ht := by
    rw [hissued] at ht
    exact (h.bounded s t ht).trans (hcounters s)

theorem issued_record (e : LeaseEvent) (s : ℕ) : (d.record e).issued s =
    d.issued s ++ (match e with
      | .acquired claim => if claim.shardId = s then [claim.fencingToken] else []
      | _ => []) := by
  simp only [Stores.issued, Stores.record, List.filterMap_append]
  congr 1
  cases e with
  | acquired claim =>
    by_cases hs : claim.shardId = s <;> simp [hs]
  | renewed shardId claimToken fencingToken => rfl
  | released shardId claimToken fencingToken => rfl

/-- The next token is above all tokens that were given out. -/
theorem script_counted {w : StoreWrite} (hw : w.IsScript) (h : d.Counted) :
    (Store.apply w d).Counted := by
  cases w with
  | candles w => exact hw.elim
  | putFence shardId row => exact hw.elim
  | acquireLease call claim ttlMs =>
    change (d.acquireLease call claim ttlMs).Counted
    have hle : ∀ token counters, token = d.counters claim.shardId + 1 →
        counters = Function.update d.counters claim.shardId token →
        ∀ s, d.counters s ≤ counters s := by
      rintro token counters rfl rfl s
      by_cases hs : s = claim.shardId
      · subst hs
        rw [Function.update_self]
        omega
      · rw [Function.update_of_ne hs]
    rcases acquireLease_cases call claim ttlMs d with
      ⟨_, hd⟩ | ⟨_, token, counters, htoken, hcounters, hd | hd⟩
    · rw [hd]
      exact counted_of_same h (fun s => rfl) fun s => le_refl _
    · rw [hd]
      exact counted_of_same h (fun s => rfl) (hle token counters htoken hcounters)
    · rw [hd]
      have hissued : ∀ s, Stores.issued _ s = d.issued s ++ _ := issued_record (d := d)
        (.acquired { claim with fencingToken := token })
      constructor
      · intro s
        refine (congrArg (List.Pairwise (· < ·)) (hissued s)).mpr ?_
        by_cases hs : claim.shardId = s
        · simp only [hs, if_true]
          refine List.pairwise_append.mpr ⟨h.increasing s, List.pairwise_singleton _ _, ?_⟩
          intro t ht t' ht'
          have hbound := h.bounded s t ht
          rw [List.mem_singleton] at ht'
          subst hs
          omega
        · simp only [hs, if_false, List.append_nil]
          exact h.increasing s
      · intro s t ht
        change t ≤ counters s
        replace ht : t ∈ d.issued s ++ _ := (hissued s) ▸ ht
        rcases List.mem_append.mp ht with hold | hnew
        · exact (h.bounded s t hold).trans (hle token counters htoken hcounters s)
        · by_cases hs : claim.shardId = s
          · simp only [hs, if_true, List.mem_singleton] at hnew
            rw [hcounters, ← hs, Function.update_self, hnew]
          · simp only [hs, if_false, List.not_mem_nil] at hnew
  | renewLease call other claimToken fencingToken ttlMs =>
    change (d.renewLease call other claimToken fencingToken ttlMs).Counted
    rcases renewLease_cases call other claimToken fencingToken ttlMs d with
      hd | ⟨_, _, _, _, _, hd⟩
    · rw [hd]
      exact counted_of_same h (fun s => rfl) fun s => le_refl _
    · rw [hd]
      refine counted_of_same h (fun s => ?_) fun s => le_refl _
      exact (issued_record _ s).trans (List.append_nil _)
  | releaseLease call other claimToken fencingToken =>
    change (d.releaseLease call other claimToken fencingToken).Counted
    rcases releaseLease_cases call other claimToken fencingToken d with
      hd | ⟨_, _, _, _, hd⟩
    · rw [hd]
      exact counted_of_same h (fun s => rfl) fun s => le_refl _
    · rw [hd]
      refine counted_of_same h (fun s => ?_) fun s => le_refl _
      exact (issued_record _ s).trans (List.append_nil _)
  | redisTick ms => exact counted_of_same h (fun s => rfl) fun s => le_refl _

end

/-! ### The protocol -/

theorem Effect.counted {i : ShardParty} {d d' : Stores} (he : Effect i d d') (h : d.Counted) :
    d'.Counted := by
  cases he with
  | none => exact h
  | script hw => exact script_counted hw h
  | register hclaim hnew => exact counted_of_same h (fun s => rfl) fun s => le_refl _
  | commit hi hrow hclaim => exact counted_of_same h (fun s => rfl) fun s => le_refl _

/-- A session that holds the lock of a fence row finds the row as it left it. -/
def fencing : Protocol ShardParty Stores StoreLock where
  Inv := Stores.Counted
  Rely _ held _ d d' := ∀ s, StoreLock.fence s ∈ held → d'.fences s = d.fences s
  Commit i _ _ d d' := Effect i d d'
  rely_refl _ _ _ _ _ _ := rfl
  rely_trans _ _ _ _ _ _ h h' s hs := (h' s hs).trans (h s hs)
  commit_refl _ _ _ _ := .none

section
variable {O : (q : Candles.Question) → Candles.Answer q → Prop} {i : ShardParty}
  {claim : ShardLeaseClaim}

theorem guar_effect {c : Ctx StoreWrite StoreLock} {d d' : Stores} (hd : d.Counted)
    (he : Effect i d d') (hrows : ∀ s, d'.fences s = d.fences s ∨ StoreLock.fence s ∈ c.held) :
    fencing.Guar i c d d' where
  inv := he.counted hd
  rely _ _ _ _ hheld _ s hs := (hrows s).elim id fun h => (hheld _ hs h).elim
  unused _ _ h := h
  commit := he

/-- Nothing is written yet. -/
def Unwritten (c : Ctx StoreWrite StoreLock) (_ : Stores) : Prop := c.log = []

theorem unwritten_lockable : Lockable fencing i Unwritten where
  stable _ _ _ h _ := h
  hold _ _ _ h := h

theorem triple_fault : fencing.Keeps O i Unwritten fault := triple_query fun _ _ _ h _ => h

theorem triple_evalScript {script : ℕ → StoreWrite} (hscript : ∀ call, (script call).IsScript) :
    fencing.Keeps O i Unwritten (evalScript script) := by
  refine triple_fault.bind fun before => ?_
  split
  · exact triple_raise fun _ _ h => h
  · refine Triple.seq (fun _ => Unwritten) (triple_draw fun _ _ _ _ h _ _ _ => h) fun call => ?_
    refine Triple.seq (fun _ c _ => c.log = [script call])
      (triple_emit fun c d h => by rw [Ctx.push_log, h, List.nil_append]) fun _ => ?_
    refine Triple.seq (fun _ => Unwritten) (triple_commit fun c d d' h he => ⟨?_, rfl⟩) fun _ => ?_
    · have hview : c.view d' = Store.apply (script call) d' := by
        simp only [Ctx.view, h, List.foldl_cons, List.foldl_nil]
      rw [hview]
      have hrows := (script_tables (d := d') (hscript call)).1
      exact guar_effect he.2 (.script (hscript call)) fun s => Or.inl (by rw [hrows])
    · refine triple_fault.bind fun after => ?_
      split
      · exact triple_raise fun _ _ h => h
      · refine Triple.seq (fun _ => Unwritten) (triple_view fun _ _ _ h _ => h) fun d => ?_
        split
        · exact triple_pure fun _ _ h => h
        · exact triple_raise fun _ _ h => h

/-- `Done` is what the body leaves to be committed. -/
theorem triple_inTransaction {α : Type} {body : ShardTask α}
    (Done : Ctx StoreWrite StoreLock → Stores → Prop)
    (hbody : fencing.Triple O i (fun _ _ => True) Unwritten body fun _ => Done)
    (hdone : ∀ c d d', Done c d → fencing.Env i c d d' → fencing.Guar i c d' (c.view d')) :
    fencing.Keeps O i Unwritten (inTransaction body) := by
  refine triple_fault.bind fun before => ?_
  cases before with
  | some failure => exact triple_raise fun _ _ h => h
  | none =>
    refine Triple.seq (fun _ => Unwritten) (hbody.transaction (fun _ _ => True) (fun _ => Done)
      (fun _ _ _ _ _ => rfl) fun _ c d d' h he => ⟨hdone c d d' h he, rfl⟩) fun result => ?_
    refine triple_fault.bind fun after => ?_
    cases after with
    | some failure => exact triple_raise fun _ _ h => h
    | none => exact triple_pure fun _ _ h => h

/-! ### Registration -/

theorem triple_registerClaim : fencing.Keeps O i Unwritten (registerClaim claim) := by
  unfold registerClaim
  split
  · rename_i hpos
    let row : WsShardPersistenceFence :=
      ⟨claim.fencingToken, claim.claimToken, claim.workerId, hpos⟩
    let Locked (c : Ctx StoreWrite StoreLock) := StoreLock.fence claim.shardId ∈ c.held
    let Done (c : Ctx StoreWrite StoreLock) (d : Stores) := c.log = [] ∨
      (c.log = [.putFence claim.shardId row] ∧ Locked c ∧
        (d.fences claim.shardId).all claim.supersedes = true)
    refine triple_inTransaction Done ?_ fun c d d' h he => ?_
    · refine Triple.seq (fun _ c d => c.log = [] ∧ Locked c)
        (triple_acquire fun c d d' h _ => ⟨h, List.mem_cons_self⟩) fun _ => ?_
      refine Triple.seq (fun s c d => (c.log = [] ∧ Locked c) ∧ s = d) (triple_view
        fun c d d' h _ => ⟨h, by rw [Ctx.view, h.1]; rfl⟩) fun s => ?_
      split
      · rename_i hnew
        refine Triple.seq (fun _ => Done) (triple_emit fun c d h => Or.inr ⟨?_, h.1.2, h.2 ▸ hnew⟩)
          fun _ => triple_pure fun _ _ h => h
        rw [Ctx.push_log, h.1.1, List.nil_append]
      · exact triple_pure fun _ _ h => Or.inl h.1.1
    · rcases h with hlog | ⟨hlog, hlocked, hnew⟩
      · have hview : c.view d' = d' := by rw [Ctx.view, hlog]; rfl
        rw [hview]
        exact guar_same he.2
      · have hview : c.view d' = d'.putFence claim.shardId row := by
          rw [Ctx.view, hlog]
          rfl
        have hown : claim.registers row = true := by simp [ShardLeaseClaim.registers, row]
        rw [hview]
        refine guar_effect he.2 (.register hown ?_) fun s => ?_
        · rw [he.1 _ hlocked]
          exact hnew
        · by_cases hs : s = claim.shardId
          · exact Or.inr (hs ▸ hlocked)
          · exact Or.inl (Function.update_of_ne hs _ _)
  · exact triple_raise fun _ _ h => h

/-! ### The writes of a pipeline -/

/-- The row is the one of the claim, and stays so until the end of the transaction. -/
def Fenced (claim : ShardLeaseClaim) (c : Ctx StoreWrite StoreLock) (d : Stores) : Prop :=
  StoreLock.fence claim.shardId ∈ c.held ∧
    ∃ row, d.fences claim.shardId = some row ∧ claim.registers row = true

def Ingesting (claim : ShardLeaseClaim) (c : Ctx StoreWrite StoreLock) (d : Stores) : Prop :=
  Fenced claim c d ∧ ∀ w ∈ c.log, ∃ x, w = StoreWrite.candles x

theorem Fenced.stable {c : Ctx StoreWrite StoreLock} {d d' : Stores} (h : Fenced claim c d)
    (he : fencing.Env i c d d') : Fenced claim c d' := by
  obtain ⟨hlocked, row, hrow, hclaim⟩ := h
  exact ⟨hlocked, row, (he.1 _ hlocked).trans hrow, hclaim⟩

theorem view_candles {ws : List StoreWrite} (h : ∀ w ∈ ws, ∃ x, w = StoreWrite.candles x)
    (d : Stores) : ∃ candles, ws.foldl (fun d w => Store.apply w d) d = { d with candles } := by
  induction ws generalizing d with
  | nil => exact ⟨d.candles, rfl⟩
  | cons w ws ih =>
    obtain ⟨x, rfl⟩ := h w List.mem_cons_self
    exact ih (fun w hw => h w (List.mem_cons_of_mem _ hw)) _

theorem triple_assertCurrent : fencing.Triple O i (fun _ _ => True) Unwritten (assertCurrent claim)
    fun _ => Ingesting claim := by
  have hlock : fencing.Triple O i (fun _ _ => True) Unwritten
      (lockMatching (.fence claim.shardId) fun d => (d.fences claim.shardId).filter claim.registers :
        ShardTask _) _ := triple_lockMatching (unwritten_lockable (i := i))
  refine Triple.bind hlock fun found => ?_
  cases found with
  | none => exact triple_raise fun _ _ _ => trivial
  | some row =>
    refine triple_pure fun c d h => ?_
    obtain ⟨hlocked, hrow⟩ := h.2 row rfl
    have hview : c.view d = d := by rw [Ctx.view, h.1]; rfl
    rw [hview] at hrow
    refine ⟨⟨hlocked, row, Option.filter_eq_some_iff.mp hrow⟩, fun w hw => ?_⟩
    rw [h.1] at hw
    cases hw

theorem triple_commitFencedBatch (n assetId : ℕ) (batch : List CandlePayload) :
    fencing.Keeps O (.pipeline n claim) Unwritten (commitFencedBatch claim assetId batch) := by
  unfold commitFencedBatch
  split
  · exact triple_pure fun _ _ h => h
  · refine triple_inTransaction (Ingesting claim) ?_ fun c d d' h he => ?_
    · refine Triple.bind triple_assertCurrent fun _ => ?_
      refine triple_of_open (fun c d d' h he => ⟨h.1.stable he, h.2⟩)
        (fun c d l h => ⟨⟨List.mem_cons_of_mem _ h.1.1, h.1.2⟩, h.2⟩) (fun c d n h _ _ => h)
        (fun _ _ _ => trivial) (fun w hw c d h => ⟨h.1, fun v hv => ?_⟩) (emits_embed _)
        (open_commitBatchInTransaction assetId batch).embed
      rcases List.mem_append.mp hv with hv | hv
      · exact h.2 v hv
      · rw [List.mem_singleton] at hv
        exact hv ▸ hw
    · obtain ⟨hlocked, row, hrow, hclaim⟩ := h.1.stable he
      obtain ⟨candles, hview⟩ := view_candles h.2 d'
      rw [Ctx.view, hview]
      exact guar_effect he.2 (.commit rfl hrow hclaim) fun s => Or.inl rfl

/-! ### The supervisors -/

theorem triple_releaseShardLease : fencing.Keeps O i Unwritten (releaseShardLease claim) := by
  refine (Keeps.attempt (triple_evalScript fun _ => by trivial)).bind fun released => ?_
  split <;> exact triple_pure fun _ _ h => h

theorem triple_renewShardLease (ttlMs : ℕ) :
    fencing.Keeps O i Unwritten (renewShardLease claim ttlMs) :=
  (triple_evalScript fun _ => by trivial).bind fun _ => triple_pure fun _ _ h => h

theorem triple_acquireShardLease (shardId workerId ttlMs : ℕ) :
    fencing.Keeps O i Unwritten (acquireShardLease shardId workerId ttlMs) := by
  refine Keeps.bind (triple_query fun _ _ _ h _ => h) fun now => ?_
  refine Keeps.bind (triple_draw fun _ _ _ _ h _ _ _ => h) fun claimToken => ?_
  exact (triple_evalScript fun _ => by trivial).bind fun _ => triple_pure fun _ _ h => h

theorem triple_abandon : fencing.Keeps O i Unwritten (abandon claim) :=
  triple_releaseShardLease.bind fun _ => triple_pure fun _ _ h => h

theorem triple_attemptAcquireShard (shardId workerId ttlMs : ℕ) :
    fencing.Keeps O i Unwritten (attemptAcquireShard shardId workerId ttlMs) := by
  refine (triple_acquireShardLease shardId workerId ttlMs).attempt.bind fun claimed => ?_
  split
  · exact triple_pure fun _ _ h => h
  · exact triple_pure fun _ _ h => h
  · rename_i claim
    refine triple_registerClaim.attempt.bind fun registered => ?_
    split
    · exact triple_abandon
    · exact triple_abandon
    · refine Keeps.bind ((triple_renewShardLease ttlMs).attempt.bind fun renewed => ?_)
        fun owner => ?_
      · split <;> exact triple_pure fun _ _ h => h
      · split
        · refine triple_fault.bind fun started => ?_
          split
          · exact triple_abandon
          · exact triple_pure fun _ _ h => h
        · exact triple_abandon

end

theorem fencing_sound : Sound shards fencing := by
  intro i p d hp hd
  have hkeeps : fencing.Keeps shards.oracle i Unwritten p := by
    cases hp with
    | attemptAcquireShard n shardId workerId ttlMs =>
      exact (triple_attemptAcquireShard shardId workerId ttlMs).bind fun _ => triple_pure fun _ _ h => h
    | registerClaim n claim =>
      exact triple_registerClaim.bind fun _ => triple_pure fun _ _ h => h
    | renewShardLease n claim ttlMs =>
      exact (triple_renewShardLease ttlMs).bind fun _ => triple_pure fun _ _ h => h
    | releaseShardLease n claim =>
      exact triple_releaseShardLease.bind fun _ => triple_pure fun _ _ h => h
    | commitFencedBatch n claim assetId batch => exact triple_commitFencedBatch n assetId batch
    | redisTick ms =>
      refine Triple.seq (fun _ c _ => c.log = [StoreWrite.redisTick ms])
        (triple_emit fun c d h => by rw [Ctx.push_log, h, List.nil_append]) fun _ => ?_
      refine triple_commit fun c d d' h he => ⟨?_, rfl⟩
      have hview : c.view d' = Store.apply (StoreWrite.redisTick ms) d' := by rw [Ctx.view, h]; rfl
      rw [hview]
      exact guar_effect he.2 (.script trivial) fun s => Or.inl rfl
  exact hkeeps.rest rfl

theorem shards_ok : shards.Invariant (Ok shards fencing) := by
  refine sound fencing_sound fun d hd => ⟨?_, fun _ => trivial⟩
  have hissued : ∀ s, d.issued s = [] := fun s => by rw [Stores.issued, hd.2.2]; rfl
  constructor
  · intro s
    rw [hissued]
    exact List.Pairwise.nil
  · intro s t ht
    rw [hissued] at ht
    cases ht

/-! ### What a step and a run do to a shard -/

theorem Effect.lease_kept {i : ShardParty} {d d' : Stores} (he : Effect i d d') {s : ℕ}
    {l : ShardLease} (hl : d.lease s = some l) : LeaseKept d d' s l := by
  cases he with
  | none => exact Or.inl hl
  | script hw => exact script_lease hw hl
  | register hclaim hnew => exact Or.inl hl
  | commit hi hrow hclaim => exact Or.inl hl

/-- A shard has a fence row whose token is at least `token`. -/
def Registered (d : Stores) (s token : ℕ) : Prop :=
  ∃ row, d.fences s = some row ∧ token ≤ row.fencingToken

theorem Effect.registered {i : ShardParty} {d d' : Stores} (he : Effect i d d') {s token : ℕ}
    (h : Registered d s token) : Registered d' s token := by
  obtain ⟨row, hrow, htoken⟩ := h
  cases he with
  | none => exact ⟨row, hrow, htoken⟩
  | script hw => exact ⟨row, by rw [(script_tables hw).1]; exact hrow, htoken⟩
  | commit hi hfence hclaim => exact ⟨row, hrow, htoken⟩
  | @register claim new hclaim hnew =>
    by_cases hs : s = claim.shardId
    · subst hs
      have htokens : claim.fencingToken = new.fencingToken := by
        simp only [ShardLeaseClaim.registers, Bool.and_eq_true, decide_eq_true_eq] at hclaim
        exact hclaim.1.1.symm
      rw [hrow] at hnew
      simp only [Option.all_some, ShardLeaseClaim.supersedes, ShardLeaseClaim.registers,
        Bool.or_eq_true, Bool.and_eq_true, decide_eq_true_eq] at hnew
      exact ⟨new, Function.update_self _ _ _, by omega⟩
    · exact ⟨row, (Function.update_of_ne hs _ _).trans hrow, htoken⟩

theorem registered_leads {w w' : World ShardParty Stores StoreWrite StoreLock Candles.Answer
    ShardFailure} (hw : shards.Reachable w) {s token : ℕ} (h : Registered w.db s token)
    (hrun : shards.Leads w w') : Registered w'.db s token := by
  induction hrun with
  | refl => exact h
  | tail hbefore hs ih =>
    obtain ⟨l, hs⟩ := hs
    rcases (shards_ok _ (hw.leads hbefore)).commit_step hs with hdb | ⟨i, held, owned, _, he⟩
    · rw [hdb]
      exact ih
    · exact he.registered ih

/-- Fencing tokens grow from one acquisition of a shard to the next; a lease is renewed or released
by its own tokens alone; a registered token stays or grows; and from a registration on the candles
are changed only by pipelines whose token for the shard is not older. -/
theorem persistence_fencing : shards.Invariant fun w =>
    (∀ s, (w.db.issued s).Pairwise (· < ·)) ∧
    (∀ l w', shards.Step w l w' →
      (∀ s lease, w.db.lease s = some lease → LeaseKept w.db w'.db s lease) ∧
      (∀ s token, Registered w.db s token → Registered w'.db s token)) ∧
    ∀ s token, Registered w.db s token → ∀ w₁, shards.Leads w w₁ → ∀ l w₂, shards.Step w₁ l w₂ →
      w₂.db.candles ≠ w₁.db.candles → ∃ n claim, l = .run (.pipeline n claim) ∧
        (claim.shardId = s → token ≤ claim.fencingToken) := by
  intro w hw
  have hok := shards_ok w hw
  refine ⟨hok.inv.increasing, fun l w' hs => ?_, fun s token hreg w₁ hrun l w₂ hs hchanged => ?_⟩
  · rcases hok.commit_step hs with hdb | ⟨i, held, owned, _, he⟩
    · rw [hdb]
      exact ⟨fun s lease hl => Or.inl hl, fun s token h => h⟩
    · exact ⟨fun s lease hl => he.lease_kept hl, fun s token h => he.registered h⟩
  · have hlater := registered_leads hw hreg hrun
    rcases (shards_ok w₁ (hw.leads hrun)).commit_step hs with hdb | ⟨i, held, owned, hl, he⟩
    · exact (hchanged (by rw [hdb])).elim
    · change Effect i w₁.db w₂.db at he
      generalize w₂.db = d' at he hchanged
      cases he with
      | none => exact (hchanged rfl).elim
      | script hscript => exact (hchanged (script_tables hscript).2).elim
      | register hclaim hnew => exact (hchanged rfl).elim
      | @commit n claim row candles hi hrow hclaim =>
        refine ⟨n, claim, hi ▸ hl, fun hshard => ?_⟩
        obtain ⟨row', hrow', htoken⟩ := hlater
        rw [← hshard, hrow] at hrow'
        cases hrow'
        simp only [ShardLeaseClaim.registers, Bool.and_eq_true, decide_eq_true_eq] at hclaim
        omega

end Quantive.WsSharding
