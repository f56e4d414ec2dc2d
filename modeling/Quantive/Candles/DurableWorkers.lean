import Quantive.Candles.DurableJobs

/-!
# Interleavings of the durable workers

Workers of the three kinds, the heartbeats beside them, and everybody else who writes candles or
schedules jobs. A worker that lost its claim changes neither the row nor any candle.
-/

namespace Quantive.Candles
open Quantive.ReadCommitted Prog Protocol

theorem allQuestions : LocalQuestions fun _ => True := ⟨trivial, trivial, trivial⟩

/-! ### The claim -/

section
variable {J₀ : Type} {T : JobTable J₀} (hT : Durable T) {i : JobParty}
  {F : List ℕ → List ℕ → Prop} {O : (q : Question) → Answer q → Prop}

theorem RowLocked.stable (hF : Frame F) {condition : J₀ → Bool} {id : ℕ} {job : J₀}
    {c : Ctx Write Lock} {d d' : Database} (h : RowLocked hT F condition id job c d)
    (he : fencing.Env i c d d') : RowLocked hT F condition id job c d' :=
  ⟨h.1.stable hF he, h.2.1, he.1.locked _ _ h.2.1 h.2.2.1, h.2.2.2⟩

theorem RowLocked.hold {condition : J₀ → Bool} {id : ℕ} {job : J₀} {c : Ctx Write Lock}
    {d : Database} (h : RowLocked hT F condition id job c d) (l : Lock) :
    RowLocked hT F condition id job (c.hold l) d :=
  ⟨h.1, List.mem_cons_of_mem _ h.2.1, h.2.2⟩

/-- The rows of a SELECT that skips locked rows are locked. -/
theorem Durable.triple_lockRowsSkip (hF : Frame F) {J : Ctx Write Lock → Database → Prop}
    (condition : J₀ → Bool) (n : ℕ) (ids : List ℕ) :
    fencing.Triple O i J (Idle F) (Task.lockRowsSkip T.lock (T.select · condition) n ids)
      fun found c d => Idle F c d ∧ ∀ r ∈ found.1, RowLocked hT F condition r.1 r.2 c d := by
  have hskip : fencing.Triple O i J _ (Task.lockRowsSkip T.lock (T.select · condition) n ids) _ :=
    Candles.triple_lockRowsSkip (I := fun rows c d => Idle F c d ∧ ∀ r ∈ rows, RowLocked hT F condition r.1 r.2 c d)
    (fun rows c d d' h he => ⟨h.1.stable hF he, fun r hr => (h.2 r hr).stable hT hF he⟩)
    (fun rows l c d h => ⟨h.1, fun r hr => (h.2 r hr).hold hT l⟩)
    (fun rows k c d r h hk hr => ⟨h.1, fun x hx => ?_⟩) n ids []
  · refine hskip.conseq (fun c d h => ⟨h, fun r hr => by cases hr⟩) fun found c d h => ?_
    rw [List.nil_append] at h
    exact h.2
  · rcases List.mem_append.mp hx with hx | hx
    · exact h.2 x hx
    · rw [List.mem_singleton] at hx
      subst hx
      rw [h.1.view] at hr
      rw [hT.lock] at hk
      exact ⟨h.1, hk, hT.of_select hr⟩

/-- A claim that is about to be committed. -/
structure Claims (hT : Durable T) (workerId id : ℕ) (job : J₀) (leaseToken : ℕ)
    (c : Ctx Write Lock) (d : Database) : Prop where
  log : c.log = [.note (.claimed leaseToken), T.put id job]
  entering : Entering workerId c.owned d.claimed
  token : leaseToken ∈ c.owned
  locked : JobRef.lock ⟨hT.kind, id⟩ ∈ c.held
  before : ∃ row, d.job ⟨hT.kind, id⟩ = some row ∧ (row.pending = true ∨ row.processing = true)
  processing : T.processing job = true
  claim : ∃ cl, T.claim job = some cl ∧ cl.workerId = workerId ∧ cl.leaseToken = leaseToken

theorem Claims.commit {workerId id leaseToken : ℕ} {job : J₀} {c : Ctx Write Lock}
    {d d' : Database} (hi : ∃ n, i = .worker hT.kind n)
    (h : Claims hT workerId id job leaseToken c d) (he : fencing.Env i c d d') :
    fencing.Guar i c d' (c.view d') ∧
      Idle (Claimant workerId leaseToken) c.release (c.view d') := by
  have hentering := (frame_entering workerId).others _ _ _ h.entering he.1.fresh
  obtain ⟨row, hrow, hready⟩ := h.before
  obtain ⟨cl, hclaim, hworker, htoken⟩ := h.claim
  have hput := hT.put id job
  have hview : c.view d' =
      Store.apply (T.put id job) (Store.apply (Write.note (.claimed leaseToken)) d') := by
    rw [Ctx.view, h.log]
    rfl
  have hclaimed : (c.view d').claimed = d'.claimed ++ [leaseToken] := by
    rw [hview, claimed_apply, claimed_apply, (Write.of_job hput).2]
    exact List.append_nil _
  have hclaiming : Claiming i c.held c.owned d' (c.view d') ⟨hT.kind, id⟩ cl := {
    party := hi
    locked := h.locked
    before := ⟨row, he.1.locked _ _ h.locked hrow, hready⟩
    after := by
      refine ⟨hT.row job, ?_, ?_, ?_⟩
      · rw [hview]
        exact job_apply_self hput
      · rw [hT.processing]
        exact h.processing
      · rw [hT.claim]
        exact hclaim
    worker := hworker ▸ hentering.1
    token := htoken ▸ h.token
    first := hentering.2
    elsewhere := fun other hother => by
      rw [hview, job_apply_ne hput hother]
      exact job_apply_of_none rfl other
    candles := by
      rw [hview, candleData_apply (Write.of_job hput).1]
      exact candleData_apply rfl d'
    claimed := by rw [hclaimed, htoken] }
  refine ⟨hclaiming.guar he.2, rfl, hentering.1, h.token, fun n hn hc => ?_⟩
  rw [hclaimed] at hc
  rcases List.mem_append.mp hc with hold | hnew
  · exact (hentering.2 n hn hold).elim
  · exact List.mem_singleton.mp hnew

theorem Durable.triple_claimNext (hi : ∃ n, i = .worker hT.kind n) (workerId : ℕ)
    (leaseDuration : ℤ) (respectRetrySchedule : Bool) :
    fencing.Triple O i (fun _ _ => True) (Idle (Entering workerId))
      (T.claimNext workerId leaseDuration respectRetrySchedule) fun found c d =>
        ∀ id job leaseToken, found = some (id, job, leaseToken) →
          Idle (Claimant workerId leaseToken) c d := by
  have hF := frame_entering workerId
  unfold JobTable.claimNext
  split
  · exact triple_raise fun _ _ _ => trivial
  · refine Triple.bind (triple_query fun _ _ _ h _ => h) fun now => ?_
    refine triple_inTransaction hF (D := fun found c d =>
        (found = none → Idle (Entering workerId) c d) ∧ ∀ id job leaseToken,
          found = some (id, job, leaseToken) → Claims hT workerId id job leaseToken c d)
      (fun _ _ _ => trivial) ?_ (fun found c d d' h he => ?_) fun _ _ _ _ => trivial
    · refine Triple.bind (triple_viewIdle hF) fun s => ?_
      refine Triple.bind (hT.triple_lockRowsSkip hF _ 1 _) fun found => ?_
      obtain ⟨rows, complete⟩ := found
      cases rows with
      | nil => exact triple_pure fun c d h => ⟨fun _ => h.1, fun _ _ _ hf => by cases hf⟩
      | cons r rest =>
        obtain ⟨id, job⟩ := r
        refine Triple.seq (fun leaseToken c d =>
          RowLocked hT (Entering workerId) (T.ready now respectRetrySchedule) id job c d ∧
            leaseToken ∈ c.owned) (triple_draw fun c d d' n h he _ hn => ?_) fun leaseToken => ?_
        · have hlocked := (h.2 (id, job) List.mem_cons_self).stable hT hF he
          exact ⟨⟨⟨hlocked.1.1, hF.own _ _ n hlocked.1.2 hn.1⟩, hlocked.2⟩, List.mem_cons_self⟩
        · let claim : Claim := ⟨workerId, leaseToken, now, now + leaseDuration⟩
          refine Triple.seq (fun _ c d => Claims hT workerId id (T.claimed claim job) leaseToken
              { c with log := [.note (.claimed leaseToken), T.put id (T.claimed claim job)] } d ∧
            c.log = [.note (.claimed leaseToken)]) (triple_emit fun c d h => ?_) fun _ => ?_
          · obtain ⟨⟨hidle, hlock, hrow, hready⟩, htoken⟩ := h
            refine ⟨⟨rfl, hidle.2, htoken, hlock, ⟨_, hrow, ?_⟩, (hT.claimed _ _).1,
              ⟨claim, (hT.claimed _ _).2, rfl, rfl⟩⟩, ?_⟩
            · rw [hT.pending, hT.processing]
              simp only [JobTable.ready, Bool.or_eq_true, Bool.and_eq_true] at hready
              exact hready.imp (fun h => h.1) fun h => h.1
            · rw [Ctx.push_log, hidle.1, List.nil_append]
          · refine Triple.seq (fun _ => Claims hT workerId id (T.claimed claim job) leaseToken)
              (triple_emit fun c d h => ?_) fun _ => ?_
            · obtain ⟨hclaims, hlog⟩ := h
              have hpush : c.push (T.put id (T.claimed claim job)) =
                  { c with log := [.note (.claimed leaseToken), T.put id (T.claimed claim job)] } := by
                rw [Ctx.push, hlog]
                rfl
              rw [hpush]
              exact hclaims
            · refine triple_pure fun c d h => ⟨(fun hf => by cases hf), fun _ _ _ hf => ?_⟩
              cases hf
              exact h
    · cases found with
      | none =>
        have hidle := (h.1 rfl).stable hF he
        rw [hidle.view]
        exact ⟨(change_refl i _ _ d').guar he.2, fun _ _ _ hf => by cases hf⟩
      | some found =>
        obtain ⟨id, job, leaseToken⟩ := found
        have hcommit := (h.2 id job leaseToken rfl).commit hT hi he
        refine ⟨hcommit.1, fun _ _ _ hf => ?_⟩
        cases hf
        exact hcommit.2

end

/-! ### Between transactions -/

section
variable {i : JobParty} {F : List ℕ → List ℕ → Prop} {O : (q : Question) → Answer q → Prop}

theorem keeps_ownershipLost : fencing.Keeps O i (Idle F) Task.ownershipLost :=
  triple_query fun _ _ _ h _ => h

/-- The check before a step: a lost lease ends the attempt. -/
theorem keeps_unlessLost {α : Type} {p : Task α} (e : Failure) (hp : fencing.Keeps O i (Idle F) p) :
    fencing.Keeps O i (Idle F) (do
      if ← Task.ownershipLost then raise e
      p) := by
  refine Keeps.bind keeps_ownershipLost fun lost => ?_
  cases lost with
  | true => exact triple_raise fun _ _ h => h
  | false => exact hp

theorem keeps_orLost {done : Task Bool} (e : Failure) (hdone : fencing.Keeps O i (Idle F) done) :
    fencing.Keeps O i (Idle F) (do
      if !(← done) then raise e) := by
  refine hdone.bind fun ok => ?_
  cases ok with
  | true => exact triple_pure fun _ _ h => h
  | false => exact triple_raise fun _ _ h => h

theorem keeps_settleAttempt {attempt : Task Unit} {record : Failure → Task Unit}
    (hattempt : fencing.Keeps O i (Idle F) attempt)
    (hrecord : ∀ e, fencing.Keeps O i (Idle F) (record e)) (raiseOnAttemptError : Bool) :
    fencing.Keeps O i (Idle F) (settleAttempt attempt record raiseOnAttemptError) := by
  refine hattempt.attempt.bind fun result => ?_
  split
  · exact triple_pure fun _ _ h => h
  · exact triple_pure fun _ _ h => h
  · refine (hrecord _).bind fun _ => ?_
    split
    · exact triple_raise fun _ _ h => h
    · exact triple_pure fun _ _ h => h

variable (hF : Frame F)
include hF

theorem keeps_quiet {α : Type} {p : Task α} (hp : p.Emits O (fun _ => False) fun _ => True)
    (hopen : p.Open) : fencing.Keeps O i (Idle F) p :=
  triple_of_open (fun _ _ _ h he => h.stable hF he) (fun _ _ _ h => h)
    (fun _ _ n h _ hn => ⟨h.1, hF.own _ _ n h.2 hn.1⟩) (fun _ _ h => h)
    (fun _ hw => hw.elim) hp hopen

theorem keeps_yieldKlines {σ : Type} {consume : σ → CandlePayload → Task σ}
    (hconsume : ∀ s candle, fencing.Keeps O i (Idle F) (consume s candle))
    (elements : List (Option Kline)) (s : σ) :
    fencing.Keeps O i (Idle F) (yieldKlines consume elements s) := by
  induction elements generalizing s with
  | nil => exact triple_pure fun _ _ h => h
  | cons k rest ih =>
    cases k with
    | none => exact triple_raise fun _ _ h => h
    | some k =>
      refine Keeps.bind (keeps_quiet hF (emits_ofExcept _) (open_ofExcept _)) fun _ => ?_
      refine Keeps.bind (keeps_quiet hF (emits_now allQuestions) open_now) fun receivedAt => ?_
      exact (hconsume s _).bind fun s => ih s

theorem keeps_klinePages {σ : Type} {consume : σ → CandlePayload → Task σ}
    (hconsume : ∀ s candle, fencing.Keeps O i (Idle F) (consume s candle)) (symbol : String)
    (stop : ℤ) (fuel : ℕ) (current : ℤ) (s : σ) :
    fencing.Keeps O i (Idle F) (klinePages consume symbol stop fuel current s) := by
  induction fuel generalizing current s with
  | zero => exact triple_stuck
  | succ fuel ih =>
    unfold klinePages
    split
    · refine Keeps.bind (triple_query fun _ _ _ h _ => h) fun response => ?_
      split
      · exact triple_raise fun _ _ h => h
      · exact triple_raise fun _ _ h => h
      · exact triple_pure fun _ _ h => h
      · refine (keeps_yieldKlines hF hconsume _ s).bind fun s => ?_
        split
        · exact triple_pure fun _ _ h => h
        · exact ih _ s
    · exact triple_pure fun _ _ h => h

theorem keeps_detectGaps (settings : GapRepairSettings) (assetId : ℕ) (startTime endTime : ℤ) :
    fencing.Keeps O i (Idle F) (detectGaps settings assetId startTime endTime) := by
  unfold detectGaps
  split
  · exact triple_pure fun _ _ h => h
  · refine Keeps.bind (keeps_quiet hF (emits_connection allQuestions) open_connection) fun _ => ?_
    unfold detectMissingRanges
    split
    · exact triple_pure fun _ _ h => h
    · exact Keeps.bind (triple_viewIdle hF) fun d => triple_pure fun _ _ h => h

theorem keeps_executeReconciliation {claim : Option RepairClaim} (assetId : ℕ) (symbol : String)
    (startTime endTime : ℤ) (batchSize fuel : ℕ)
    (hpersist : ∀ batch, fencing.Keeps O i (Idle F) (persist assetId claim batch)) :
    fencing.Keeps O i (Idle F)
      (executeReconciliation assetId symbol startTime endTime batchSize claim fuel) := by
  unfold executeReconciliation
  split
  · exact triple_raise fun _ _ h => h
  · refine Keeps.bind (keeps_klinePages hF (fun batch candle => ?_) _ _ _ _ _) fun batch =>
      hpersist batch
    have hstep : ∀ batch : List CandlePayload, fencing.Keeps O i (Idle F)
        (if batchSize ≤ batch.length then (do
          persist assetId claim batch
          pure []) else pure batch : Task (List CandlePayload)) := by
      intro batch
      split
      · exact (hpersist batch).bind fun _ => triple_pure fun _ _ h => h
      · exact triple_pure fun _ _ h => h
    unfold reconcileCandle
    cases claim with
    | none => exact hstep _
    | some c => exact keeps_unlessLost _ (hstep _)

end

/-! ### Repair workers -/

theorem BatchWrite.isCandles {writer : Writer} {w : Write} (h : BatchWrite writer w) :
    w.candles = true := by
  cases w <;> first | rfl | exact h.elim

theorem carries_claimant {kind : JobKind} (n id workerId leaseToken : ℕ) :
    Carries (.worker kind n) (Claimant workerId leaseToken) ⟨kind, id⟩ workerId leaseToken := by
  rintro owned claimed c ⟨hworker, htoken, hlast⟩ rfl rfl
  exact ⟨rfl, hworker, htoken, hlast⟩

section
variable {O : (q : Question) → Answer q → Prop} (n : ℕ) (p : RepairParameters) (c : RepairClaim)

theorem keeps_persist (assetId : ℕ) (batch : List CandlePayload) :
    fencing.Keeps O (.worker .gap n) (Idle (Claimant c.workerId c.leaseToken))
      (persist assetId (some c) batch) := by
  have hF := frame_claimant c.workerId c.leaseToken
  unfold persist
  split
  · exact triple_pure fun _ _ h => h
  · refine keeps_unlessLost _ (fenced_inTransaction hF ?_)
    refine Triple.bind (triple_acquire (T := Idle _) fun _ _ _ h he => h.stable hF he)
      fun _ => ?_
    have hB := bears_owning (i := .worker .gap n) hF ⟨.gap, c.jobId⟩
    refine Triple.bind (durableGap.triple_assertOwnedLocked hF (carries_claimant _ _ _ _))
      fun _ => ?_
    refine Triple.bind (hB.quiet (emits_ownershipLost allQuestions) open_ownershipLost)
      fun lost => ?_
    cases lost with
    | true => exact hB.raise _
    | false =>
      refine Triple.post (hB.candles (fun _ _ h => ⟨_, h.2⟩) ?_
        (open_commitBatchInTransaction _ _)) fun _ _ _ h => h.1
      exact (emits_commitBatchInTransaction allQuestions _ _).mono fun _ => BatchWrite.isCandles

theorem keeps_markAwaitingMerge : fencing.Keeps O (.worker .gap n)
    (Idle (Claimant c.workerId c.leaseToken)) (markAwaitingMerge c.jobId c.workerId c.leaseToken) := by
  have hF := frame_claimant c.workerId c.leaseToken
  refine Keeps.bind (triple_query fun _ _ _ h _ => h) fun now => fenced_inTransaction hF ?_
  exact durableGap.triple_updateOwned hF (carries_claimant _ _ _ _) fun _ _ hc => by cases hc

theorem keeps_markComplete (job : GapRepairJob) : fencing.Keeps O (.worker .gap n)
    (Idle (Claimant c.workerId c.leaseToken))
      (markCompleteAndScheduleCagg job c.jobId c.workerId c.leaseToken) := by
  have hF := frame_claimant c.workerId c.leaseToken
  refine Keeps.bind (triple_query fun _ _ _ h _ => h) fun now => ?_
  refine Keeps.bind (keeps_quiet hF (emits_ofExcept _) (open_ofExcept _)) fun window => ?_
  refine fenced_inTransaction hF ?_
  refine Triple.bind (triple_acquire (T := Idle _) fun _ _ _ h he => h.stable hF he)
    fun _ => ?_
  refine Triple.bind (durableGap.triple_assertOwnedLocked hF (carries_claimant _ _ _ _))
    fun _ => ?_
  refine Triple.bind ((bears_owning hF _).scheduleCaggRefreshJob _ _ _ _) fun _ => ?_
  exact (durableGap.updateOwned_owning hF fun _ => rfl).post fun _ _ _ h => h.1

theorem GapRepairJob.failed_claim (error : Failure) (now : ℤ) (job : GapRepairJob) :
    (GapRepairJob.failed error now job).claim = none := by
  unfold GapRepairJob.failed
  dsimp only
  split <;> rfl

theorem keeps_repairAttempt (job : GapRepairJob) (fuel : ℕ) : fencing.Keeps O (.worker .gap n)
    (Idle (Claimant c.workerId c.leaseToken)) (repairAttempt p job c fuel) := by
  have hF := frame_claimant c.workerId c.leaseToken
  unfold repairAttempt
  refine (keeps_detectGaps hF _ _ _ _).bind fun gaps => ?_
  refine Keeps.bind (Keeps.forEach (fun gap => keeps_unlessLost _
    (keeps_executeReconciliation hF _ _ _ _ _ _ (keeps_persist n c _))) gaps) fun _ => ?_
  refine (keeps_detectGaps hF _ _ _ _).bind fun remaining => ?_
  split
  · refine Keeps.bind ?_ fun staged => ?_
    · refine Keeps.bind (keeps_quiet hF (emits_connection allQuestions) open_connection) fun _ => ?_
      exact Keeps.bind (triple_viewIdle hF) fun d => triple_pure fun _ _ h => h
    · split
      · exact keeps_orLost _ (keeps_markAwaitingMerge n c)
      · exact triple_raise fun _ _ h => h
  · exact keeps_unlessLost _ (keeps_orLost _ (keeps_markComplete n c job))

end

/-! ### Merge workers -/

section
variable {O : (q : Question) → Answer q → Prop} (n jobId workerId leaseToken : ℕ)

theorem keeps_assertOwned {J₀ : Type} {T : JobTable J₀} {i : JobParty} {F : List ℕ → List ℕ → Prop}
    (hF : Frame F) : fencing.Keeps O i (Idle F) (T.assertOwned jobId workerId leaseToken) := by
  refine Keeps.bind (triple_query fun _ _ _ h _ => h) fun now => ?_
  refine Keeps.bind (keeps_quiet hF (emits_connection allQuestions) open_connection) fun _ => ?_
  refine Keeps.bind (triple_viewIdle hF) fun d => ?_
  split
  · exact triple_raise fun _ _ h => h
  · exact triple_pure fun _ _ h => h

theorem keeps_compressionStatement : fencing.Keeps O (.worker .merge n)
    (Idle (Claimant workerId leaseToken)) (compressionStatement jobId workerId leaseToken) := by
  have hF := frame_claimant workerId leaseToken
  refine keeps_unlessLost _ ((keeps_assertOwned _ _ _ hF).bind fun _ => ?_)
  exact keeps_quiet hF (emits_connection allQuestions) open_connection

theorem fenced_mergeOnePage (dayBucket : ℤ) (pageSize : ℕ) : fencing.Keeps O (.worker .merge n)
    (Idle (Claimant workerId leaseToken))
      (mergeOnePage dayBucket pageSize jobId workerId leaseToken) := by
  have hF := frame_claimant workerId leaseToken
  have hB := bears_owning (i := .worker .merge n) hF ⟨.merge, jobId⟩
  have hcandles {p : Task Unit} (hp : p.Emits O (fun w => w.candles = true) fun _ => True)
      (hopen : p.Open) := hB.candles (O := O) (fun _ _ h => ⟨_, h.2⟩) hp hopen
  refine keeps_unlessLost _ (fenced_inTransaction hF ?_)
  refine Triple.bind (durableMerge.triple_assertOwnedLocked hF (carries_claimant _ _ _ _))
    fun _ => ?_
  refine Triple.bind hB.view fun d => ?_
  refine Triple.bind (hB.quiet (emits_lockRowsSkip _ _ _ _) (open_lockRowsSkip _ _ _ _))
    fun found => ?_
  obtain ⟨rows, complete⟩ := found
  dsimp only
  split
  · exact triple_pure fun _ _ h => h.1
  · refine Triple.bind (hB.quiet (emits_ownershipLost allQuestions) open_ownershipLost)
      fun lost => ?_
    cases lost with
    | true => exact hB.raise _
    | false =>
      refine Triple.bind (Triple.forEach fun group _ => ?_) fun _ => ?_
      · cases group with
        | nil => exact triple_pure fun _ _ h => h
        | cons r rest =>
          refine hcandles ?_ (open_commitRawBatchInTransaction _ _)
          exact (emits_commitRawBatchInTransaction allQuestions _ _).mono
            fun _ h => h.batch.isCandles
      · refine Triple.bind (Triple.forEach fun r _ => ?_) fun _ => triple_pure fun _ _ h => h.1
        exact hcandles ((emits_emit _).mpr rfl) (open_emit _)

theorem keeps_mergePages (dayBucket : ℤ) (pageSize fuel : ℕ) : fencing.Keeps O (.worker .merge n)
    (Idle (Claimant workerId leaseToken))
      (mergePages dayBucket pageSize jobId workerId leaseToken fuel) := by
  induction fuel with
  | zero => exact triple_stuck
  | succ fuel ih =>
    refine keeps_unlessLost _ ?_
    refine (fenced_mergeOnePage n jobId workerId leaseToken dayBucket pageSize).bind fun count => ?_
    split
    · exact triple_pure fun _ _ h => h
    · exact ih

theorem keeps_completeMergeJob (dayBucket : ℤ) : fencing.Keeps O (.worker .merge n)
    (Idle (Claimant workerId leaseToken))
      (completeMergeJob dayBucket jobId workerId leaseToken) := by
  have hF := frame_claimant workerId leaseToken
  have hB := bears_owning (i := .worker .merge n) hF ⟨.merge, jobId⟩
  refine Keeps.bind (triple_query fun _ _ _ h _ => h) fun now => fenced_inTransaction hF ?_
  refine Triple.bind (durableMerge.triple_assertOwnedLocked hF (carries_claimant _ _ _ _))
    fun _ => ?_
  refine Triple.bind hB.view fun d => ?_
  split
  · exact triple_pure fun _ _ h => h.1
  · refine Triple.bind (hB.scheduleCaggRefreshJob _ _ _ _) fun _ => ?_
    exact (durableMerge.updateOwned_owning hF fun _ => rfl).post fun _ _ _ h => h.1

/-- Gap jobs that wait for a merge, locked. -/
def Waiting (F : List ℕ → List ℕ → Prop) (rows : List (ℕ × GapRepairJob)) (c : Ctx Write Lock)
    (d : Database) : Prop :=
  InTx (.worker .merge n) F c d ∧ ∀ r ∈ rows, Lock.gapJob r.1 ∈ c.held ∧
    d.job ⟨.gap, r.1⟩ = some (.gap r.2) ∧ r.2.status = .awaitingMerge

theorem bears_waiting {F : List ℕ → List ℕ → Prop} (hF : Frame F)
    (rows : List (ℕ × GapRepairJob)) : Bears (.worker .merge n) F (Waiting n F rows) where
  stable _ _ _ h he := ⟨(bears_inTx hF).stable _ _ _ h.1 he, fun r hr =>
    ⟨(h.2 r hr).1, he.1.locked ⟨.gap, r.1⟩ _ (h.2 r hr).1 (h.2 r hr).2.1, (h.2 r hr).2.2⟩⟩
  hold _ _ l h := ⟨(bears_inTx hF).hold _ _ l h.1, fun r hr =>
    ⟨List.mem_cons_of_mem _ (h.2 r hr).1, (h.2 r hr).2⟩⟩
  own _ _ m h hm := ⟨(bears_inTx hF).own _ _ m h.1 hm, h.2⟩
  push _ _ w h hw := ⟨(bears_inTx hF).push _ _ w h.1 hw, h.2⟩
  inTx _ _ h := h.1

theorem triple_releaseGapJob {F : List ℕ → List ℕ → Prop} (hF : Frame F)
    {rows : List (ℕ × GapRepairJob)} {r : ℕ × GapRepairJob} (hr : r ∈ rows) :
    fencing.Triple O (.worker .merge n) (Facts F) (Waiting n F rows) (releaseGapJob r.1 r.2)
      fun _ => Waiting n F rows := by
  have hB := bears_waiting n hF rows
  refine Triple.bind hB.view fun d => ?_
  split
  · exact triple_pure fun _ _ h => h
  · refine Triple.bind hB.now fun now => triple_emit fun c d h => hB.push c d _ h ?_
    obtain ⟨hlock, hrow, hstatus⟩ := h.2 r hr
    refine ⟨fun ref after hput => ?_, (fun hcandles => by cases hcandles), rfl⟩
    cases hput
    refine .reopened hlock hrow ?_ ?_ rfl (fun _ hc => hc) ⟨rfl, rfl⟩
    · simp [JobRow.processing, gapRepairJobs, hstatus]
    · simp [JobRow.pending, gapRepairJobs, hstatus]

theorem keeps_releaseGapJobs (maxJobs : ℕ) : fencing.Keeps O (.worker .merge n)
    (Idle (Claimant workerId leaseToken)) (releaseGapJobsWaitingForMerge maxJobs leaseToken) := by
  have hF := frame_claimant workerId leaseToken
  unfold releaseGapJobsWaitingForMerge
  split
  · exact triple_raise fun _ _ h => h
  · refine fenced_inTransaction hF (Triple.bind (triple_viewIdle hF) fun s => ?_)
    refine Triple.bind (durableGap.triple_lockRowsSkip hF
      (fun job : GapRepairJob => decide (job.status = .awaitingMerge)) maxJobs _) fun found => ?_
    obtain ⟨rows, complete⟩ := found
    have hB := bears_waiting n hF rows
    refine (?_ : fencing.Triple _ _ _ (Waiting n _ rows) _ _).pre
      fun c d h => ⟨h.1.inTx, fun r hr => ?_⟩
    · refine Triple.seq (fun _ => Waiting n _ rows) ?_ fun _ =>
        (hB.note rfl).post fun _ _ _ h => h.1
      exact Triple.forEach fun r hr => triple_releaseGapJob n hF hr
    · obtain ⟨_, hlock, hrow, hstatus⟩ := h.2 r hr
      exact ⟨hlock, hrow, of_decide_eq_true hstatus⟩

theorem HistoricalMergeJob.failed_claim (error : Failure) (now : ℤ) (job : HistoricalMergeJob) :
    (HistoricalMergeJob.failed error now job).claim = none := by
  unfold HistoricalMergeJob.failed
  dsimp only
  split <;> rfl

theorem keeps_mergeAttempt (p : MergeParameters) (dayBucket : ℤ) (fuel : ℕ) :
    fencing.Keeps O (.worker .merge n) (Idle (Claimant workerId leaseToken))
      (mergeAttempt p dayBucket jobId workerId leaseToken fuel) := by
  refine (keeps_compressionStatement n jobId workerId leaseToken).bind fun _ => ?_
  refine (keeps_mergePages n jobId workerId leaseToken dayBucket p.pageSize fuel).bind fun _ => ?_
  refine (keeps_compressionStatement n jobId workerId leaseToken).bind fun _ => ?_
  refine keeps_unlessLost _ ?_
  refine Keeps.bind (keeps_completeMergeJob n jobId workerId leaseToken dayBucket) fun done => ?_
  cases done with
  | true => exact keeps_releaseGapJobs n workerId leaseToken 100
  | false => exact triple_raise fun _ _ h => h

end

/-! ### Refresh workers -/

section
variable {O : (q : Question) → Answer q → Prop} (n jobId workerId leaseToken : ℕ)

/-- A note of the refresh is committed at once. -/
theorem keeps_noteNow {i : JobParty} {F : List ℕ → List ℕ → Prop} (hF : Frame F) {e : Event}
    (he : (Write.note e).claims = none) {rest : Task Unit}
    (hrest : fencing.Keeps O i (Idle F) rest) :
    fencing.Keeps O i (Idle F) (do
      emit (.note e)
      commitNow
      rest) := by
  have hB := bears_inTx (i := i) hF
  refine Triple.seq (fun _ => InTx i F) (triple_emit fun c d h => ?_) fun _ => ?_
  · refine hB.push c d _ h.inTx ⟨fun ref after hput => ?_, fun hcandles => ?_, he⟩
    · cases hput
    · cases hcandles
  · refine Triple.bind (triple_commit (T := Idle F) fun c d d' h he => ?_) fun _ => hrest
    exact (hB.stable c d d' h he).commit he.2

theorem keeps_refreshOne (cagg : Cagg) (job : CaggRefreshJob) : fencing.Keeps O (.worker .cagg n)
    (Idle (Claimant workerId leaseToken)) (refreshOne cagg job jobId workerId leaseToken) := by
  have hF := frame_claimant workerId leaseToken
  have hconnection : fencing.Keeps O (.worker .cagg n) (Idle (Claimant workerId leaseToken))
      Task.connection := keeps_quiet hF (emits_connection allQuestions) open_connection
  refine keeps_unlessLost _ ((keeps_assertOwned _ _ _ hF).bind fun _ => ?_)
  refine hconnection.bind fun _ => keeps_noteNow hF rfl (hconnection.bind fun _ => ?_)
  refine keeps_unlessLost _ ?_
  have hend : fencing.Keeps O (.worker .cagg n) (Idle (Claimant workerId leaseToken))
      (pure () : Task Unit) := triple_pure fun _ _ h => h
  exact keeps_noteNow hF rfl hend

theorem keeps_completeCaggJob : fencing.Keeps O (.worker .cagg n)
    (Idle (Claimant workerId leaseToken)) (completeCaggJob jobId workerId leaseToken) := by
  have hF := frame_claimant workerId leaseToken
  refine Keeps.bind (triple_query fun _ _ _ h _ => h) fun now => fenced_inTransaction hF ?_
  exact durableCagg.triple_updateOwned hF (carries_claimant _ _ _ _) fun _ _ hc => by cases hc

theorem CaggRefreshJob.failed_claim (error : Failure) (now : ℤ) (job : CaggRefreshJob) :
    (CaggRefreshJob.failed error now job).claim = none := by
  unfold CaggRefreshJob.failed
  dsimp only
  split <;> rfl

end

/-! ### Whole programs -/

section
variable {O : (q : Question) → Answer q → Prop}

/-- A session that has not done anything. -/
def Starting (c : Ctx Write Lock) (_ : Database) : Prop := c.log = [] ∧ c.owned = []

/-- A worker draws its id, claims a job, and then keeps to its claim. -/
theorem Durable.triple_worker {J₀ : Type} {T : JobTable J₀} (hT : Durable T) (n : ℕ)
    (leaseDuration : ℤ) (respectRetrySchedule : Bool)
    {rest : ℕ → Option (ℕ × J₀ × ℕ) → Task Bool}
    (hnone : ∀ workerId, rest workerId none = pure false)
    (hsome : ∀ workerId id job leaseToken, ∃ work, rest workerId (some (id, job, leaseToken)) =
      (work >>= fun _ : Unit => pure true) ∧ fencing.Keeps O (.worker hT.kind n)
        (Idle (Claimant workerId leaseToken)) work) :
    fencing.Triple O (.worker hT.kind n) (fun _ _ => True) Starting
      ((draw : Task ℕ) >>= fun workerId =>
        T.claimNext workerId leaseDuration respectRetrySchedule >>= rest workerId)
      fun _ _ _ => True := by
  refine Triple.seq (fun workerId => Idle (Entering workerId))
    (triple_draw fun c d d' m h he _ hm => ?_) fun workerId => ?_
  · refine ⟨h.1, List.mem_cons_self, fun k hk => ?_⟩
    rw [Ctx.own_owned, h.2, List.mem_singleton] at hk
    exact hk ▸ hm.1
  · refine Triple.bind (hT.triple_claimNext ⟨n, rfl⟩ workerId leaseDuration respectRetrySchedule)
      fun found => ?_
    cases found with
    | none =>
      rw [hnone]
      exact triple_pure fun _ _ _ => trivial
    | some found =>
      obtain ⟨id, job, leaseToken⟩ := found
      obtain ⟨work, hrest, hwork⟩ := hsome workerId id job leaseToken
      have hkeeps : fencing.Triple O (.worker hT.kind n) (fun _ _ => True)
          (Idle (Claimant workerId leaseToken)) work fun _ => Idle (Claimant workerId leaseToken) :=
        Triple.raises hwork fun _ _ _ => trivial
      rw [hrest]
      refine Triple.bind (hkeeps.pre fun c d h => h id job leaseToken rfl) fun _ => ?_
      exact triple_pure fun _ _ _ => trivial

theorem triple_processNextGapJob (n : ℕ) (p : RepairParameters) (fuel : ℕ) :
    fencing.Triple O (.worker .gap n) (fun _ _ => True) Starting (processNextGapJob p fuel)
      fun _ _ _ => True := by
  refine durableGap.triple_worker n p.leaseDuration p.respectRetrySchedule (fun _ => rfl)
    fun workerId id job leaseToken => ⟨_, rfl, keeps_settleAttempt
      (keeps_repairAttempt n p ⟨id, workerId, leaseToken⟩ job fuel) (fun error => ?_) _⟩
  exact durableGap.keeps_recordFailure (frame_claimant _ _) (carries_claimant _ _ _ _)
    fun now job => GapRepairJob.failed_claim error now job

theorem triple_processNextMergeJob (n : ℕ) (p : MergeParameters) (fuel : ℕ) :
    fencing.Triple O (.worker .merge n) (fun _ _ => True) Starting (processNextMergeJob p fuel)
      fun _ _ _ => True := by
  unfold processNextMergeJob
  split
  · exact triple_raise fun _ _ _ => trivial
  · refine durableMerge.triple_worker n p.leaseDuration p.respectRetrySchedule (fun _ => rfl)
      fun workerId id job leaseToken => ⟨_, rfl, keeps_settleAttempt
        (keeps_mergeAttempt n id workerId leaseToken p job.dayBucket fuel) (fun error => ?_) _⟩
    exact durableMerge.keeps_recordFailure (frame_claimant _ _) (carries_claimant _ _ _ _)
      fun now job => HistoricalMergeJob.failed_claim error now job

theorem triple_processPendingCaggJobs (n : ℕ) (leaseDuration : ℤ)
    (respectRetrySchedule raiseOnAttemptError : Bool) :
    fencing.Triple O (.worker .cagg n) (fun _ _ => True) Starting
      (processPendingCaggJobs leaseDuration respectRetrySchedule raiseOnAttemptError)
      fun _ _ _ => True := by
  refine durableCagg.triple_worker n leaseDuration respectRetrySchedule (fun _ => rfl)
    fun workerId id job leaseToken => ⟨_, rfl, keeps_settleAttempt ?_ (fun error => ?_) _⟩
  · refine Keeps.bind (Keeps.forEach (fun cagg =>
      keeps_refreshOne n id workerId leaseToken cagg job) _) fun _ => ?_
    exact keeps_unlessLost _ (keeps_orLost _ (keeps_completeCaggJob n id workerId leaseToken))
  · exact durableCagg.keeps_recordFailure (frame_claimant _ _) (carries_claimant _ _ _ _)
      fun now job => CaggRefreshJob.failed_claim error now job

/-! ### The other sessions -/

section
variable (n : ℕ)

theorem bears_other : Bears (.other n) Anything (InTx (.other n) Anything) :=
  bears_inTx frame_anything

theorem keeps_transaction_other {α : Type} {body : Task α} (hbody : fencing.Triple O (.other n)
    (Facts Anything) (InTx (.other n) Anything) body fun _ => InTx (.other n) Anything) :
    fencing.Keeps O (.other n) (Idle Anything) (Task.inTransaction body) :=
  fenced_inTransaction frame_anything (hbody.pre fun _ _ h => h.inTx)

theorem keeps_insertGapJob (assetId : ℕ) (symbol : String) (startTime endTime : ℤ)
    (maxRetries : ℕ) : fencing.Triple O (.other n) (Facts Anything) (InTx (.other n) Anything)
      (insertGapJob assetId symbol startTime endTime maxRetries)
      fun _ => InTx (.other n) Anything := by
  have hB := bears_other n
  refine Triple.bind hB.draw fun id => Triple.bind (hB.new id).now fun createdAt => ?_
  refine Triple.bind (hB.new id).view fun d => ?_
  split
  · split
    · exact Triple.bind (hB.insert rfl rfl rfl) fun _ => triple_pure fun _ _ h => h
    · exact (hB.new id).raise _
  · exact (hB.new id).raise _

theorem keeps_scheduleRepairJobs (settings : GapRepairSettings) (assetId : ℕ)
    (startTime endTime : ℤ) (maxRetries : ℕ) : fencing.Keeps O (.other n) (Idle Anything)
      (scheduleRepairJobs settings assetId startTime endTime maxRetries) := by
  have hB := bears_other n
  unfold scheduleRepairJobs
  split
  · exact triple_pure fun _ _ h => h
  · refine keeps_transaction_other n ?_
    refine Triple.bind (hB.quiet (emits_lockRows _ _ _ _) (open_lockRows _ _ _ _)) fun assets => ?_
    split
    · exact triple_pure fun _ _ h => h
    · refine Triple.bind hB.view fun d => ?_
      refine Triple.bind (hB.quiet (emits_lockRows _ _ _ _) (open_lockRows _ _ _ _))
        fun active => ?_
      dsimp only
      split
      · exact triple_pure fun _ _ h => h
      · refine Triple.bind (triple_collect (I := fun _ => InTx (.other n) Anything)
          (fun _ w => ?_) [] _) fun created => triple_pure fun _ _ h => h
        exact Triple.bind (keeps_insertGapJob n _ _ _ _ _) fun _ => triple_pure fun _ _ h => h

theorem keeps_scanAssets (settings : GapRepairSettings) (maxJobs : ℕ) (startTime now : ℤ)
    (assets : List (ℕ × AssetRegistry)) (scheduled : ℕ) :
    fencing.Keeps O (.other n) (Idle Anything)
      (scanAssets settings maxJobs startTime now assets scheduled) := by
  have hgaps (assetId : ℕ) (gaps : List (ℤ × ℤ)) (scheduled : ℕ) :
      fencing.Keeps O (.other n) (Idle Anything)
        (scheduleGaps settings maxJobs assetId gaps scheduled) := by
    induction gaps generalizing scheduled with
    | nil => exact triple_pure fun _ _ h => h
    | cons gap gaps ih =>
      unfold scheduleGaps
      split
      · exact triple_pure fun _ _ h => h
      · exact (keeps_scheduleRepairJobs n _ _ _ _ _).bind fun jobs => ih _
  induction assets generalizing scheduled with
  | nil => exact triple_pure fun _ _ h => h
  | cons asset assets ih =>
    unfold scanAssets
    split
    · exact triple_pure fun _ _ h => h
    · refine (keeps_detectGaps frame_anything _ _ _ _).bind fun gaps => ?_
      exact (hgaps _ _ _).bind fun scheduled => ih scheduled

theorem keeps_scan (settings : GapRepairSettings) (bounds : ScanBounds) (lookbackWindow : ℤ) :
    fencing.Keeps O (.other n) (Idle Anything)
      (scanAndScheduleActiveAssets settings bounds lookbackWindow) := by
  have hpages (startTime now : ℤ) (fuel lastAssetId inspected scheduled : ℕ) :
      fencing.Keeps O (.other n) (Idle Anything)
        (scanPages settings bounds startTime now fuel lastAssetId inspected scheduled) := by
    induction fuel generalizing lastAssetId inspected scheduled with
    | zero => exact triple_stuck
    | succ fuel ih =>
      unfold scanPages
      split
      · refine Keeps.bind (keeps_quiet frame_anything (emits_connection allQuestions)
          open_connection) fun _ => Keeps.bind (triple_viewIdle frame_anything) fun d => ?_
        dsimp only
        split
        · exact triple_pure fun _ _ h => h
        · exact (keeps_scanAssets n _ _ _ _ _ _).bind fun scheduled => ih _ _ _
      · exact triple_pure fun _ _ h => h
  unfold scanAndScheduleActiveAssets
  split
  · exact triple_raise fun _ _ h => h
  · exact Keeps.bind (triple_query fun _ _ _ h _ => h) fun now => hpages _ _ _ _ _ _

/-- A closed merge job is opened again; what the session itself put is pending. -/
theorem keeps_upsertMergeDay (dayBucket : ℤ) : fencing.Triple O (.other n) (Facts Anything)
    (InTx (.other n) Anything) (upsertMergeDay dayBucket) fun _ => InTx (.other n) Anything := by
  have hB := bears_other n
  refine Triple.bind hB.draw fun id => Triple.bind (hB.new id).now fun createdAt => ?_
  refine Triple.bind ((hB.new id).acquire _) fun _ => Triple.bind (hB.new id).view fun d => ?_
  split
  · exact hB.insert rfl rfl rfl
  · rename_i e _
    refine Triple.seq (fun _ c d => InTx (.other n) Anything c d ∧ Lock.mergeJob e.1 ∈ c.held)
      (triple_acquire fun c d d' h he => ⟨hB.hold _ _ _ (hB.stable _ _ _ h.1 he),
        List.mem_cons_self⟩) fun _ => ?_
    refine Triple.seq (fun s c d => (InTx (.other n) Anything c d ∧ Lock.mergeJob e.1 ∈ c.held) ∧
      s = c.view d) (triple_view fun c d d' h he => ⟨⟨hB.stable _ _ _ h.1 he, h.2⟩, rfl⟩)
      fun s => ?_
    split
    · exact triple_pure fun _ _ h => h.1.1
    · rename_i job hjob
      split
      · rename_i hclosed
        refine triple_emit fun c d h => hB.push c d _ h.1.1
          ⟨fun ref after hput => ?_, (fun hcandles => by cases hcandles), rfl⟩
        cases hput
        obtain ⟨⟨hin, hlock⟩, rfl⟩ := h
        have hview : (c.view d).job ⟨.merge, e.1⟩ = some (.merge job) :=
          congrArg (Option.map JobRow.merge) hjob
        have hopen : (JobRow.merge job).pending = false ∧
            (JobRow.merge job).processing = false := by
          rcases hclosed with hstatus | hstatus <;>
            simp [JobRow.pending, JobRow.processing, mergeJobs, hstatus]
        rcases view_job hin.2 ⟨.merge, e.1⟩ with hsame | ⟨after, hafter, htransition⟩
        · rw [hview] at hsame
          exact .reopened hlock hsame.symm hopen.2 hopen.1 rfl (fun _ hc => by cases hc) rfl
        · rw [hview] at hafter
          cases hafter
          have hpending : (JobRow.merge job).pending = true := by
            cases htransition with
            | inserted _ _ hpending _ => exact hpending
            | fenced _ _ _ _ hacts _ => exact hacts.elim
            | reopened _ _ _ _ hpending _ _ => exact hpending
          rw [hopen.1] at hpending
          cases hpending
      · exact triple_pure fun _ _ h => h.1.1

theorem keeps_scheduleStagedDays (maxDays : ℕ) :
    fencing.Keeps O (.other n) (Idle Anything) (scheduleStagedDays maxDays) := by
  unfold scheduleStagedDays
  split
  · exact triple_raise fun _ _ h => h
  · refine keeps_transaction_other n ?_
    refine Triple.bind (bears_other n).view fun d => ?_
    exact Triple.forEach fun dayBucket _ => keeps_upsertMergeDay n dayBucket

theorem keeps_ingest {body : Task Unit} (hcandles : body.Emits O (fun w => w.candles = true)
    fun _ => True) (hopen : body.Open) :
    fencing.Keeps O (.other n) (Idle Anything) (Task.inTransaction body) :=
  keeps_transaction_other n ((bears_other n).candles (fun _ _ _ => trivial) hcandles hopen)

theorem keeps_repairGapInline (settings : GapRepairSettings) (assetId : ℕ) (symbol : String)
    (startTime endTime : ℤ) (batchSize fuel : ℕ) : fencing.Keeps O (.other n) (Idle Anything)
      (repairGapInline settings assetId symbol startTime endTime batchSize fuel) := by
  have hpersist : ∀ batch, fencing.Keeps O (.other n) (Idle Anything)
      (persist assetId none batch) := by
    intro batch
    unfold persist commitBatch
    split
    · exact triple_pure fun _ _ h => h
    · refine keeps_ingest n ?_ (open_commitBatchInTransaction _ _)
      exact (emits_commitBatchInTransaction allQuestions _ _).mono fun _ => BatchWrite.isCandles
  refine (keeps_detectGaps frame_anything _ _ _ _).bind fun gaps => Keeps.forEach (fun gap => ?_) _
  refine (keeps_executeReconciliation frame_anything _ _ _ _ _ _ hpersist).bind fun _ => ?_
  exact keeps_transaction_other n ((bears_other n).scheduleCaggRefreshJob _ _ _ _)

end

end

/-! ### The system -/

inductive DurableProgram : JobParty → Task Unit → Prop
  | processNextGapJob (n : ℕ) (p : RepairParameters) (fuel : ℕ) :
      DurableProgram (.worker .gap n) do
        let _ ← processNextGapJob p fuel
        pure ()
  | processNextMergeJob (n : ℕ) (p : MergeParameters) (fuel : ℕ) :
      DurableProgram (.worker .merge n) do
        let _ ← processNextMergeJob p fuel
        pure ()
  | processPendingCaggJobs (n : ℕ) (leaseDuration : ℤ)
      (respectRetrySchedule raiseOnAttemptError : Bool) : DurableProgram (.worker .cagg n) do
        let _ ← processPendingCaggJobs leaseDuration respectRetrySchedule raiseOnAttemptError
        pure ()
  | gapHeartbeat (n jobId workerId leaseToken : ℕ) (leaseDuration : ℤ) (renewals : ℕ) :
      DurableProgram (.heartbeat n ⟨.gap, jobId⟩ workerId leaseToken)
        (gapRepairJobs.heartbeatLoop jobId workerId leaseToken leaseDuration renewals)
  | mergeHeartbeat (n jobId workerId leaseToken : ℕ) (leaseDuration : ℤ) (renewals : ℕ) :
      DurableProgram (.heartbeat n ⟨.merge, jobId⟩ workerId leaseToken)
        (mergeJobs.heartbeatLoop jobId workerId leaseToken leaseDuration renewals)
  | caggHeartbeat (n jobId workerId leaseToken : ℕ) (leaseDuration : ℤ) (renewals : ℕ) :
      DurableProgram (.heartbeat n ⟨.cagg, jobId⟩ workerId leaseToken)
        (caggRefreshJobs.heartbeatLoop jobId workerId leaseToken leaseDuration renewals)
  | scan (n : ℕ) (settings : GapRepairSettings) (bounds : ScanBounds) (lookbackWindow : ℤ) :
      DurableProgram (.other n) (scanAndScheduleActiveAssets settings bounds lookbackWindow)
  | scheduleStagedDays (n maxDays : ℕ) : DurableProgram (.other n) (scheduleStagedDays maxDays)
  | repairGapInline (n : ℕ) (settings : GapRepairSettings) (assetId : ℕ) (symbol : String)
      (startTime endTime : ℤ) (batchSize fuel : ℕ) : DurableProgram (.other n)
        (repairGapInline settings assetId symbol startTime endTime batchSize fuel)
  | ingest (n : ℕ) (body : Task Unit)
      (hcandles : body.Emits (fun _ _ => True) (fun w => w.candles = true) fun _ => True)
      (hopen : body.Open) : DurableProgram (.other n) (Task.inTransaction body)

/-- Any exceptions, clock readings and answers, from any candles and before any job. -/
def durableJobs : System JobParty Database Write Lock Answer Failure where
  oracle _ _ := True
  programs := DurableProgram
  init d := (∀ ref, d.job ref = none) ∧ d.claimed = []

theorem fencing_sound : Sound durableJobs fencing := by
  intro i p d hp hd
  have hrest {α : Type} {q : Task α} {j : JobParty}
      (hq : fencing.Triple durableJobs.oracle j (fun _ _ => True) Starting q fun _ _ _ => True) :
      fencing.wp durableJobs.oracle j (do
        let _ ← q
        pure ()) Rest {} d :=
    wp_bind (wp_mono (hq {} d ⟨rfl, rfl⟩) fun r _ _ _ => by cases r <;> trivial)
  have hkeeps {q : Task Unit} {j : JobParty}
      (hq : fencing.Keeps durableJobs.oracle j (Idle Anything) q) :
      fencing.wp durableJobs.oracle j q Rest {} d := hq.rest ⟨rfl, trivial⟩
  have hcarries {n id workerId leaseToken : ℕ} {kind : JobKind} :
      Carries (.heartbeat n ⟨kind, id⟩ workerId leaseToken) Anything ⟨kind, id⟩ workerId
        leaseToken := fun _ _ _ _ hworker htoken => ⟨rfl, hworker, htoken⟩
  cases hp with
  | processNextGapJob n p fuel => exact hrest (triple_processNextGapJob n p fuel)
  | processNextMergeJob n p fuel => exact hrest (triple_processNextMergeJob n p fuel)
  | processPendingCaggJobs n leaseDuration respect raise' =>
    exact hrest (triple_processPendingCaggJobs n leaseDuration respect raise')
  | gapHeartbeat n jobId workerId leaseToken leaseDuration renewals =>
    exact hkeeps (durableGap.keeps_heartbeatLoop frame_anything hcarries _ _)
  | mergeHeartbeat n jobId workerId leaseToken leaseDuration renewals =>
    exact hkeeps (durableMerge.keeps_heartbeatLoop frame_anything hcarries _ _)
  | caggHeartbeat n jobId workerId leaseToken leaseDuration renewals =>
    exact hkeeps (durableCagg.keeps_heartbeatLoop frame_anything hcarries _ _)
  | scan n settings bounds lookbackWindow => exact hkeeps (keeps_scan n _ _ _)
  | scheduleStagedDays n maxDays => exact hkeeps (keeps_scheduleStagedDays n maxDays)
  | repairGapInline n settings assetId symbol startTime endTime batchSize fuel =>
    exact hkeeps (keeps_repairGapInline n _ _ _ _ _ _ _)
  | ingest n body hcandles hopen => exact hkeeps (keeps_ingest n hcandles hopen)

theorem durableJobs_ok : durableJobs.Invariant (Ok durableJobs fencing) := by
  refine sound fencing_sound fun d hd => ⟨⟨?_, ?_⟩, fun n => ⟨?_, fun kind => hd.1 _⟩⟩
  · intro ref row c hrow
    rw [hd.1] at hrow
    cases hrow
  · intro ref ref' row row' c c' hrow
    rw [hd.1] at hrow
    cases hrow
  · rw [hd.2]
    exact List.not_mem_nil

/-! ### What a step and a run may do -/

abbrev DurableWorld := World JobParty Database Write Lock Answer Failure

/-- A step is a commit of its session, or leaves the database alone. -/
theorem durable_step {w w' : DurableWorld} (hw : durableJobs.Reachable w) {l : Label JobParty}
    (hs : durableJobs.Step w l w') : w'.db = w.db ∨ ∃ i, l = .run i ∧
      Commits i (w.sessions i).ctx.held (w.sessions i).ctx.owned w.db w'.db := by
  rcases hs.db_cases with hdb | ⟨i, k, hl, hk, hdb⟩
  · exact Or.inl hdb
  · have hcommit := (durableJobs_ok w hw).commit hk
    rw [← hdb] at hcommit
    exact Or.inr ⟨i, hl, hcommit⟩

/-- What a run keeps when every commit keeps it. -/
theorem durable_run {K : Database → Prop}
    (hK : ∀ i held owned d d', Commits i held owned d d' → K d → K d') {w w' : DurableWorld}
    (hw : durableJobs.Reachable w) (hrun : durableJobs.Leads w w') (h : K w.db) : K w'.db := by
  induction hrun with
  | refl => exact h
  | tail hbefore hs ih =>
    obtain ⟨l, hs⟩ := hs
    rcases durable_step (hw.leads hbefore) hs with hdb | ⟨i, _, hcommit⟩
    · rw [hdb]
      exact ih
    · exact hK _ _ _ _ _ hcommit ih

/-- The session works under the claim of a row: it drew the token, or it is a heartbeat for it. -/
def JobParty.WorksUnder (ref : JobRef) (c : Claim) (owned : List ℕ) : JobParty → Prop
  | worker kind _ => kind = ref.kind ∧ c.leaseToken ∈ owned
  | heartbeat _ r _ leaseToken => r = ref ∧ leaseToken = c.leaseToken
  | other _ => False

section
variable {i : JobParty} {held : List Lock} {owned : List ℕ} {d d' : Database} {ref : JobRef}
  {c : Claim} (hunder : i.WorksUnder ref c owned) (htoken : c.leaseToken ∈ d.claimed)
  (hdropped : ∀ r, Dropped c.leaseToken r d)
include hunder htoken hdropped

/-- A session whose token was dropped owns no row. -/
theorem not_owns (other : JobRef) : ¬ Owns i held owned d other := by
  rintro ⟨_, row, c', hrow, _, hclaim, hacts⟩
  refine hdropped other row c' hrow hclaim ?_
  cases i with
  | worker kind n => exact (hacts.2.2.2 _ hunder.2 htoken).symm
  | heartbeat n r workerId leaseToken => exact hacts.2.2.trans hunder.2
  | other n => exact hunder.elim

theorem Commits.unchanged (h : Commits i held owned d d') (hpresent : d.job ref ≠ none) :
    d'.job ref = d.job ref ∧ d'.candleData = d.candleData := by
  have hnot : ∀ other, ¬ Owns i held owned d other := not_owns hunder htoken hdropped
  rcases h with hchange | ⟨at', c', hclaiming⟩
  · constructor
    · rcases hchange.jobs ref with hsame | ⟨after, _, htransition⟩
      · exact hsame
      · cases htransition with
        | inserted _ hnone => exact (hpresent hnone).elim
        | fenced hlock hrow hprocessing hclaim hacts _ =>
          exact (hnot ref ⟨hlock, _, _, hrow, hprocessing, hclaim, hacts⟩).elim
        | reopened _ _ _ _ _ _ hparty =>
          cases i with
          | worker kind n =>
            rw [hunder.1, hparty.2] at hparty
            exact absurd hparty.1 (by decide)
          | heartbeat n r workerId leaseToken => exact hparty.elim
          | other n => exact hunder.elim
    · rcases hchange.candles with hsame | hmay
      · exact hsame
      · cases i with
        | worker kind n =>
          obtain ⟨other, howns⟩ := hmay
          exact (hnot other howns).elim
        | heartbeat n r workerId leaseToken =>
          obtain ⟨other, howns⟩ := hmay
          exact (hnot other howns).elim
        | other n => exact hunder.elim
  · obtain ⟨n, rfl⟩ := hclaiming.party
    exact (hclaiming.first _ hunder.2 htoken).elim

end

/-- A row that is there is changed only by a session that locked it while it was PROCESSING under the
session's own claim, by the claim of a worker, or by being opened again when it is neither pending
nor processing; the candles are changed by a worker only while it owns such a row; and a session
whose token was dropped from its row changes neither the row nor a candle any more. -/
theorem durable_job_fencing : durableJobs.Invariant fun w =>
    (∀ l w', durableJobs.Step w l w' → ∀ ref before, w.db.job ref = some before →
      w'.db.job ref ≠ some before → ∃ i, l = .run i ∧
        (Owns i (w.sessions i).ctx.held (w.sessions i).ctx.owned w.db ref ∨
          (∃ c, Claiming i (w.sessions i).ctx.held (w.sessions i).ctx.owned w.db w'.db ref c) ∨
          (before.processing = false ∧ before.pending = false ∧
            ∃ after, w'.db.job ref = some after ∧ after.pending = true))) ∧
    (∀ l w', durableJobs.Step w l w' → w'.db.candleData ≠ w.db.candleData → ∃ i, l = .run i ∧
      ((∃ n, i = .other n) ∨
        ∃ ref, Owns i (w.sessions i).ctx.held (w.sessions i).ctx.owned w.db ref)) ∧
    ∀ ref row c, w.db.job ref = some row → row.claim = some c → ∀ w₁, durableJobs.Leads w w₁ →
      Dropped c.leaseToken ref w₁.db → ∀ w₂, durableJobs.Leads w₁ w₂ →
      ∀ i, i.WorksUnder ref c (w₂.sessions i).ctx.owned → ∀ w₃, durableJobs.Step w₂ (.run i) w₃ →
        w₃.db.job ref = w₂.db.job ref ∧ w₃.db.candleData = w₂.db.candleData := by
  intro w hw
  refine ⟨fun l w' hs ref before hbefore hchanged => ?_, fun l w' hs hchanged => ?_,
    fun ref row c hrow hclaim w₁ hrun hdropped w₂ hrun' i hunder w₃ hs => ?_⟩
  · rcases durable_step hw hs with hdb | ⟨i, hl, hchange | ⟨at', c, hclaiming⟩⟩
    · exact (hchanged (by rw [hdb]; exact hbefore)).elim
    · refine ⟨i, hl, ?_⟩
      rcases hchange.jobs ref with hsame | ⟨after, hafter, htransition⟩
      · exact (hchanged (hsame.trans hbefore)).elim
      · cases htransition with
        | inserted _ hnone =>
          rw [hnone] at hbefore
          cases hbefore
        | fenced hlock hrow hprocessing hclaim hacts _ =>
          exact Or.inl ⟨hlock, _, _, hrow, hprocessing, hclaim, hacts⟩
        | reopened _ hrow hprocessing hpending hafter' _ _ =>
          rw [hbefore] at hrow
          cases hrow
          exact Or.inr (Or.inr ⟨hprocessing, hpending, after, hafter, hafter'⟩)
    · by_cases hat : ref = at'
      · subst hat
        exact ⟨i, hl, Or.inr (Or.inl ⟨c, hclaiming⟩)⟩
      · exact (hchanged ((hclaiming.elsewhere ref hat).trans hbefore)).elim
  · rcases durable_step hw hs with hdb | ⟨i, hl, hchange | ⟨at', c, hclaiming⟩⟩
    · exact (hchanged (by rw [hdb])).elim
    · refine ⟨i, hl, ?_⟩
      have hmay := hchange.candles.resolve_left hchanged
      cases i with
      | other n => exact Or.inl ⟨n, rfl⟩
      | worker kind n => exact Or.inr hmay
      | heartbeat n r workerId leaseToken => exact Or.inr hmay
    · exact (hchanged hclaiming.candles).elim
  · have hinv := (durableJobs_ok w hw).inv
    have hknown : c.leaseToken ∈ w.db.claimed := hinv.known ref row c hrow hclaim
    have hclaimed : ∀ {v v' : DurableWorld}, durableJobs.Reachable v → durableJobs.Leads v v' →
        c.leaseToken ∈ v.db.claimed → c.leaseToken ∈ v'.db.claimed := fun hv hvv h =>
      durable_run (fun _ _ _ _ _ hcommit => hcommit.claimed) hv hvv h
    -- the token was on this row alone, and once dropped it is on no row
    have hkeep : ∀ r {v v' : DurableWorld}, durableJobs.Reachable v → durableJobs.Leads v v' →
        c.leaseToken ∈ v.db.claimed → Dropped c.leaseToken r v.db → Dropped c.leaseToken r v'.db := by
      intro r v v' hv hvv hin hd
      refine (durable_run (K := fun d => c.leaseToken ∈ d.claimed ∧ Dropped c.leaseToken r d)
        (fun _ _ _ _ _ hcommit h => ⟨hcommit.claimed h.1, hcommit.dropped h.1 h.2⟩) hv hvv
        ⟨hin, hd⟩).2
    have hw₁ := hw.leads hrun
    have hall : ∀ r, Dropped c.leaseToken r w₁.db := by
      intro r
      by_cases hr : r = ref
      · exact hr ▸ hdropped
      · refine hkeep r hw hrun hknown fun row' c' hrow' hclaim' heq => hr ?_
        exact hinv.unique r ref row' row c' c hrow' hclaim' hrow hclaim heq
    have hknown₁ := hclaimed hw hrun hknown
    have hall₂ : ∀ r, Dropped c.leaseToken r w₂.db := fun r => hkeep r hw₁ hrun' hknown₁ (hall r)
    have hpresent : w₂.db.job ref ≠ none := by
      have hstart : w.db.job ref ≠ none := by
        rw [hrow]
        exact Option.some_ne_none _
      have hmid := durable_run (K := fun d => d.job ref ≠ none)
        (fun _ _ _ _ _ hcommit h => hcommit.present h) hw hrun hstart
      exact durable_run (K := fun d => d.job ref ≠ none)
        (fun _ _ _ _ _ hcommit h => hcommit.present h) hw₁ hrun' hmid
    rcases durable_step (hw₁.leads hrun') hs with hdb | ⟨j, hl, hcommit⟩
    · rw [hdb]
      exact ⟨rfl, rfl⟩
    · cases hl
      exact hcommit.unchanged hunder (hclaimed hw₁ hrun' hknown₁) hall₂ hpresent

end Quantive.Candles
