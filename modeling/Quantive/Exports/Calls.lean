import Quantive.Exports.Jobs

/-!
# One rule for each call

The calls of `ExportJobService` under any protocol that respects row locks: what a call
locks and writes is worked out here once, and a protocol only has to say that the commit of
such a write is within its guarantee. A frame is what a session knows of its names and of the
committed database between two transactions.
-/

namespace Quantive.Exports
open Quantive.ReadCommitted Prog Protocol

variable {ι : Type} {P : Protocol ι Database Lock} {O : (q : Question) → Answer q → Prop} {i : ι}
  {J : Ctx Write Lock → Database → Prop} {F G : List ℕ → Database → Prop}

/-- The others leave a locked row and the unused names of a session alone, and the clock never
goes back. -/
structure RowLocks (P : Protocol ι Database Lock) : Prop where
  row : ∀ i held owned d d', P.Rely i held owned d d' → ∀ id, Lock.job id ∈ held → ∀ job,
    d.job id = some job → d'.job id = some job
  clock : ∀ i held owned d d', P.Rely i held owned d d' → d.clock ≤ d'.clock
  name : ∀ i held owned d d', P.Rely i held owned d d' → ∀ n ∈ owned, P.Unused n d → P.Unused n d'

structure Frame (P : Protocol ι Database Lock) (i : ι) (F : List ℕ → Database → Prop) : Prop where
  stable : ∀ (c : Ctx Write Lock) d d', F c.owned d → P.Env i c d d' → F c.owned d'
  own : ∀ owned d n, F owned d → n ∉ owned → P.Unused n d → F (n :: owned) d

/-- A session between two transactions. -/
def Idle (F : List ℕ → Database → Prop) (c : Ctx Write Lock) (d : Database) : Prop :=
  c.log = [] ∧ F c.owned d

/-- The clock was read at `now`. -/
def Since (F : List ℕ → Database → Prop) (now : ℤ) (owned : List ℕ) (d : Database) : Prop :=
  F owned d ∧ now ≤ d.clock

/-- The name `n` was drawn and is not used yet. -/
def Drawn (P : Protocol ι Database Lock) (F : List ℕ → Database → Prop) (n : ℕ)
    (owned : List ℕ) (d : Database) : Prop :=
  F owned d ∧ n ∈ owned ∧ P.Unused n d

/-- A session inside a transaction: it locked the row of a job and wrote `writes`. -/
structure Locked (F : List ℕ → Database → Prop) (id : ℕ) (job : ExportJob) (writes : List Write)
    (c : Ctx Write Lock) (d : Database) : Prop where
  log : c.log = writes
  frame : F c.owned d
  held : Lock.job id ∈ c.held
  row : d.job id = some job

theorem view_idle {c : Ctx Write Lock} {d : Database} (h : Idle F c d) : c.view d = d := by
  simp only [Ctx.view, h.1, List.foldl_nil]

theorem Idle.lockable (hF : Frame P i F) : Lockable P i (Idle F) where
  stable c d d' h he := ⟨h.1, hF.stable c d d' h.2 he⟩
  hold _ _ _ h := h

theorem Locked.stable (hP : RowLocks P) (hF : Frame P i F) {id : ℕ} {job : ExportJob}
    {writes : List Write} {c : Ctx Write Lock} {d d' : Database} (h : Locked F id job writes c d)
    (he : P.Env i c d d') : Locked F id job writes c d' where
  log := h.log
  frame := hF.stable c d d' h.frame he
  held := h.held
  row := hP.row _ _ _ _ _ he.1 id h.held job h.row

theorem Locked.push {id : ℕ} {job : ExportJob} {writes : List Write} {c : Ctx Write Lock}
    {d : Database} (h : Locked F id job writes c d) (w : Write) :
    Locked F id job (writes ++ [w]) (c.push w) d where
  log := by rw [Ctx.push_log, h.log]
  frame := h.frame
  held := h.held
  row := h.row

theorem Locked.view {id : ℕ} {job : ExportJob} {writes : List Write} {c : Ctx Write Lock}
    {d : Database} (h : Locked F id job writes c d) :
    c.view d = writes.foldl (fun d w => Store.apply w d) d := by
  simp only [Ctx.view, h.log]

/-- A token that was never given to a claim, or an id that no job has. -/
def Database.Fresh (d : Database) (n : ℕ) : Prop :=
  d.job n = none ∧ ∀ id, .claimed id n ∉ d.history

/-- What every session may rely on. -/
structure Undisturbed (held : List Lock) (owned : List ℕ) (d d' : Database) : Prop where
  clock : d.clock ≤ d'.clock
  row : ∀ id, Lock.job id ∈ held → ∀ job, d.job id = some job → d'.job id = some job
  name : ∀ n ∈ owned, d.Fresh n → d'.Fresh n

theorem Undisturbed.refl (held : List Lock) (owned : List ℕ) (d : Database) :
    Undisturbed held owned d d := ⟨le_refl _, fun _ _ _ h => h, fun _ _ h => h⟩

theorem Undisturbed.trans {held : List Lock} {owned : List ℕ} {d d' d'' : Database}
    (h : Undisturbed held owned d d') (h' : Undisturbed held owned d' d'') :
    Undisturbed held owned d d'' where
  clock := h.clock.trans h'.clock
  row id hid job hjob := h'.row id hid job (h.row id hid job hjob)
  name n hn hf := h'.name n hn (h.name n hn hf)

/-- A commit that changes one locked row and records claims with its own tokens only. -/
structure RowChange (c : Ctx Write Lock) (d d' : Database) (id : ℕ) (job job' : ExportJob) :
    Prop where
  held : Lock.job id ∈ c.held
  row : d.job id = some job
  new : d'.job id = some job'
  others : ∀ other, other ≠ id → d'.job other = d.job other
  clock : d'.clock = d.clock
  objects : d'.objects = d.objects
  kept : ∀ e ∈ d.history, e ∈ d'.history
  recorded : ∀ other token, .claimed other token ∈ d'.history →
    .claimed other token ∈ d.history ∨ token ∈ c.owned

theorem RowChange.fresh {c : Ctx Write Lock} {d d' : Database} {id : ℕ} {job job' : ExportJob}
    (h : RowChange c d d' id job job') {n : ℕ} (hn : n ∉ c.owned) (hf : d.Fresh n) :
    d'.Fresh n := by
  constructor
  · have hne : n ≠ id := by
      rintro rfl
      have hrow := h.row
      rw [hf.1] at hrow
      cases hrow
    rw [h.others n hne]
    exact hf.1
  · intro other hm
    rcases h.recorded other n hm with hold | howned
    · exact hf.2 other hold
    · exact hn howned

theorem RowChange.undisturbed {c : Ctx Write Lock} {d d' : Database} {id : ℕ}
    {job job' : ExportJob} (h : RowChange c d d' id job job') {held : List Lock} {owned : List ℕ}
    (hheld : ∀ l ∈ held, l ∉ c.held) (howned : ∀ n ∈ owned, n ∉ c.owned) :
    Undisturbed held owned d d' := by
  refine ⟨le_of_eq h.clock.symm, fun other hl row hother => ?_, fun n hn => h.fresh (howned n hn)⟩
  have hid : other ≠ id := by
    rintro rfl
    exact hheld _ hl h.held
  rw [h.others other hid]
  exact hother

/-! An insertion under an id that the session drew. -/

theorem Database.job_insert {d : Database} {id other : ℕ} {job row : ExportJob}
    (hfree : d.job id = none) (hrow : d.job other = some row) :
    (d.putJob id job).job other = some row := by
  have hid : other ≠ id := by
    rintro rfl
    rw [hfree] at hrow
    cases hrow
  rw [Database.job_putJob_ne _ _ hid]
  exact hrow

theorem Database.Fresh.insert {d : Database} {id n : ℕ} {job : ExportJob} (hid : n ≠ id)
    (hf : d.Fresh n) : (d.putJob id job).Fresh n :=
  ⟨by rw [Database.job_putJob_ne _ _ hid]; exact hf.1, hf.2⟩

theorem Undisturbed.insert {d : Database} {id : ℕ} {job : ExportJob} {held : List Lock}
    {owned : List ℕ} (hfree : d.job id = none) (hid : id ∉ owned) :
    Undisturbed held owned d (d.putJob id job) where
  clock := le_refl _
  row _ _ _ hrow := Database.job_insert hfree hrow
  name _ hn hf := hf.insert fun he => hid (he ▸ hn)

theorem Locked.change_put {id : ℕ} {job job' : ExportJob} {c : Ctx Write Lock} {d : Database}
    (h : Locked F id job [.putJob id job'] c d) : RowChange c d (c.view d) id job job' := by
  have hview : c.view d = d.putJob id job' := h.view
  rw [hview]
  exact ⟨h.held, h.row, Database.job_putJob _ _ _, fun other hid => Database.job_putJob_ne _ _ hid,
    rfl, rfl, fun e he => he, fun other token hm => Or.inl hm⟩

theorem Locked.change_note_put {id : ℕ} {e : Event} {job job' : ExportJob} {c : Ctx Write Lock}
    {d : Database} (h : Locked F id job [.note e, .putJob id job'] c d)
    (hown : ∀ other token, e = .claimed other token → token ∈ c.owned) :
    RowChange c d (c.view d) id job job' := by
  have hview : c.view d = (d.record e).putJob id job' := h.view
  rw [hview]
  refine ⟨h.held, h.row, Database.job_putJob _ _ _, fun other hid => Database.job_putJob_ne _ _ hid,
    rfl, rfl, fun e he => List.mem_append_left _ he, fun other token hm => ?_⟩
  rcases List.mem_append.mp hm with hold | hnew
  · exact Or.inl hold
  · exact Or.inr (hown other token (List.mem_singleton.mp hnew).symm)

theorem Locked.noted {id : ℕ} {e : Event} {job job' : ExportJob} {c : Ctx Write Lock}
    {d : Database} (h : Locked F id job [.note e, .putJob id job'] c d) :
    e ∈ (c.view d).history := by
  have hview : c.view d = (d.record e).putJob id job' := h.view
  rw [hview]
  exact List.mem_append_right _ (List.mem_singleton.mpr rfl)

theorem Frame.since (hP : RowLocks P) (hF : Frame P i F) (now : ℤ) : Frame P i (Since F now) where
  stable c d d' h he := ⟨hF.stable c d d' h.1 he, h.2.trans (hP.clock _ _ _ _ _ he.1)⟩
  own owned d n h hn hu := ⟨hF.own owned d n h.1 hn hu, h.2⟩

theorem Frame.drawn (hP : RowLocks P) (hF : Frame P i F) (n : ℕ) : Frame P i (Drawn P F n) where
  stable c d d' h he := ⟨hF.stable c d d' h.1 he, h.2.1, hP.name _ _ _ _ _ he.1 n h.2.1 h.2.2⟩
  own owned d m h hm hu := ⟨hF.own owned d m h.1 hm hu, List.mem_cons_of_mem _ h.2.1, h.2.2⟩

theorem select_eq_some {d : Database} {condition : ExportJob → Bool} {id : ℕ} {job : ExportJob} :
    d.select condition id = some job ↔ d.job id = some job ∧ condition job = true :=
  Option.filter_eq_some_iff

/-! ### Statements -/

theorem triple_now (hF : Frame P i F) :
    P.Triple O i J (Idle F) Task.now fun now => Idle (Since F now) := by
  refine (triple_look (Idle.lockable hF).stable).bind fun s => triple_pure fun c d h => ?_
  refine ⟨h.1.1, h.1.2, ?_⟩
  rw [h.2, view_idle h.1]

theorem triple_orRaise {Pre : Ctx Write Lock → Database → Prop} (failure : Option Failure)
    (h : ∀ c d, failure.isSome → Pre c d → J c d) :
    P.Triple O i J Pre (Task.orRaise failure) fun _ => Pre := by
  cases failure with
  | none => exact triple_pure fun _ _ h => h
  | some e => exact triple_raise fun c d => h c d rfl

theorem triple_selectNext (hF : Frame P i F) (condition : ExportJob → Bool) (only : Option ℕ) :
    P.Triple O i J (Idle F) (ExportJobService.selectNext condition only) fun found c d =>
      Idle F c d ∧ ∀ id job, found = some (id, job) →
        Locked F id job [] c d ∧ condition job = true := by
  refine (triple_look (Idle.lockable hF).stable).bind fun s => ?_
  refine ((triple_lockFirst (Idle.lockable hF) _).pre fun c d h => h.1).post fun found c d h => ?_
  refine ⟨h.1, fun id job hf => ?_⟩
  obtain ⟨hheld, hrow⟩ := h.2 id job hf
  rw [view_idle h.1] at hrow
  obtain ⟨hrow, hcond⟩ := select_eq_some.mp hrow
  exact ⟨⟨h.1.1, h.1.2, hheld, hrow⟩, hcond⟩

theorem triple_updateOwned (hF : Frame P i F) (now : ℤ) (jobId workerId leaseToken : ℕ) :
    P.Triple O i J (Idle F) (ExportJobService.updateOwned now jobId workerId leaseToken)
      fun found c d => Idle F c d ∧ ∀ job, found = some job →
        Locked F jobId job [] c d ∧ job.owned now workerId leaseToken = true := by
  refine (triple_lockMatching (Idle.lockable hF)).post fun found c d h => ⟨h.1, fun job hf => ?_⟩
  obtain ⟨hheld, hrow⟩ := h.2 job hf
  rw [view_idle h.1] at hrow
  obtain ⟨hrow, hcond⟩ := select_eq_some.mp hrow
  exact ⟨⟨h.1.1, h.1.2, hheld, hrow⟩, hcond⟩

/-- The rule of a call's transaction: `G` is what the session knows when the call raises. -/
theorem triple_inTransaction {α : Type} {call : Call} {body : Task α}
    (Done : α → Ctx Write Lock → Database → Prop) (F' : α → List ℕ → Database → Prop)
    (hbody : P.Triple O i (fun _ _ => False) (Idle F) body Done)
    (hdone : ∀ a c d d', Done a c d → P.Env i c d d' →
      P.Guar i c d' (c.view d') ∧ F' a c.owned (c.view d'))
    (hfault : ∀ owned d, F owned d → G owned d)
    (hreply : ∀ e, O (.reply call) (some e) → ∀ a owned d, F' a owned d → G owned d) :
    P.Triple O i (Idle G) (Idle F) (Task.inTransaction call body) fun a => Idle (F' a) := by
  refine (triple_query fun c d r h hr => h).bind fun failure => ?_
  refine (triple_orRaise failure fun c d _ h => ⟨h.1, hfault _ _ h.2⟩).bind fun _ => ?_
  have htrans : P.Triple O i (Idle G) (Idle F) (transaction body) fun a => Idle (F' a) :=
    hbody.transaction _ _ (fun c d d' h _ => h.elim) fun a c d d' h he =>
      ⟨(hdone a c d d' h he).1, rfl, (hdone a c d d' h he).2⟩
  refine htrans.bind fun a => ?_
  refine Triple.seq (fun failure c d => Idle (F' a) c d ∧ O (.reply call) failure)
    (triple_query fun c d r h hr => ⟨h, hr⟩) fun failure => ?_
  cases failure with
  | none => exact (triple_pure fun c d h => h.1).bind fun _ => triple_pure fun c d h => h
  | some e =>
    exact (triple_raise fun c d h => ⟨h.1.1, hreply e h.2 a _ _ h.1.2⟩).bind
      fun _ => triple_pure fun c d h => h

/-- The rule of an update: it finds no row, or it locks one and writes `writes`. -/
theorem triple_update (hP : RowLocks P) (hF : Frame P i F) {F' : List ℕ → Database → Prop}
    {call : Call} {body : Task Bool} (writes : ℕ → ExportJob → List Write)
    (condition : ℕ → ExportJob → Prop)
    (hbody : P.Triple O i (fun _ _ => False) (Idle F) body fun found c d =>
      (found = false → Idle F c d) ∧ (found = true →
        ∃ id job, Locked F id job (writes id job) c d ∧ condition id job))
    (hput : ∀ id job c d, Locked F id job (writes id job) c d → condition id job → P.Inv d →
      P.Guar i c d (c.view d) ∧ F' c.owned (c.view d))
    (hfault : ∀ owned d, F owned d → G owned d)
    (hreply : ∀ e, O (.reply call) (some e) → ∀ owned d, F' owned d → G owned d) :
    P.Triple O i (Idle G) (Idle F) (Task.inTransaction call body) fun found c d =>
      (found = false → Idle F c d) ∧ (found = true → Idle F' c d) := by
  refine (triple_inTransaction _
    (fun found owned d => (found = false → F owned d) ∧ (found = true → F' owned d)) hbody
    (fun found c d d' h he => ?_) hfault fun e he found owned d h => ?_).post fun found c d h => ?_
  · cases found with
    | false =>
      have hidle := (Idle.lockable hF).stable c d d' (h.1 rfl) he
      rw [view_idle hidle]
      exact ⟨guar_same he.2, fun _ => hidle.2, fun ht => by cases ht⟩
    | true =>
      obtain ⟨id, job, hlocked, hcond⟩ := h.2 rfl
      have hcommit := hput id job c d' (hlocked.stable hP hF he) hcond he.2
      exact ⟨hcommit.1, (fun hf => by cases hf), fun _ => hcommit.2⟩
  · cases found with
    | false => exact hfault _ _ (h.1 rfl)
    | true => exact hreply e he _ _ (h.2 rfl)
  · exact ⟨fun hf => ⟨h.1, h.2.1 hf⟩, fun ht => ⟨h.1, h.2.2 ht⟩⟩

/-! ### Calls -/

namespace ExportJobService
variable (hP : RowLocks P) (hF : Frame P i F)
include hP hF

theorem triple_reapNext (jobId : Option ℕ)
    (hput : ∀ now id job c d, Locked (Since F now) id job [.putJob id job.reaped] c d →
      job.reapable now = true → P.Inv d → P.Guar i c d (c.view d) ∧ F c.owned (c.view d)) :
    P.Keeps O i (Idle F) (reapNext jobId) := by
  refine (triple_now hF).bind fun now => ?_
  have hsince := hF.since hP now
  refine (triple_update hP hsince (fun id job => [.putJob id job.reaped])
    (fun _ job => job.reapable now = true) ?_ (hput now) (fun _ _ h => h.1)
    fun _ _ _ _ h => h).post fun found c d h => ?_
  · refine (triple_selectNext hsince _ _).bind fun found => ?_
    cases found with
    | none => exact triple_pure fun c d h => ⟨fun _ => h.1, fun ht => by cases ht⟩
    | some found =>
      obtain ⟨id, job⟩ := found
      refine Triple.seq (fun _ c d => Locked (Since F now) id job [.putJob id job.reaped] c d ∧
        job.reapable now = true) (triple_emit fun c d h => ?_) fun _ => ?_
      · obtain ⟨hlocked, hcond⟩ := h.2 id job rfl
        exact ⟨hlocked.push _, hcond⟩
      · exact triple_pure fun c d h => ⟨(fun hf => by cases hf), fun _ => ⟨id, job, h⟩⟩
  · cases found with
    | false => exact ⟨(h.1 rfl).1, (h.1 rfl).2.1⟩
    | true => exact h.2 rfl

theorem triple_reapExpiredExhaustedJobs (maxJobs : ℤ) (jobId : Option ℕ)
    (hput : ∀ now id job c d, Locked (Since F now) id job [.putJob id job.reaped] c d →
      job.reapable now = true → P.Inv d → P.Guar i c d (c.view d) ∧ F c.owned (c.view d)) :
    P.Keeps O i (Idle F) (reapExpiredExhaustedJobs maxJobs jobId) := by
  have rounds : ∀ n reaped, P.Keeps O i (Idle F) (reapRounds jobId n reaped) := by
    intro n
    induction n with
    | zero => exact fun reaped => triple_pure fun _ _ h => h
    | succ n ih =>
      intro reaped
      refine (triple_reapNext hP hF jobId hput).bind fun found => ?_
      cases found with
      | true => exact ih (reaped + 1)
      | false => exact triple_pure fun _ _ h => h
  unfold reapExpiredExhaustedJobs
  split
  · exact triple_raise fun _ _ h => h
  · exact rounds _ 0

/-- What the caller knows of the claimed job is `F'`. -/
theorem triple_claim (F' : Option (ℕ × ExportJob) → List ℕ → Database → Prop) (workerId : ℕ)
    (leaseDuration : ℤ) (jobId : Option ℕ) (respectRetrySchedule : Bool)
    (hput : 0 < leaseDuration → ∀ now leaseToken id job c d,
      Locked (Drawn P (Since F now) leaseToken) id job
        [.note (.claimed id leaseToken),
          .putJob id (job.claimed now leaseDuration workerId leaseToken)] c d →
      job.ready now respectRetrySchedule = true → P.Inv d → P.Guar i c d (c.view d) ∧
        F' (some (id, job.claimed now leaseDuration workerId leaseToken)) c.owned (c.view d))
    (hnone : ∀ owned d, F owned d → F' none owned d)
    (hreply : ∀ found owned d, F' found owned d → F owned d) :
    P.Triple O i (Idle F) (Idle F) (claim workerId leaseDuration jobId respectRetrySchedule)
      fun found => Idle (F' found) := by
  unfold claim
  split
  · exact triple_raise fun _ _ h => h
  · rename_i hpositive
    refine (triple_now hF).bind fun now => ?_
    have hsince := hF.since hP now
    refine triple_inTransaction (fun found c d => found.elim (Idle (Since F now) c d) fun p =>
      ∃ leaseToken job,
        Locked (Drawn P (Since F now) leaseToken) p.1 job [.note (.claimed p.1 leaseToken),
          .putJob p.1 (job.claimed now leaseDuration workerId leaseToken)] c d ∧
        job.ready now respectRetrySchedule = true ∧
        p.2 = job.claimed now leaseDuration workerId leaseToken) F' ?_
      (fun found c d d' h he => ?_) (fun _ _ h => h.1) fun _ _ => hreply
    · refine (triple_selectNext hsince _ _).bind fun found => ?_
      cases found with
      | none => exact triple_pure fun c d h => h.1
      | some found =>
        obtain ⟨id, job⟩ := found
        refine Triple.seq (fun leaseToken c d =>
          Locked (Drawn P (Since F now) leaseToken) id job [] c d ∧
            job.ready now respectRetrySchedule = true)
          (triple_draw fun c d d' n h he hn hu => ?_) fun leaseToken => ?_
        · obtain ⟨hlocked, hcond⟩ := h.2 id job rfl
          have hlocked := hlocked.stable hP hsince he
          exact ⟨⟨hlocked.log, ⟨hsince.own _ _ n hlocked.frame hn hu, List.mem_cons_self, hu⟩,
            hlocked.held, hlocked.row⟩, hcond⟩
        · refine Triple.seq (fun _ c d => Locked (Drawn P (Since F now) leaseToken) id job
            [.note (.claimed id leaseToken)] c d ∧ job.ready now respectRetrySchedule = true)
            (triple_emit fun c d h => ⟨h.1.push _, h.2⟩) fun _ => ?_
          refine Triple.seq (fun _ c d => Locked (Drawn P (Since F now) leaseToken) id job
            [.note (.claimed id leaseToken),
              .putJob id (job.claimed now leaseDuration workerId leaseToken)] c d ∧
            job.ready now respectRetrySchedule = true)
            (triple_emit fun c d h => ⟨h.1.push _, h.2⟩) fun _ => ?_
          exact triple_pure fun c d h => ⟨leaseToken, job, h.1, h.2, rfl⟩
    · cases found with
      | none =>
        have hidle := (Idle.lockable hsince).stable c d d' h he
        rw [view_idle hidle]
        exact ⟨guar_same he.2, hnone _ _ hidle.2.1⟩
      | some found =>
        obtain ⟨id, job'⟩ := found
        obtain ⟨leaseToken, job, hlocked, hcond, hjob⟩ := h
        obtain rfl : job' = _ := hjob
        have hlocked := hlocked.stable hP (hsince.drawn hP leaseToken) he
        exact hput (by omega) now leaseToken id job c d' hlocked hcond he.2

theorem triple_renew (jobId workerId leaseToken : ℕ) (leaseDuration : ℤ)
    (hput : ∀ now job c d, Locked (Since F now) jobId job
        [.putJob jobId (job.renewed (now + leaseDuration))] c d →
      job.owned now workerId leaseToken = true → P.Inv d →
        P.Guar i c d (c.view d) ∧ F c.owned (c.view d)) :
    P.Keeps O i (Idle F) (renew jobId workerId leaseToken leaseDuration) := by
  refine (triple_now hF).bind fun now => ?_
  have hsince := hF.since hP now
  refine (triple_update hP hsince
    (fun _ job => [.putJob jobId (job.renewed (now + leaseDuration))])
    (fun id job => id = jobId ∧ job.owned now workerId leaseToken = true) ?_
    (fun id job c d h hc hi => ?_) (fun _ _ h => h.1) fun _ _ _ _ h => h).post
      fun found c d h => ?_
  · refine (triple_updateOwned hsince _ _ _ _).bind fun found => ?_
    cases found with
    | none => exact triple_pure fun c d h => ⟨fun _ => h.1, fun ht => by cases ht⟩
    | some job =>
      refine Triple.seq (fun _ c d => Locked (Since F now) jobId job
        [.putJob jobId (job.renewed (now + leaseDuration))] c d ∧
        job.owned now workerId leaseToken = true) (triple_emit fun c d h => ?_) fun _ => ?_
      · obtain ⟨hlocked, hcond⟩ := h.2 job rfl
        exact ⟨hlocked.push _, hcond⟩
      · exact triple_pure fun c d h =>
          ⟨(fun hf => by cases hf), fun _ => ⟨jobId, job, h.1, rfl, h.2⟩⟩
  · obtain ⟨rfl, hcond⟩ := hc
    exact hput now job c d h hcond hi
  · cases found with
    | false => exact ⟨(h.1 rfl).1, (h.1 rfl).2.1⟩
    | true => exact h.2 rfl

theorem triple_heartbeatLoop (jobId workerId leaseToken : ℕ) (leaseDuration : ℤ)
    (sleepInterval : ℚ) (renewals : ℕ)
    (hput : ∀ now job c d, Locked (Since F now) jobId job
        [.putJob jobId (job.renewed (now + leaseDuration))] c d →
      job.owned now workerId leaseToken = true → P.Inv d →
        P.Guar i c d (c.view d) ∧ F c.owned (c.view d)) :
    P.Keeps O i (Idle F)
      (heartbeatLoop jobId workerId leaseToken leaseDuration sleepInterval renewals) := by
  unfold heartbeatLoop
  split
  · exact triple_raise fun _ _ h => h
  · induction renewals with
    | zero => exact triple_pure fun _ _ h => h
    | succ renewals ih =>
      refine (triple_renew hP hF _ _ _ _ hput).attempt.bind fun found => ?_
      split
      · exact ih.pre fun _ _ h => h
      · rename_i hfound
        refine triple_pure fun c d h => ?_
        cases found <;> exact h

/-- After its commit took effect the caller knows `F'`, before it knows `F`; `G` is what it knows
when the call raises. -/
theorem triple_completeIfOwned (F' : List ℕ → Database → Prop) (jobId workerId leaseToken : ℕ)
    (s3Key : ArtifactKey) (expiresAt : ℤ)
    (hput : ∀ now job c d, Locked (Since F now) jobId job
        [.note (.completed jobId leaseToken now), .putJob jobId (job.completed s3Key expiresAt)] c d →
      job.owned now workerId leaseToken = true → P.Inv d →
        P.Guar i c d (c.view d) ∧ F' c.owned (c.view d))
    (hfault : ∀ owned d, F owned d → G owned d)
    (hreply : ∀ e, O (.reply .complete) (some e) → ∀ owned d, F' owned d → G owned d) :
    P.Triple O i (Idle G) (Idle F)
      (completeIfOwned jobId workerId leaseToken s3Key expiresAt) fun done c d =>
        (done = false → Idle F c d) ∧ (done = true → Idle F' c d) := by
  refine (triple_now hF).bind fun now => ?_
  have hsince := hF.since hP now
  refine (triple_update (G := G) hP hsince
    (fun _ job =>
      [.note (.completed jobId leaseToken now), .putJob jobId (job.completed s3Key expiresAt)])
    (fun id job => id = jobId ∧ job.owned now workerId leaseToken = true) ?_
    (fun id job c d h hc hi => ?_) (fun _ _ h => hfault _ _ h.1) hreply).post
      fun found c d h => ⟨fun hf => ⟨(h.1 hf).1, (h.1 hf).2.1⟩, h.2⟩
  · refine (triple_updateOwned hsince _ _ _ _).bind fun found => ?_
    cases found with
    | none => exact triple_pure fun c d h => ⟨fun _ => h.1, fun ht => by cases ht⟩
    | some job =>
      refine Triple.seq (fun _ c d => Locked (Since F now) jobId job
        [.note (.completed jobId leaseToken now)] c d ∧ job.owned now workerId leaseToken = true)
        (triple_emit fun c d h => ?_) fun _ => ?_
      · obtain ⟨hlocked, hcond⟩ := h.2 job rfl
        exact ⟨hlocked.push _, hcond⟩
      · refine Triple.seq (fun _ c d => Locked (Since F now) jobId job
          [.note (.completed jobId leaseToken now), .putJob jobId (job.completed s3Key expiresAt)] c d ∧
          job.owned now workerId leaseToken = true)
          (triple_emit fun c d h => ⟨h.1.push _, h.2⟩) fun _ => ?_
        exact triple_pure fun c d h =>
          ⟨(fun hf => by cases hf), fun _ => ⟨jobId, job, h.1, rfl, h.2⟩⟩
  · obtain ⟨rfl, hcond⟩ := hc
    exact hput now job c d h hcond hi

theorem triple_recordFailureIfOwned (jobId workerId leaseToken : ℕ) (error : Failure)
    (hput : ∀ now job c d, Locked (Since F now) jobId job
        [.note (.failed jobId leaseToken now), .putJob jobId (job.failed now error)] c d →
      job.owned now workerId leaseToken = true → P.Inv d →
        P.Guar i c d (c.view d) ∧ F c.owned (c.view d)) :
    P.Keeps O i (Idle F) (recordFailureIfOwned jobId workerId leaseToken error) := by
  refine (triple_now hF).bind fun now => ?_
  have hsince := hF.since hP now
  refine (triple_update hP hsince
    (fun _ job =>
      [.note (.failed jobId leaseToken now), .putJob jobId (job.failed now error)])
    (fun id job => id = jobId ∧ job.owned now workerId leaseToken = true) ?_
    (fun id job c d h hc hi => ?_) (fun _ _ h => h.1) fun _ _ _ _ h => h).post
      fun found c d h => ?_
  · refine Triple.seq (fun _ c d => Idle (Since F now) c d ∧ Lock.job jobId ∈ c.held)
      (triple_acquire fun c d d' h he =>
        ⟨(Idle.lockable hsince).stable c d d' h he, List.mem_cons_self⟩) fun _ => ?_
    refine (triple_look fun c d d' h he =>
      ⟨(Idle.lockable hsince).stable c d d' h.1 he, h.2⟩).bind fun s => ?_
    cases hrow : s.select (·.owned now workerId leaseToken) jobId with
    | none => exact triple_pure fun c d h => ⟨fun _ => h.1.1, fun ht => by cases ht⟩
    | some job =>
      obtain ⟨hrow, hcond⟩ := select_eq_some.mp hrow
      refine Triple.seq (fun _ => Locked (Since F now) jobId job
        [.note (.failed jobId leaseToken now)]) (triple_emit fun c d h => ?_) fun _ => ?_
      · have hview : s = d := h.2.trans (view_idle h.1.1)
        have hlocked : Locked (Since F now) jobId job [] c d :=
          ⟨h.1.1.1, h.1.1.2, h.1.2, hview ▸ hrow⟩
        exact hlocked.push _
      · refine Triple.seq (fun _ => Locked (Since F now) jobId job
          [.note (.failed jobId leaseToken now), .putJob jobId (job.failed now error)])
          (triple_emit fun c d h => h.push _) fun _ => ?_
        exact triple_pure fun c d h =>
          ⟨(fun hf => by cases hf), fun _ => ⟨jobId, job, h, rfl, hcond⟩⟩
  · obtain ⟨rfl, hcond⟩ := hc
    exact hput now job c d h hcond hi
  · cases found with
    | false => exact ⟨(h.1 rfl).1, (h.1 rfl).2.1⟩
    | true => exact h.2 rfl

theorem triple_assertOwned (jobId workerId leaseToken : ℕ) :
    P.Keeps O i (Idle F) (assertOwned jobId workerId leaseToken) := by
  refine (triple_now hF).bind fun now => ?_
  have hsince := (Idle.lockable (hF.since hP now)).stable
  refine (triple_query fun c d r h _ => h).bind fun failure => ?_
  refine (triple_orRaise failure fun c d _ h => ⟨h.1, h.2.1⟩).bind fun _ => ?_
  refine (triple_look hsince).bind fun s => ?_
  split
  · exact triple_raise fun c d h => ⟨h.1.1, h.1.2.1⟩
  · exact triple_pure fun c d h => ⟨h.1.1, h.1.2.1⟩

end ExportJobService

theorem triple_createExport (hP : RowLocks P) (hF : Frame P i F) (assetId : ℕ)
    (timeframe : String) (startTime endTime : ℤ) (maxAttempts : { n : ℕ // 0 < n })
    (hput : ∀ now id (c : Ctx Write Lock) d, Drawn P F id c.owned d → P.Inv d →
      P.Guar i c d (d.putJob id (newJob assetId timeframe startTime endTime maxAttempts now)) ∧
        F c.owned (d.putJob id (newJob assetId timeframe startTime endTime maxAttempts now))) :
    P.Keeps O i (Idle F) (createExport assetId timeframe startTime endTime maxAttempts) := by
  refine (triple_now hF).bind fun now => ?_
  have hsince := hF.since hP now
  refine Triple.transaction (fun _ _ => False) (fun _ c d => ∃ id, c.log = [.putJob id
      (newJob assetId timeframe startTime endTime maxAttempts now)] ∧ Drawn P F id c.owned d) ?_
    (fun c d d' h _ => h.elim) fun _ c d d' h he => ?_
  · refine Triple.seq (fun id c d => c.log = [] ∧ Drawn P F id c.owned d)
      (triple_draw fun c d d' n h he hn hu => ?_) fun id => ?_
    · have hidle := (Idle.lockable hsince).stable c d d' h he
      exact ⟨hidle.1, hF.own _ _ n hidle.2.1 hn hu, List.mem_cons_self, hu⟩
    · refine triple_emit fun c d h => ⟨id, ?_, h.2⟩
      rw [Ctx.push_log, h.1, List.nil_append]
  · obtain ⟨id, hlog, hdrawn⟩ := h
    have hcommit := hput now id c d' ((hF.drawn hP id).stable c d d' hdrawn he) he.2
    have hview : c.view d' =
        d'.putJob id (newJob assetId timeframe startTime endTime maxAttempts now) := by
      simp only [Ctx.view, hlog]
      rfl
    rw [hview]
    exact ⟨hcommit.1, rfl, hcommit.2⟩

theorem triple_tick (hF : Frame P i F) (microseconds : ℕ)
    (hput : ∀ (c : Ctx Write Lock) d, F c.owned d → P.Inv d →
      P.Guar i c d { d with clock := d.clock + microseconds } ∧
        F c.owned { d with clock := d.clock + microseconds }) :
    P.Keeps O i (Idle F) (tick microseconds) := by
  refine Triple.seq (fun _ c d => c.log = [.tick microseconds] ∧ F c.owned d)
    (triple_emit fun c d h => ?_) fun _ => triple_commit fun c d d' h he => ?_
  · exact ⟨by rw [Ctx.push_log, h.1, List.nil_append], h.2⟩
  · have hcommit := hput c d' (hF.stable c d d' h.2 he) he.2
    have hview : c.view d' = { d' with clock := d'.clock + microseconds } := by
      simp only [Ctx.view, h.1]
      rfl
    rw [hview]
    exact ⟨hcommit.1, rfl, hcommit.2⟩

end Quantive.Exports
