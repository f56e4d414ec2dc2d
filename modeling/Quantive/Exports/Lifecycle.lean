import Quantive.Exports.Calls

/-!
# The life of an export job

Any number of sessions call the service in any order. Every commit changes a job in one of the
ways of `Change`; from these follow the shape of the rows in every reachable state, which party
may end an attempt, and that an open job always can be claimed or reaped once it is due.
-/

namespace Quantive.Exports
open Quantive.ReadCommitted Prog Protocol

/-- The sessions: `holder` calls with the credentials of a claim, `clock` is the wall clock. -/
inductive Party where
  | claimant (n : ℕ)
  | holder (n jobId workerId leaseToken : ℕ)
  | sweeper (n : ℕ)
  | client (n : ℕ)
  | clock
  deriving DecidableEq

open ExportJobService in
inductive Program : Party → Task Unit → Prop
  | claimJob (n jobId workerId : ℕ) (leaseDuration : ℤ) (respectRetrySchedule : Bool) :
      Program (.claimant n) do
        let _ ← claimJob jobId workerId leaseDuration respectRetrySchedule
        pure ()
  | claimNextJob (n workerId : ℕ) (leaseDuration : ℤ) (respectRetrySchedule : Bool) :
      Program (.claimant n) do
        let _ ← claimNextJob workerId leaseDuration respectRetrySchedule
        pure ()
  | assertOwned (n jobId workerId leaseToken : ℕ) :
      Program (.holder n jobId workerId leaseToken) (assertOwned jobId workerId leaseToken)
  | heartbeatLoop (n jobId workerId leaseToken : ℕ) (leaseDuration : ℤ) (sleepInterval : ℚ)
      (renewals : ℕ) : Program (.holder n jobId workerId leaseToken)
        (heartbeatLoop jobId workerId leaseToken leaseDuration sleepInterval renewals)
  | completeIfOwned (n jobId workerId leaseToken : ℕ) (s3Key : ArtifactKey) (expiresAt : ℤ) :
      Program (.holder n jobId workerId leaseToken) do
        let _ ← completeIfOwned jobId workerId leaseToken s3Key expiresAt
        pure ()
  | recordFailureIfOwned (n jobId workerId leaseToken : ℕ) (error : Failure) :
      Program (.holder n jobId workerId leaseToken) do
        let _ ← recordFailureIfOwned jobId workerId leaseToken error
        pure ()
  | reapExpiredExhaustedJobs (n : ℕ) (maxJobs : ℤ) (jobId : Option ℕ) :
      Program (.sweeper n) do
        let _ ← reapExpiredExhaustedJobs maxJobs jobId
        pure ()
  | createExport (n assetId : ℕ) (timeframe : String) (startTime endTime : ℤ)
      (maxAttempts : { n : ℕ // 0 < n }) :
      Program (.client n) (createExport assetId timeframe startTime endTime maxAttempts)
  | tick (microseconds : ℕ) : Program .clock (tick microseconds)

/-- The service over any exceptions of its database calls, from an empty table. -/
def exportCalls : System Party Database Write Lock Answer Failure where
  oracle _ _ := True
  programs := Program
  init d := d.jobs = ∅ ∧ d.history = []

namespace ExportJob

/-- The shape of a row: the attempts are within the budget, a pending job has one left, and the
columns of a claim are set exactly while it is processed. -/
structure WellFormed (job : ExportJob) : Prop where
  attempts : job.attemptCount ≤ job.maxAttempts
  budget : job.status = .pending → job.attemptCount < job.maxAttempts
  workerId : job.workerId.isSome ↔ job.status = .processing
  leaseToken : job.leaseToken.isSome ↔ job.status = .processing
  claimedAt : job.claimedAt.isSome ↔ job.status = .processing
  leaseExpiresAt : job.leaseExpiresAt.isSome ↔ job.status = .processing

variable {job : ExportJob} {now leaseDuration : ℤ} {workerId token : ℕ}

theorem ready_iff {respectRetrySchedule : Bool} : job.ready now respectRetrySchedule = true ↔
    job.attemptCount < job.maxAttempts ∧ (job.status = .pending ∧ (respectRetrySchedule = true →
        ∀ t, job.nextAttemptAt = some t → t ≤ now) ∨
      job.status = .processing ∧ ∃ t, job.leaseExpiresAt = some t ∧ t ≤ now) := by
  cases hn : job.nextAttemptAt <;> cases hl : job.leaseExpiresAt <;>
    cases respectRetrySchedule <;> simp [ready, hn, hl] <;> tauto

theorem reapable_iff : job.reapable now = true ↔ job.status = .processing ∧
    job.maxAttempts ≤ job.attemptCount ∧ ∃ t, job.leaseExpiresAt = some t ∧ t ≤ now := by
  cases hl : job.leaseExpiresAt with
  | none => simp [reapable, hl]
  | some t =>
    simp only [reapable, hl, Bool.and_eq_true, decide_eq_true_eq, Option.any_some,
      Option.some.injEq, exists_eq_left']
    tauto

theorem owned_iff : job.owned now workerId token = true ↔ job.status = .processing ∧
    job.workerId = some workerId ∧ job.leaseToken = some token ∧
      ∃ t, job.leaseExpiresAt = some t ∧ now < t := by
  cases hl : job.leaseExpiresAt with
  | none => simp [owned, hl]
  | some t =>
    simp only [owned, hl, Bool.and_eq_true, decide_eq_true_eq, Option.any_some,
      Option.some.injEq, exists_eq_left']
    tauto

end ExportJob

/-- What a commit of party `i` from `d` to `d'` may make of a job; the call read the clock at
`now`. -/
inductive Change (i : Party) (d d' : Database) (id : ℕ) (job : ExportJob) : ExportJob → Prop
  | kept : Change i d d' id job job
  | claimed {now leaseDuration : ℤ} {workerId leaseToken : ℕ} {respectRetrySchedule : Bool} :
      0 < leaseDuration → now ≤ d.clock → job.ready now respectRetrySchedule = true →
      d.Fresh leaseToken → Change i d d' id job (job.claimed now leaseDuration workerId leaseToken)
  | reaped {now : ℤ} : now ≤ d.clock → job.reapable now = true → Change i d d' id job job.reaped
  | renewed {n : ℕ} {now leaseDuration : ℤ} {workerId leaseToken : ℕ} :
      i = .holder n id workerId leaseToken → now ≤ d.clock →
      job.owned now workerId leaseToken = true →
      Change i d d' id job (job.renewed (now + leaseDuration))
  | completed {n : ℕ} {now expiresAt : ℤ} {workerId leaseToken : ℕ} {s3Key : ArtifactKey} :
      i = .holder n id workerId leaseToken → now ≤ d.clock →
      job.owned now workerId leaseToken = true → .completed id leaseToken now ∈ d'.history →
      Change i d d' id job (job.completed s3Key expiresAt)
  | failed {n : ℕ} {now : ℤ} {workerId leaseToken : ℕ} {error : Failure} :
      i = .holder n id workerId leaseToken → now ≤ d.clock →
      job.owned now workerId leaseToken = true → .failed id leaseToken now ∈ d'.history →
      Change i d d' id job (job.failed now error)

/-- Every change keeps the shape of a row. -/
theorem Change.wellFormed {i : Party} {d d' : Database} {id : ℕ} {job job' : ExportJob}
    (h : Change i d d' id job job') (hjob : job.WellFormed) : job'.WellFormed := by
  cases h with
  | kept => exact hjob
  | claimed _ _ hready _ =>
    have hbudget := (ExportJob.ready_iff.mp hready).1
    constructor <;> simp [ExportJob.claimed]
    omega
  | reaped _ hreapable =>
    constructor <;> simp [ExportJob.reaped, ExportJob.unclaimed]
    exact hjob.attempts
  | renewed _ _ howned =>
    obtain ⟨hstatus, hworker, htoken, t, hlease, _⟩ := ExportJob.owned_iff.mp howned
    constructor
    · exact hjob.attempts
    · exact hjob.budget
    · exact hjob.workerId
    · exact hjob.leaseToken
    · exact hjob.claimedAt
    · simp [ExportJob.renewed, hstatus]
  | completed _ _ _ _ =>
    constructor <;> simp [ExportJob.completed, ExportJob.unclaimed]
    exact hjob.attempts
  | failed _ _ _ _ =>
    by_cases hbudget : job.attemptCount < job.maxAttempts
    · constructor <;> simp [ExportJob.failed, ExportJob.unclaimed, hbudget]
      exact hjob.attempts
    · constructor <;> simp [ExportJob.failed, ExportJob.unclaimed, hbudget]
      exact hjob.attempts

/-! ### The protocol of the job table -/

/-- Every row is well formed and every token on a row was recorded. -/
structure Database.Lawful (d : Database) : Prop where
  rows : ∀ id job, d.job id = some job → job.WellFormed
  tokens : ∀ id job token, d.job id = some job → job.leaseToken = some token →
    .claimed id token ∈ d.history

def jobTable : Protocol Party Database Lock where
  Inv := Database.Lawful
  Rely _ := Undisturbed
  Unused n d := d.Fresh n
  Commit i _ _ d d' := ∀ id job, d.job id = some job →
    ∃ job', d'.job id = some job' ∧ Change i d d' id job job'
  rely_refl _ := Undisturbed.refl
  rely_trans _ _ _ _ _ _ := Undisturbed.trans
  commit_refl _ _ _ _ := fun _ job h => ⟨job, h, .kept⟩

theorem jobTable_rowLocks : RowLocks jobTable where
  row _ _ _ _ _ h := h.row
  clock _ _ _ _ _ h := h.clock
  name _ _ _ _ _ h := h.name

theorem frame_true (i : Party) : Frame jobTable i fun _ _ => True where
  stable _ _ _ _ _ := trivial
  own _ _ _ _ _ _ := trivial

/-- The commit of a changed row whose token, if any, is on record. -/
theorem guar_change {i : Party} {c : Ctx Write Lock} {d d' : Database} {id : ℕ}
    {job job' : ExportJob} (hd : d.Lawful) (h : RowChange c d d' id job job')
    (htoken : ∀ token, job'.leaseToken = some token → .claimed id token ∈ d'.history)
    (hchange : Change i d d' id job job') : jobTable.Guar i c d d' := by
  constructor
  · constructor
    · intro other row hother
      by_cases hid : other = id
      · subst hid
        rw [h.new] at hother
        cases hother
        exact hchange.wellFormed (hd.rows other job h.row)
      · rw [h.others other hid] at hother
        exact hd.rows other row hother
    · intro other row token hother ht
      by_cases hid : other = id
      · subst hid
        rw [h.new] at hother
        cases hother
        exact htoken token ht
      · rw [h.others other hid] at hother
        exact h.kept _ (hd.tokens other row token hother ht)
  · exact fun j _ held owned => h.undisturbed
  · exact fun n => h.fresh
  · intro other row hother
    by_cases hid : other = id
    · subst hid
      rw [h.row] at hother
      cases hother
      exact ⟨job', h.new, hchange⟩
    · exact ⟨row, by rw [h.others other hid]; exact hother, .kept⟩

/-- The commit of a changed row that keeps its token or clears it. -/
theorem guar_put {F : List ℕ → Database → Prop} {i : Party} {c : Ctx Write Lock} {d : Database}
    {id : ℕ} {job job' : ExportJob} (hd : d.Lawful) (h : Locked F id job [.putJob id job'] c d)
    (htoken : ∀ token, job'.leaseToken = some token → job.leaseToken = some token)
    (hchange : Change i d (c.view d) id job job') : jobTable.Guar i c d (c.view d) := by
  refine guar_change hd h.change_put (fun token ht => ?_) hchange
  have hold := hd.tokens id job token h.row (htoken token ht)
  exact h.change_put.kept _ hold

/-- The commit that records the end of an attempt and clears the token. -/
theorem guar_end {F : List ℕ → Database → Prop} {i : Party} {c : Ctx Write Lock}
    {d : Database} {id : ℕ} {e : Event} {job job' : ExportJob} (hd : d.Lawful)
    (h : Locked F id job [.note e, .putJob id job'] c d) (hend : ∀ other t, e ≠ .claimed other t)
    (htoken : job'.leaseToken = none) (hchange : Change i d (c.view d) id job job') :
    jobTable.Guar i c d (c.view d) := by
  have hrow := h.change_note_put fun other token he => absurd he (hend other token)
  refine guar_change hd hrow (fun token ht => ?_) hchange
  rw [htoken] at ht
  cases ht

/-- What every call knows between its transactions: nothing. -/
abbrev rest : Ctx Write Lock → Database → Prop := Idle fun _ _ => True

section
variable (i : Party) {O : (q : Question) → Answer q → Prop}
open ExportJobService

theorem keeps_reap (maxJobs : ℤ) (jobId : Option ℕ) :
    jobTable.Keeps O i rest (reapExpiredExhaustedJobs maxJobs jobId) := by
  refine triple_reapExpiredExhaustedJobs jobTable_rowLocks (frame_true i) maxJobs jobId ?_
  intro now id job c d h hreapable hd
  refine ⟨guar_put hd h (fun token ht => ?_) (.reaped h.frame.2 hreapable), trivial⟩
  simp [ExportJob.reaped, ExportJob.unclaimed] at ht

theorem keeps_claim (workerId : ℕ) (leaseDuration : ℤ) (jobId : Option ℕ)
    (respectRetrySchedule : Bool) :
    jobTable.Keeps O i rest (claim workerId leaseDuration jobId respectRetrySchedule) := by
  refine triple_claim jobTable_rowLocks (frame_true i) (fun _ _ _ => True) workerId
    leaseDuration jobId respectRetrySchedule ?_ (fun _ _ _ => trivial) fun _ _ _ _ => trivial
  intro hpositive now leaseToken id job c d h hready hd
  obtain ⟨⟨_, hnow⟩, howned, hfresh⟩ := h.frame
  have hchange : Change i d (c.view d) id job
      (job.claimed now leaseDuration workerId leaseToken) := .claimed hpositive hnow hready hfresh
  have hrow := h.change_note_put fun other token he => by
    cases he
    exact howned
  refine ⟨guar_change hd hrow (fun token ht => ?_) hchange, trivial⟩
  cases ht
  exact h.noted

variable (n jobId workerId leaseToken : ℕ)

theorem keeps_heartbeatLoop (leaseDuration : ℤ) (sleepInterval : ℚ) (renewals : ℕ) :
    jobTable.Keeps O (.holder n jobId workerId leaseToken) rest
      (heartbeatLoop jobId workerId leaseToken leaseDuration sleepInterval renewals) := by
  refine triple_heartbeatLoop jobTable_rowLocks (frame_true _) _ _ _ _ _ _ ?_
  intro now job c d h howned hd
  exact ⟨guar_put hd h (fun token ht => ht) (.renewed rfl h.frame.2 howned), trivial⟩

theorem keeps_completeIfOwned (s3Key : ArtifactKey) (expiresAt : ℤ) :
    jobTable.Keeps O (.holder n jobId workerId leaseToken) rest
      (completeIfOwned jobId workerId leaseToken s3Key expiresAt) := by
  refine (triple_completeIfOwned jobTable_rowLocks (frame_true _) (fun _ _ => True) _ _ _ _ _
    ?_ (fun _ _ _ => trivial) fun _ _ _ _ _ => trivial).post fun done c d h => ?_
  · intro now job c d h howned hd
    refine ⟨guar_end hd h (fun _ _ he => by cases he) rfl ?_, trivial⟩
    exact .completed rfl h.frame.2 howned h.noted
  · cases done with
    | false => exact h.1 rfl
    | true => exact h.2 rfl

theorem keeps_recordFailureIfOwned (error : Failure) :
    jobTable.Keeps O (.holder n jobId workerId leaseToken) rest
      (recordFailureIfOwned jobId workerId leaseToken error) := by
  refine triple_recordFailureIfOwned jobTable_rowLocks (frame_true _) _ _ _ _ ?_
  intro now job c d h howned hd
  refine ⟨guar_end hd h (fun _ _ he => by cases he) rfl ?_, trivial⟩
  exact .failed rfl h.frame.2 howned h.noted

end

theorem keeps_createExport (i : Party) {O : (q : Question) → Answer q → Prop} (assetId : ℕ)
    (timeframe : String) (startTime endTime : ℤ) (maxAttempts : { n : ℕ // 0 < n }) :
    jobTable.Keeps O i rest (createExport assetId timeframe startTime endTime maxAttempts) := by
  refine triple_createExport jobTable_rowLocks (frame_true i) _ _ _ _ _ ?_
  intro now id c d hdrawn hd
  obtain ⟨_, howned, hfree, hunclaimed⟩ := hdrawn
  refine ⟨⟨⟨fun other row hrow => ?_, fun other row token hrow ht => ?_⟩,
    fun j _ held owned _ hnames => .insert hfree fun hn => hnames id hn howned,
    fun n hn hf => hf.insert fun he => hn (he ▸ howned),
    fun other row hrow => ⟨row, Database.job_insert hfree hrow, .kept⟩⟩, trivial⟩
  · by_cases hid : other = id
    · subst hid
      rw [Database.job_putJob] at hrow
      cases hrow
      constructor <;> simp [newJob]
      exact maxAttempts.2
    · rw [Database.job_putJob_ne _ _ hid] at hrow
      exact hd.rows other row hrow
  · by_cases hid : other = id
    · subst hid
      rw [Database.job_putJob] at hrow
      cases hrow
      cases ht
    · rw [Database.job_putJob_ne _ _ hid] at hrow
      exact hd.tokens other row token hrow ht

theorem keeps_tick (i : Party) {O : (q : Question) → Answer q → Prop} (microseconds : ℕ) :
    jobTable.Keeps O i rest (tick microseconds) := by
  refine triple_tick (frame_true i) microseconds fun c d _ hd => ⟨?_, trivial⟩
  refine ⟨⟨hd.rows, hd.tokens⟩, fun j _ held owned _ _ => ?_, fun n _ hf => hf,
    fun id job h => ⟨job, h, .kept⟩⟩
  exact ⟨by simp, fun _ _ _ h => h, fun _ _ hf => hf⟩

theorem sound_exportCalls : Sound exportCalls jobTable := by
  have drop : ∀ {α : Type} {i : Party} {p : Task α} {d : Database},
      jobTable.Keeps exportCalls.oracle i rest p →
        jobTable.wp exportCalls.oracle i (do let _ ← p; pure ()) Rest {} d := by
    intro α i p d hp
    exact Keeps.rest (hp.bind fun _ => triple_pure fun _ _ h => h) ⟨rfl, trivial⟩
  intro i p d hp hd
  cases hp with
  | claimJob n jobId workerId leaseDuration respectRetrySchedule =>
    exact drop ((keeps_reap _ _ _).bind fun _ => keeps_claim _ _ _ _ _)
  | claimNextJob n workerId leaseDuration respectRetrySchedule => exact drop (keeps_claim _ _ _ _ _)
  | assertOwned n jobId workerId leaseToken =>
    exact Keeps.rest (ExportJobService.triple_assertOwned jobTable_rowLocks (frame_true _) _ _ _)
      ⟨rfl, trivial⟩
  | heartbeatLoop n jobId workerId leaseToken leaseDuration sleepInterval renewals =>
    exact Keeps.rest (keeps_heartbeatLoop _ _ _ _ _ _ _) ⟨rfl, trivial⟩
  | completeIfOwned n jobId workerId leaseToken s3Key expiresAt =>
    exact drop (keeps_completeIfOwned _ _ _ _ _ _)
  | recordFailureIfOwned n jobId workerId leaseToken error =>
    exact drop (keeps_recordFailureIfOwned _ _ _ _ _)
  | reapExpiredExhaustedJobs n maxJobs jobId => exact drop (keeps_reap _ _ _)
  | createExport n assetId timeframe startTime endTime maxAttempts =>
    exact Keeps.rest (keeps_createExport _ _ _ _ _ _) ⟨rfl, trivial⟩
  | tick microseconds => exact Keeps.rest (keeps_tick _ _) ⟨rfl, trivial⟩

theorem exportCalls_ok : exportCalls.Invariant (Ok exportCalls jobTable) := by
  refine sound sound_exportCalls fun d hd => ?_
  obtain ⟨hjobs, hhistory⟩ := hd
  have empty : ∀ id, d.job id = none := fun id => by
    rw [Database.job, hjobs]
    exact AList.lookup_empty id
  refine ⟨⟨fun id job h => ?_, fun id job token h => ?_⟩, fun n => ⟨empty n, fun id hm => ?_⟩⟩
  · rw [empty id] at h
    cases h
  · rw [empty id] at h
    cases h
  · rw [hhistory] at hm
    cases hm

/-! ### Every run -/

/-- The session that took the step called with the credentials on the row of `job`, and its call
read the clock before the lease expired. -/
def ByHolder (d d' : Database) (l : Label Party) (id : ℕ) (job : ExportJob) : Prop :=
  ∃ n workerId leaseToken now expiry, l = .run (.holder n id workerId leaseToken) ∧
    job.status = .processing ∧ job.workerId = some workerId ∧ job.leaseToken = some leaseToken ∧
    job.leaseExpiresAt = some expiry ∧ now < expiry ∧ now ≤ d.clock ∧
    (.completed id leaseToken now ∈ d'.history ∨ .failed id leaseToken now ∈ d'.history)

/-- How a step from `d` to `d'` takes a job from one row to the next. -/
structure Continues (d d' : Database) (l : Label Party) (id : ℕ) (job job' : ExportJob) : Prop where
  terminal : job.status.isOpen = false → job' = job
  fresh : ∀ token, job'.leaseToken = some token → job.leaseToken ≠ some token →
    ∀ other, .claimed other token ∉ d.history
  completes : job'.status = .completed → job.status ≠ .completed → ByHolder d d' l id job
  fails : job'.status = .failed → job.status ≠ .failed → ByHolder d d' l id job ∨
    job.maxAttempts ≤ job.attemptCount ∧ ∃ expiry, job.leaseExpiresAt = some expiry ∧
      expiry ≤ d.clock
  /-- Before the lease expires only the holder ends the attempt. -/
  ends : ∀ expiry, job.leaseExpiresAt = some expiry → d.clock < expiry →
    job'.status ≠ .processing ∨ job'.leaseToken ≠ job.leaseToken → ByHolder d d' l id job

theorem ExportJob.WellFormed.continues {d d' : Database} {l : Label Party} {id : ℕ}
    {job : ExportJob} (h : job.WellFormed) : Continues d d' l id job job where
  terminal _ := rfl
  fresh _ ht hne := absurd ht hne
  completes hs hne := absurd hs hne
  fails hs hne := absurd hs hne
  ends expiry he _ hend := by
    have hs := h.leaseExpiresAt.mp (by rw [he]; rfl)
    rcases hend with hne | hne
    · exact absurd hs hne
    · exact absurd rfl hne

theorem Change.continues {i : Party} {d d' : Database} {id : ℕ} {job job' : ExportJob}
    (h : Change i d d' id job job') (hjob : job.WellFormed) :
    Continues d d' (.run i) id job job' := by
  have unopened : job.status = .processing → job.status.isOpen ≠ false := by
    intro hs
    simp [hs, ExportStatus.isOpen]
  cases h with
  | kept => exact hjob.continues
  | @claimed now leaseDuration workerId leaseToken respect _ hnow hready hfresh =>
    obtain ⟨_, hcase⟩ := ExportJob.ready_iff.mp hready
    refine ⟨fun h => ?_, fun token h _ => ?_, fun h => ?_, fun h => ?_,
      fun expiry he hlt _ => ?_⟩
    · rcases hcase with ⟨hs, _⟩ | ⟨hs, _⟩ <;> simp [hs, ExportStatus.isOpen] at h
    · cases h
      exact hfresh.2
    · cases h
    · cases h
    · rcases hcase with ⟨hs, _⟩ | ⟨_, t, ht, hle⟩
      · have hprocessing := hjob.leaseExpiresAt.mp (by rw [he]; rfl)
        rw [hs] at hprocessing
        cases hprocessing
      · rw [he] at ht
        cases ht
        exact absurd (hle.trans hnow) (Int.not_le.mpr hlt)
  | @reaped now hnow hreapable =>
    obtain ⟨hs, hexhausted, t, ht, hle⟩ := ExportJob.reapable_iff.mp hreapable
    refine ⟨fun h => absurd h (unopened hs), fun token h => ?_, fun h => ?_,
      fun _ _ => Or.inr ⟨hexhausted, t, ht, hle.trans hnow⟩, fun expiry he hlt _ => ?_⟩
    · simp [ExportJob.reaped, ExportJob.unclaimed] at h
    · cases h
    · rw [he] at ht
      cases ht
      exact absurd (hle.trans hnow) (Int.not_le.mpr hlt)
  | @renewed n now leaseDuration workerId leaseToken hi hnow howned =>
    obtain ⟨hs, _, htoken, _⟩ := ExportJob.owned_iff.mp howned
    refine ⟨fun h => absurd h (unopened hs), fun token h h' => absurd h h', fun h h' => absurd h h',
      fun h h' => absurd h h', fun _ _ _ h => ?_⟩
    rcases h with h | h
    · exact absurd hs h
    · exact absurd rfl h
  | @completed n now expiresAt workerId leaseToken s3Key hi hnow howned hevent =>
    obtain ⟨hs, hworker, htoken, t, ht, hlt⟩ := ExportJob.owned_iff.mp howned
    have holder : ByHolder d d' (.run i) id job := ⟨n, workerId, leaseToken, now, t, by rw [hi], hs,
      hworker, htoken, ht, hlt, hnow, Or.inl hevent⟩
    refine ⟨fun h => absurd h (unopened hs), fun token h => ?_, fun _ _ => holder,
      fun h => ?_, fun _ _ _ _ => holder⟩
    · simp [ExportJob.completed, ExportJob.unclaimed] at h
    · cases h
  | @failed n now workerId leaseToken error hi hnow howned hevent =>
    obtain ⟨hs, hworker, htoken, t, ht, hlt⟩ := ExportJob.owned_iff.mp howned
    have holder : ByHolder d d' (.run i) id job := ⟨n, workerId, leaseToken, now, t, by rw [hi], hs,
      hworker, htoken, ht, hlt, hnow, Or.inr hevent⟩
    refine ⟨fun h => absurd h (unopened hs), fun token h => ?_, fun _ _ => holder,
      fun _ _ => Or.inl holder, fun _ _ _ _ => holder⟩
    simp [ExportJob.failed, ExportJob.unclaimed] at h

/-- The time from which an open job waits for nobody: its retry time, or the end of its lease. -/
def ExportJob.Due (now : ℤ) (job : ExportJob) : Prop :=
  job.status = .pending ∧ (∀ t, job.nextAttemptAt = some t → t ≤ now) ∨
    job.status = .processing ∧ ∀ t, job.leaseExpiresAt = some t → t ≤ now

theorem ExportJob.WellFormed.due {job : ExportJob} (h : job.WellFormed) {now : ℤ}
    (hdue : job.Due now) : job.ready now true = true ∨ job.reapable now = true := by
  rcases hdue with ⟨hs, ht⟩ | ⟨hs, ht⟩
  · exact Or.inl (ready_iff.mpr ⟨h.budget hs, Or.inl ⟨hs, fun _ => ht⟩⟩)
  · obtain ⟨expiry, hexpiry⟩ := Option.isSome_iff_exists.mp (h.leaseExpiresAt.mpr hs)
    have hle := ht expiry hexpiry
    by_cases hbudget : job.attemptCount < job.maxAttempts
    · exact Or.inl (ready_iff.mpr ⟨hbudget, Or.inr ⟨hs, expiry, hexpiry, hle⟩⟩)
    · exact Or.inr (reapable_iff.mpr ⟨hs, by omega, expiry, hexpiry, hle⟩)

/-- An open job is due from its retry time or the end of its lease on. -/
theorem ExportJob.due_eventually {job : ExportJob} (hopen : job.status.isOpen) : ∃ since, ∀ now, since ≤ now → job.Due now := by
  simp only [ExportStatus.isOpen, Bool.or_eq_true, decide_eq_true_eq] at hopen
  rcases hopen with hs | hs
  · refine ⟨job.nextAttemptAt.getD 0, fun now hle => Or.inl ⟨hs, fun t ht => ?_⟩⟩
    rwa [ht] at hle
  · refine ⟨job.leaseExpiresAt.getD 0, fun now hle => Or.inr ⟨hs, fun t ht => ?_⟩⟩
    rwa [ht] at hle

/-! ### A due job is claimed -/

section
variable {ans : ℕ → (q : Question) → Answer q}

/-- No database call raises. -/
def Quiet (ans : ℕ → (q : Question) → Answer q) : Prop :=
  ∀ n call, (fun (r : Option Failure) => r = none) (ans n (.fault call)) ∧
    (fun (r : Option Failure) => r = none) (ans n (.reply call))

/-- A state between two transactions of a session alone. -/
def AtRest (K : Database → ℕ → Prop) (s : Alone Database Write Lock) : Prop :=
  K s.db s.names ∧ s.view = s.db

theorem yields_inTransaction (hans : Quiet ans) {α : Type} {call : Call} {body : Task α}
    {s : Alone Database Write Lock} {K : α → Database → ℕ → Prop}
    (h : Yields ans body s.answered fun a s' => K a s'.view s'.names) :
    Yields ans (Task.inTransaction call body) s fun a => AtRest (K a) := by
  have hfault : ans s.asked (.fault call) = (none : Option Failure) := (hans _ _).1
  refine yields_query ?_
  rw [hfault]
  have htrans : Yields ans (transaction body) s.answered fun a => AtRest (K a) :=
    Yields.transaction (h.mono fun a s' hs' => ⟨hs', rfl⟩)
  refine htrans.bind fun a s' hs' => yields_query ?_
  have hreply : ans s'.asked (.reply call) = (none : Option Failure) := (hans _ _).2
  rw [hreply]
  exact yields_pure hs'

theorem mem_oldest {d : Database} {condition : ExportJob → Bool} {only : Option ℕ} {k : ℕ} :
    k ∈ d.oldest condition only ↔
      (∃ job, d.select condition k = some job) ∧ ∀ x, only = some x → x = k := by
  simp only [Database.oldest, List.mem_map, List.mem_insertionSort, List.mem_filter, select_eq_some,
    Bool.and_eq_true, Option.all_eq_true, decide_eq_true_eq, Database.job]
  constructor
  · rintro ⟨e, ⟨hmem, hcond, honly⟩, rfl⟩
    exact ⟨⟨e.2, AList.mem_lookup_iff.mpr hmem, hcond⟩, honly⟩
  · rintro ⟨⟨job, hjob, hcond⟩, honly⟩
    exact ⟨⟨k, job⟩, ⟨AList.mem_lookup_iff.mp hjob, hcond, honly⟩, rfl⟩

theorem findSome_oldest (d : Database) (condition : ExportJob → Bool) (id : ℕ) :
    (d.oldest condition (some id)).findSome?
        (fun k => (d.select condition k).map fun job => (k, job)) =
      (d.select condition id).map fun job => (id, job) := by
  cases hkeys : d.oldest condition (some id) with
  | nil =>
    cases hrow : d.select condition id with
    | none => rfl
    | some job =>
      have hmem : id ∈ d.oldest condition (some id) :=
        mem_oldest.mpr ⟨⟨job, hrow⟩, fun x hx => (Option.some.inj hx).symm⟩
      rw [hkeys] at hmem
      cases hmem
  | cons k ks =>
    have hmem : k ∈ d.oldest condition (some id) := by
      rw [hkeys]
      exact List.mem_cons_self
    obtain ⟨⟨job, hrow⟩, honly⟩ := mem_oldest.mp hmem
    obtain rfl := honly id rfl
    rw [List.findSome?_cons, hrow]
    rfl

/-- A session alone finds the job it is asked for when the job meets the clause. -/
theorem yields_selectNext {s : Alone Database Write Lock} (condition : ExportJob → Bool) (id : ℕ) :
    Yields ans (ExportJobService.selectNext condition (some id)) s fun found s' =>
      found = (s.view.select condition id).map (fun job => (id, job)) ∧ s'.view = s.view ∧
        s'.names = s.names := by
  refine yields_view ((yields_lockFirst s).mono fun found s' h => ?_)
  obtain ⟨hfound, hs'⟩ := h
  rw [findSome_oldest] at hfound
  refine ⟨hfound, ?_, ?_⟩
  · rw [hs']
    rfl
  · rw [hs']

theorem yields_now {s : Alone Database Write Lock} {β : Type} {f : ℤ → Task β}
    {K : β → Alone Database Write Lock → Prop} (h : Yields ans (f s.view.clock) s K) :
    Yields ans (Task.now >>= f) s K := h

section
variable (hans : Quiet ans) {s : Alone Database Write Lock} (hs : s.view = s.db) {id : ℕ}
  {job : ExportJob} (hrow : s.db.job id = some job)
include hans hs hrow

theorem yields_reapExpiredExhaustedJobs :
    Yields ans (ExportJobService.reapExpiredExhaustedJobs 1 (some id)) s fun _ => AtRest fun d n =>
      d = (if job.reapable s.db.clock then s.db.putJob id job.reaped else s.db) ∧
        n = s.names := by
  have next : Yields ans (ExportJobService.reapNext (some id)) s fun _ => AtRest fun d n =>
      d = (if job.reapable s.db.clock then s.db.putJob id job.reaped else s.db) ∧
        n = s.names := by
    refine yields_now ?_
    rw [hs]
    refine yields_inTransaction hans ?_
    refine (yields_selectNext _ id).bind fun found s' hs' => ?_
    obtain ⟨hfound, hview, hnames⟩ := hs'
    rw [Alone.answered_view, hs] at hfound hview
    have hselect : s.db.select (·.reapable s.db.clock) id =
        if job.reapable s.db.clock then some job else none := by
      rw [Database.select, hrow]
      rfl
    rw [hselect] at hfound
    by_cases hreapable : job.reapable s.db.clock = true
    · rw [if_pos hreapable, Option.map_some] at hfound
      rw [hfound, if_pos hreapable]
      refine yields_emit (yields_pure ⟨?_, hnames⟩)
      rw [Alone.push_view, hview]
      rfl
    · rw [if_neg hreapable, Option.map_none] at hfound
      rw [hfound, if_neg hreapable]
      exact yields_pure ⟨hview, hnames⟩
  refine next.bind fun found s' hs' => ?_
  cases found <;> exact yields_pure hs'

theorem yields_claim {workerId : ℕ} {leaseDuration : ℤ} (hpositive : 0 < leaseDuration)
    (respectRetrySchedule : Bool) :
    Yields ans (ExportJobService.claim workerId leaseDuration (some id) respectRetrySchedule) s
      fun _ => AtRest fun d _ => d.job id = some
        (if job.ready s.db.clock respectRetrySchedule then
          job.claimed s.db.clock leaseDuration workerId s.names else job) := by
  unfold ExportJobService.claim
  rw [if_neg (by omega)]
  refine yields_now ?_
  rw [hs]
  refine yields_inTransaction hans ?_
  refine (yields_selectNext _ id).bind fun found s' hs' => ?_
  obtain ⟨hfound, hview, hnames⟩ := hs'
  rw [Alone.answered_view, hs] at hfound hview
  have hselect : s.db.select (·.ready s.db.clock respectRetrySchedule) id =
      if job.ready s.db.clock respectRetrySchedule then some job else none := by
    rw [Database.select, hrow]
    rfl
  rw [hselect] at hfound
  by_cases hready : job.ready s.db.clock respectRetrySchedule = true
  · rw [if_pos hready, Option.map_some] at hfound
    rw [hfound, if_pos hready]
    refine yields_draw (yields_emit (yields_emit (yields_pure ?_)))
    have hnames : s'.names = s.names := hnames
    rw [Alone.push_view, hnames]
    exact Database.job_putJob _ _ _
  · rw [if_neg hready, Option.map_none] at hfound
    rw [hfound, if_neg hready]
    exact yields_pure (by rw [hview]; exact hrow)

/-- A call for a due job gives it a fresh token, or fails it when its attempts are used up. -/
theorem yields_claimJob {workerId : ℕ} {leaseDuration : ℤ} (hformed : job.WellFormed)
    (hdue : job.Due s.db.clock) (hpositive : 0 < leaseDuration) :
    Yields ans (ExportJobService.claimJob id workerId leaseDuration true) s fun _ => AtRest fun d _ =>
      ∃ job', d.job id = some job' ∧ (job'.status = .failed ∨
        job'.status = .processing ∧ job'.leaseToken = some s.names) := by
  refine (yields_reapExpiredExhaustedJobs hans hs hrow).bind fun _ s' hs' => ?_
  obtain ⟨⟨hdb, hnames⟩, hview⟩ := hs'
  by_cases hreapable : job.reapable s.db.clock = true
  · rw [if_pos hreapable] at hdb
    have hrow' : s'.db.job id = some job.reaped := by
      rw [hdb]
      exact Database.job_putJob _ _ _
    refine (yields_claim hans hview hrow' hpositive true).mono fun _ s'' hs'' => ?_
    have hready : job.reaped.ready s'.db.clock true = false := rfl
    rw [hready] at hs''
    exact ⟨⟨_, hs''.1, Or.inl rfl⟩, hs''.2⟩
  · rw [if_neg hreapable] at hdb
    have hready : job.ready s.db.clock true = true :=
      (hformed.due hdue).resolve_right hreapable
    rw [← hdb] at hrow hready
    refine (yields_claim hans hview hrow hpositive true).mono fun _ s'' hs'' => ?_
    rw [if_pos hready, hnames] at hs''
    exact ⟨⟨_, hs''.1, Or.inr ⟨rfl, rfl⟩⟩, hs''.2⟩

end
end

/-- Every reachable row is well formed. An open job that is due can be claimed or reaped: a claim
of it that runs alone gives it to the worker or fails it. A step continues every job as
`Continues` says. -/
theorem export_lifecycle : exportCalls.Invariant fun w =>
    (∀ id job, w.db.job id = some job → job.WellFormed ∧
      (∀ now, job.Due now → job.ready now true ∨ job.reapable now) ∧
      (job.status.isOpen → ∃ since, ∀ now, since ≤ now → job.Due now) ∧
      ∀ ans workerId leaseDuration, Quiet ans → 0 < leaseDuration → job.Due w.db.clock →
        Yields ans (ExportJobService.claimJob id workerId leaseDuration true)
          { db := w.db, names := w.names } fun _ => AtRest fun d _ =>
            ∃ job', d.job id = some job' ∧ (job'.status = .failed ∨
              job'.status = .processing ∧ job'.leaseToken = some w.names)) ∧
    ∀ l w', exportCalls.Step w l w' → ∀ id job, w.db.job id = some job →
      ∃ job', w'.db.job id = some job' ∧ Continues w.db w'.db l id job job' := by
  intro w hw
  have hok := exportCalls_ok w hw
  refine ⟨fun id job hjob => ?_, fun l w' hstep id job hjob => ?_⟩
  · have hformed := hok.inv.rows id job hjob
    refine ⟨hformed, fun now => hformed.due, ExportJob.due_eventually,
      fun ans workerId leaseDuration hans hpositive hdue => ?_⟩
    exact yields_claimJob hans rfl hjob hformed hdue hpositive
  · have hformed := hok.inv.rows id job hjob
    rcases hok.commit_step hstep with hdb | ⟨i, held, owned, hl, hcommit⟩
    · exact ⟨job, by rw [hdb]; exact hjob, hformed.continues⟩
    · obtain ⟨job', hjob', hchange⟩ := hcommit id job hjob
      exact ⟨job', hjob', hl ▸ hchange.continues hformed⟩

end Quantive.Exports
