import Mathlib.Data.List.Induction
import Quantive.ReadCommitted.Tally
import Quantive.Candles.BatchesAlone
import Quantive.Candles.DurableWorkers

/-!
# Merge retries

The attempts on the staged candles of a day. The row of a day is changed only by a session that
locked it, in one of the ways of `MergeEdit`; the retry count of the row then counts the attempts
that failed, until a scheduling pass opens a FAILED row again.
-/

namespace Quantive.Candles
open Quantive.ReadCommitted Prog Protocol

/-! ### The row of a day -/

/-- What a statement makes of the row of a job. -/
inductive MergeEdit (job : HistoricalMergeJob) : HistoricalMergeJob → Prop
  | claimed (c : Claim) : job.status = .pending ∨ job.status = .processing →
      MergeEdit job (mergeJobs.claimed c job)
  | renewed (c : Claim) : job.status = .processing → MergeEdit job (mergeJobs.renewed c job)
  | completed : job.status = .processing → MergeEdit job { job with
      status := .completed, claim := none, nextAttemptAt := none, errorCategory := none }
  | failed (error : Failure) (now : ℤ) : job.status = .processing →
      MergeEdit job (job.failed error now)
  | reopened : job.status = .completed ∨ job.status = .failed → MergeEdit job job.reopened

theorem HistoricalMergeJob.failed_days (error : Failure) (now : ℤ) (job : HistoricalMergeJob) :
    (job.failed error now).dayBucket = job.dayBucket ∧
      (job.failed error now).maxRetries = job.maxRetries := by
  unfold HistoricalMergeJob.failed
  dsimp only
  split <;> exact ⟨rfl, rfl⟩

theorem MergeEdit.dayBucket {job job' : HistoricalMergeJob} (h : MergeEdit job job') :
    job'.dayBucket = job.dayBucket := by
  cases h with
  | failed error now hstatus => exact (job.failed_days error now).1
  | _ => rfl

namespace Database

/-- The unique index on `day_bucket`. -/
def OneJobADay (d : Database) : Prop :=
  ∀ id id' job job', d.mergeJobs.lookup id = some job → d.mergeJobs.lookup id' = some job' →
    job.dayBucket = job'.dayBucket → id = id'

def mergeJobOf (d : Database) (dayBucket : ℤ) : Option HistoricalMergeJob :=
  (d.mergeJobs.entries.find? fun e => e.2.dayBucket = dayBucket).map (·.2)

theorem mergeJobOf_eq_none {d : Database} {dayBucket : ℤ} : d.mergeJobOf dayBucket = none ↔
    ∀ id job, d.mergeJobs.lookup id = some job → job.dayBucket ≠ dayBucket := by
  rw [mergeJobOf, Option.map_eq_none_iff, List.find?_eq_none]
  constructor
  · intro h id job hjob hday
    have he := h _ (AList.mem_lookup_iff.mp hjob)
    exact he (decide_eq_true hday)
  · intro h e he hday
    exact h e.1 e.2 (AList.mem_lookup_iff.mpr he) (of_decide_eq_true hday)

theorem mergeJobOf_eq_some {d : Database} (hd : d.OneJobADay) {dayBucket : ℤ}
    {job : HistoricalMergeJob} : d.mergeJobOf dayBucket = some job ↔
      ∃ id, d.mergeJobs.lookup id = some job ∧ job.dayBucket = dayBucket := by
  constructor
  · intro h
    obtain ⟨e, he, rfl⟩ := Option.map_eq_some_iff.mp h
    have hmem := List.mem_of_find?_eq_some he
    have hday : e.2.dayBucket = dayBucket := by simpa using List.find?_some he
    exact ⟨e.1, AList.mem_lookup_iff.mpr hmem, hday⟩
  · rintro ⟨id, hjob, hday⟩
    cases hfound : d.mergeJobOf dayBucket with
    | none => exact (mergeJobOf_eq_none.mp hfound id job hjob hday).elim
    | some job' =>
      obtain ⟨e, he, rfl⟩ := Option.map_eq_some_iff.mp hfound
      have hmem : d.mergeJobs.lookup e.1 = some e.2 :=
        AList.mem_lookup_iff.mpr (List.mem_of_find?_eq_some he)
      have hday' : e.2.dayBucket = dayBucket := by simpa using List.find?_some he
      have hid := hd e.1 id e.2 job hmem hjob (hday'.trans hday.symm)
      rw [hid, hjob] at hmem
      exact hmem.symm

end Database

/-! ### The rows under pending writes -/

def Write.mergeRow (id : ℕ) : Write → Option HistoricalMergeJob
  | putMergeJob k job => if k = id then some job else none
  | _ => none

/-- The write leaves the merge jobs alone. -/
def Write.Mergeless (w : Write) : Prop := ∀ id, w.mergeRow id = none

/-- The row that the last of the writes to it leaves. -/
def logged (ws : List Write) (id : ℕ) : Option HistoricalMergeJob :=
  ws.foldl (fun row w => (w.mergeRow id).or row) none

theorem lookup_apply (w : Write) (d : Database) (id : ℕ) :
    (Store.apply w d).mergeJobs.lookup id = (w.mergeRow id).or (d.mergeJobs.lookup id) := by
  cases w with
  | putMergeJob k job =>
    change (d.mergeJobs.insert k job).lookup id = (if k = id then some job else none).or _
    by_cases hk : k = id
    · subst hk
      rw [AList.lookup_insert, if_pos rfl]
      rfl
    · rw [AList.lookup_insert_ne (Ne.symm hk), if_neg hk]
      rfl
  | _ => rfl

theorem logged_push (ws : List Write) (w : Write) (id : ℕ) :
    logged (ws ++ [w]) id = (w.mergeRow id).or (logged ws id) := by
  rw [logged, List.foldl_append]
  rfl

theorem lookup_view (c : Ctx Write Lock) (d : Database) (id : ℕ) :
    (c.view d).mergeJobs.lookup id = (logged c.log id).or (d.mergeJobs.lookup id) := by
  obtain ⟨held, owned, log⟩ := c
  show (log.foldl (fun d w => Store.apply w d) d).mergeJobs.lookup id = _
  induction log using List.reverseRecOn with
  | nil => rfl
  | append_singleton ws w ih =>
    have happly := lookup_apply w (ws.foldl (fun d w => Store.apply w d) d) id
    rw [ih] at happly
    rw [List.foldl_append, logged_push, Option.or_assoc]
    exact happly

/-! ### What a session may put -/

inductive MergePut (held : List Lock) (owned : List ℕ) (d : Database) (id : ℕ)
    (job' : HistoricalMergeJob) : Prop
  | insert (createdAt : ℤ) : id ∈ owned → d.mergeJobs.lookup id = none →
      Lock.mergeDay job'.dayBucket ∈ held → d.mergeJobOf job'.dayBucket = none →
      job' = { dayBucket := job'.dayBucket, createdAt := createdAt } →
      MergePut held owned d id job'
  | edit {job : HistoricalMergeJob} : Lock.mergeJob id ∈ held →
      d.mergeJobs.lookup id = some job → MergeEdit job job' → MergePut held owned d id job'

/-- What the others leave alone: locked rows, locked days, and the names that a session drew. -/
structure MergeRely (held : List Lock) (owned : List ℕ) (d d' : Database) : Prop where
  locked : ∀ id job, Lock.mergeJob id ∈ held → d.mergeJobs.lookup id = some job →
    d'.mergeJobs.lookup id = some job
  days : ∀ dayBucket, Lock.mergeDay dayBucket ∈ held → d.mergeJobOf dayBucket = none →
    d'.mergeJobOf dayBucket = none
  absent : ∀ id ∈ owned, d.mergeJobs.lookup id = none → d'.mergeJobs.lookup id = none

def dailyRows : Protocol ℕ Database Lock where
  Inv := Database.OneJobADay
  Rely _ := MergeRely
  Unused n d := d.mergeJobs.lookup n = none
  Commit _ held owned d d' := ∀ id, d'.mergeJobs.lookup id = d.mergeJobs.lookup id ∨
    ∃ job', d'.mergeJobs.lookup id = some job' ∧ MergePut held owned d id job'
  rely_refl _ _ _ _ := ⟨fun _ _ _ h => h, fun _ _ h => h, fun _ _ h => h⟩
  rely_trans _ _ _ _ _ _ h h' :=
    ⟨fun id job hl hj => h'.locked id job hl (h.locked id job hl hj),
      fun dayBucket hl hd => h'.days dayBucket hl (h.days dayBucket hl hd),
      fun id ho hn => h'.absent id ho (h.absent id ho hn)⟩
  commit_refl _ _ _ _ _ := Or.inl rfl

section
variable {i : ℕ} {held held' : List Lock} {owned owned' : List ℕ} {c : Ctx Write Lock}
  {d d' : Database} {id : ℕ} {job job' : HistoricalMergeJob}

theorem MergePut.mono (h : MergePut held owned d id job') (hheld : ∀ l ∈ held, l ∈ held')
    (howned : ∀ n ∈ owned, n ∈ owned') (hrely : MergeRely held owned d d') :
    MergePut held' owned' d' id job' := by
  cases h with
  | insert createdAt hid hnone hlock hday heq =>
    exact .insert createdAt (howned _ hid) (hrely.absent _ hid hnone) (hheld _ hlock)
      (hrely.days _ hlock hday) heq
  | edit hlock hjob hedit => exact .edit (hheld _ hlock) (hrely.locked _ _ hlock hjob) hedit

/-- No write to a merge job is pending. -/
def Untouched (c : Ctx Write Lock) (d : Database) : Prop :=
  (∀ id, logged c.log id = none) ∧ d.OneJobADay

/-- The pending writes to merge jobs may be committed. -/
structure MayPut (c : Ctx Write Lock) (d : Database) : Prop where
  puts : ∀ id job, logged c.log id = some job → MergePut c.held c.owned d id job
  days : (c.view d).OneJobADay

theorem Untouched.lookup (h : Untouched c d) (id : ℕ) :
    (c.view d).mergeJobs.lookup id = d.mergeJobs.lookup id := by
  rw [lookup_view, h.1 id]
  rfl

theorem Untouched.mayPut (h : Untouched c d) : MayPut c d where
  puts id job hjob := by
    rw [h.1 id] at hjob
    cases hjob
  days id id' job job' hjob hjob' := by
    rw [h.lookup] at hjob hjob'
    exact h.2 id id' job job' hjob hjob'

theorem Untouched.push {w : Write} (h : Untouched c d) (hw : w.Mergeless) :
    Untouched (c.push w) d := by
  refine ⟨fun id => ?_, h.2⟩
  rw [Ctx.push_log, logged_push, hw id, h.1 id]
  rfl

theorem MayPut.stable (h : MayPut c d) (he : dailyRows.Env i c d d') : MayPut c d' where
  puts id job hjob := (h.puts id job hjob).mono (fun _ hl => hl) (fun _ hn => hn) he.1
  days := by
    -- a row of the session and one of the others are on different days
    have hmixed : ∀ id id' job job', logged c.log id = some job →
        d'.mergeJobs.lookup id' = some job' → job.dayBucket = job'.dayBucket → id = id' := by
      intro id id' job job' hjob hjob' hday
      cases (h.puts id job hjob).mono (fun _ hl => hl) (fun _ hn => hn) he.1 with
      | insert createdAt _ _ _ hnone _ =>
        exact (Database.mergeJobOf_eq_none.mp hnone id' job' hjob' hday.symm).elim
      | edit _ hold hedit => exact he.2 id id' _ job' hold hjob' (hedit.dayBucket.symm.trans hday)
    intro id id' job job' hjob hjob' hday
    rw [lookup_view, Option.or_eq_some_iff] at hjob hjob'
    rcases hjob with hjob | ⟨_, hjob⟩ <;> rcases hjob' with hjob' | ⟨_, hjob'⟩
    · refine h.days id id' job job' ?_ ?_ hday
      · rw [lookup_view, hjob]
        rfl
      · rw [lookup_view, hjob']
        rfl
    · exact hmixed id id' job job' hjob hjob' hday
    · exact (hmixed id' id job' job hjob' hjob hday.symm).symm
    · exact he.2 id id' job job' hjob hjob' hday

theorem MayPut.commit (h : MayPut c d) (id : ℕ) :
    (c.view d).mergeJobs.lookup id = d.mergeJobs.lookup id ∨
      ∃ job', (c.view d).mergeJobs.lookup id = some job' ∧ MergePut c.held c.owned d id job' := by
  rw [lookup_view]
  cases hjob : logged c.log id with
  | none => exact Or.inl rfl
  | some job => exact Or.inr ⟨job, rfl, h.puts id job hjob⟩

theorem MayPut.absent (h : MayPut c d) (hid : id ∉ c.owned) (hnone : d.mergeJobs.lookup id = none) :
    (c.view d).mergeJobs.lookup id = none := by
  rcases h.commit id with hsame | ⟨job', _, hput⟩
  · rw [hsame]
    exact hnone
  · cases hput with
    | insert _ hid' => exact (hid hid').elim
    | edit _ hsome =>
      rw [hnone] at hsome
      cases hsome

theorem MayPut.guar (h : MayPut c d) : dailyRows.Guar i c d (c.view d) where
  inv := h.days
  rely j _ held owned hheld howned := by
    constructor
    · intro id job hlock hjob
      rcases h.commit id with hsame | ⟨job', _, hput⟩
      · rw [hsame]
        exact hjob
      · cases hput with
        | insert _ _ hnone =>
          rw [hnone] at hjob
          cases hjob
        | edit hl => exact (hheld _ hlock hl).elim
    · intro dayBucket hlock hnone
      rw [Database.mergeJobOf_eq_none] at hnone ⊢
      intro id job hjob hday
      rcases h.commit id with hsame | ⟨job', hjob', hput⟩
      · rw [hsame] at hjob
        exact hnone id job hjob hday
      · rw [hjob] at hjob'
        cases hjob'
        cases hput with
        | insert _ _ _ hl =>
          rw [hday] at hl
          exact hheld _ hlock hl
        | edit _ hold hedit => exact hnone id _ hold (hedit.dayBucket.symm.trans hday)
    · intro id hid hnone
      exact h.absent (howned id hid) hnone
  unused n hn hnone := h.absent hn hnone
  commit := h.commit

/-! ### Sessions between transactions -/

theorem untouched_inv (i : ℕ) : dailyRows.SessionInv i Untouched where
  stable _ _ _ h he := ⟨h.1, he.2⟩
  hold _ _ _ h := h
  own _ _ _ h _ _ := h
  commit _ _ h := ⟨h.mayPut.guar, fun _ => rfl, h.mayPut.days⟩
  rollback _ _ h := ⟨fun _ => rfl, h.2⟩

end

section
variable {i : ℕ} {O : (q : Question) → Answer q → Prop} {α : Type}

theorem keeps_mergeless {p : Task α} (hp : p.Emits O Write.Mergeless fun _ => True) :
    dailyRows.Keeps O i Untouched p :=
  (untouched_inv i).keeps_of_emits (fun _ hw _ _ h => h.push hw) hp

/-- The rule of a transaction that puts rows. -/
theorem keeps_putting {body : Task α}
    (hbody : dailyRows.Triple O i Untouched Untouched body fun _ => MayPut) :
    dailyRows.Keeps O i Untouched (Task.inTransaction body) := by
  have hconnection : dailyRows.Keeps O i Untouched Task.connection :=
    keeps_mergeless (emits_connection allQuestions)
  refine hconnection.bind fun _ => Keeps.bind ?_ fun result =>
    hconnection.bind fun _ => triple_pure fun _ _ h => h
  refine (untouched_inv i).transaction hbody fun _ c d d' h he => ?_
  have hput := h.stable he
  exact ⟨hput.guar, fun _ => rfl, hput.days⟩

/-- The row of a job, locked, before the session put one. -/
structure RowOf (id : ℕ) (job : HistoricalMergeJob) (c : Ctx Write Lock) (d : Database) : Prop where
  untouched : Untouched c d
  locked : Lock.mergeJob id ∈ c.held
  row : d.mergeJobs.lookup id = some job

variable {id : ℕ} {job job' : HistoricalMergeJob} {c : Ctx Write Lock} {d d' : Database}

theorem RowOf.stable (h : RowOf id job c d) (he : dailyRows.Env i c d d') : RowOf id job c d' :=
  ⟨⟨h.untouched.1, he.2⟩, h.locked, he.1.locked _ _ h.locked h.row⟩

theorem RowOf.hold (h : RowOf id job c d) (l : Lock) : RowOf id job (c.hold l) d :=
  ⟨h.untouched, List.mem_cons_of_mem _ h.locked, h.row⟩

theorem logged_put (ws : List Write) (id k : ℕ) (job : HistoricalMergeJob) :
    logged (ws ++ [.putMergeJob id job]) k = if id = k then some job else logged ws k := by
  rw [logged_push]
  show (if id = k then some job else none).or (logged ws k) = _
  split <;> rfl

/-- A row that is put on the day of the row it replaces. -/
theorem MayPut.edit (h : MayPut c d) (hlock : Lock.mergeJob id ∈ c.held)
    (hrow : d.mergeJobs.lookup id = some job) (hview : (c.view d).mergeJobs.lookup id = some job)
    (hedit : MergeEdit job job') : MayPut (c.push (.putMergeJob id job')) d where
  puts k after hafter := by
    rw [Ctx.push_log, logged_put] at hafter
    split at hafter
    · rename_i hk
      cases hafter
      subst hk
      exact .edit hlock hrow hedit
    · exact h.puts k after hafter
  days := by
    -- every row of the view was there, and on the same day
    have hbefore : ∀ k after, ((c.push (.putMergeJob id job')).view d).mergeJobs.lookup k =
        some after → ∃ before, (c.view d).mergeJobs.lookup k = some before ∧
          before.dayBucket = after.dayBucket := by
      intro k after hafter
      rw [Ctx.view_push, lookup_apply] at hafter
      by_cases hk : id = k
      · subst hk
        simp only [Write.mergeRow, if_true, Option.some_or, Option.some.injEq] at hafter
        exact ⟨job, hview, hafter ▸ hedit.dayBucket.symm⟩
      · simp only [Write.mergeRow, if_neg hk, Option.none_or] at hafter
        exact ⟨after, hafter, rfl⟩
    intro k k' after after' hafter hafter' hday
    obtain ⟨before, hb, heq⟩ := hbefore k after hafter
    obtain ⟨before', hb', heq'⟩ := hbefore k' after' hafter'
    exact h.days k k' before before' hb hb' (heq.trans (hday.trans heq'.symm))

theorem RowOf.mayPut (h : RowOf id job c d) (hedit : MergeEdit job job') :
    MayPut (c.push (.putMergeJob id job')) d :=
  h.untouched.mayPut.edit h.locked h.row (h.untouched.lookup id ▸ h.row) hedit

/-! ### Statements on the row of a job -/

variable {J : Ctx Write Lock → Database → Prop}

theorem triple_lockMergeRow {row : Database → ℕ → Option HistoricalMergeJob}
    (hrow : ∀ d job, row d id = some job → d.mergeJobs.lookup id = some job) :
    dailyRows.Triple O i J Untouched (Task.lockRows Lock.mergeJob row 1 [id]) fun rows c d =>
      Untouched c d ∧ ∀ r ∈ rows, r.1 = id ∧ RowOf id r.2 c d ∧ ∃ s, row s id = some r.2 := by
  rw [lockRows_one]
  refine Triple.seq (fun _ c d => Untouched c d ∧ Lock.mergeJob id ∈ c.held)
    (triple_acquire fun c d d' h he => ⟨⟨h.1, he.2⟩, List.mem_cons_self⟩) fun _ => ?_
  refine Triple.seq (fun s c d => (Untouched c d ∧ Lock.mergeJob id ∈ c.held) ∧ s = c.view d)
    (triple_look fun c d d' h he => ⟨⟨h.1.1, he.2⟩, h.2⟩) fun s => ?_
  cases hs : row s id with
  | none => exact triple_pure fun c d h => ⟨h.1.1, fun r hr => by cases hr⟩
  | some job =>
    refine triple_pure fun c d h => ⟨h.1.1, fun r hr => ?_⟩
    rw [List.mem_singleton] at hr
    subst hr
    have hlookup := hrow s job hs
    rw [h.2, h.1.1.lookup] at hlookup
    exact ⟨rfl, ⟨h.1.1, h.1.2, hlookup⟩, s, hs⟩

theorem select_mergeJob {s : Database} {condition : HistoricalMergeJob → Bool}
    (h : mergeJobs.select s condition id = some job) :
    s.mergeJobs.lookup id = some job ∧ condition job = true :=
  Option.filter_eq_some_iff.mp h

theorem owned_processing {now : ℤ} {workerId leaseToken : ℕ}
    (h : mergeJobs.owned now workerId leaseToken job = true) :
    job.status = .processing ∧ ∃ cl, job.claim = some cl := by
  simp only [JobTable.owned, Bool.and_eq_true, Option.any_eq_true] at h
  obtain ⟨hprocessing, cl, hclaim, _⟩ := h
  exact ⟨of_decide_eq_true hprocessing, cl, hclaim⟩

theorem triple_updateMergeJob {now : ℤ} {jobId workerId leaseToken : ℕ}
    {change : HistoricalMergeJob → HistoricalMergeJob}
    (hchange : ∀ job, job.status = .processing → (∃ cl, job.claim = some cl) →
      MergeEdit job (change job)) :
    dailyRows.Triple O i J Untouched (mergeJobs.updateOwned now jobId workerId leaseToken change)
      fun _ => MayPut := by
  refine Triple.bind (triple_view (K := fun _ => Untouched) fun c d d' h he =>
    ⟨h.1, he.2⟩) fun s => ?_
  dsimp only
  cases mergeJobs.select s (mergeJobs.owned now workerId leaseToken) jobId with
  | none => exact triple_pure fun _ _ h => h.mayPut
  | some _ =>
    refine Triple.seq (fun _ c d => Untouched c d ∧ Lock.mergeJob jobId ∈ c.held)
      (triple_acquire fun c d d' h he => ⟨⟨h.1, he.2⟩, List.mem_cons_self⟩) fun _ => ?_
    refine Triple.seq (fun s c d => (Untouched c d ∧ Lock.mergeJob jobId ∈ c.held) ∧ s = c.view d)
      (triple_look fun c d d' h he => ⟨⟨h.1.1, he.2⟩, h.2⟩) fun s => ?_
    cases hs : mergeJobs.select s (mergeJobs.owned now workerId leaseToken) jobId with
    | none => exact triple_pure fun _ _ h => h.1.1.mayPut
    | some job =>
      refine Triple.seq (fun _ => MayPut) (triple_emit fun c d h => ?_) fun _ =>
        triple_pure fun _ _ h => h
      obtain ⟨hlookup, howned⟩ := select_mergeJob hs
      rw [h.2, h.1.1.lookup] at hlookup
      obtain ⟨hprocessing, hclaim⟩ := owned_processing howned
      exact RowOf.mayPut ⟨h.1.1, h.1.2, hlookup⟩ (hchange job hprocessing hclaim)

theorem keeps_mergeHeartbeat (jobId workerId leaseToken : ℕ) (leaseDuration : ℤ) (renewals : ℕ) :
    dailyRows.Keeps O i Untouched
      (mergeJobs.heartbeatLoop jobId workerId leaseToken leaseDuration renewals) := by
  induction renewals with
  | zero => exact triple_pure fun _ _ h => h
  | succ renewals ih =>
    refine Keeps.bind (keeps_mergeless (emits_now allQuestions)) fun now => ?_
    refine Keeps.bind (Keeps.attempt (keeps_putting (triple_updateMergeJob
      fun job hstatus hclaim => ?_))) fun renewed => ?_
    · obtain ⟨cl, hclaim⟩ := hclaim
      have hrenewed : mergeJobs.renewLease now leaseDuration job =
          mergeJobs.renewed { cl with leaseExpiresAt := now + leaseDuration } job := by
        have hclaim' : mergeJobs.claim job = some cl := hclaim
        rw [JobTable.renewLease, hclaim']
      rw [hrenewed]
      exact .renewed _ hstatus
    · split
      · exact ih
      · exact triple_pure fun _ _ h => h

theorem keeps_recordMergeFailure (jobId workerId leaseToken : ℕ) (error : Failure) :
    dailyRows.Keeps O i Untouched (mergeJobs.recordFailure jobId workerId leaseToken
      (HistoricalMergeJob.failed error)) := by
  refine Keeps.bind (keeps_mergeless (emits_now allQuestions)) fun now => keeps_putting ?_
  refine Triple.bind (triple_lockMergeRow fun _ _ h => h) fun rows => ?_
  cases rows with
  | nil => exact triple_pure fun _ _ h => h.1.mayPut
  | cons r rest =>
    obtain ⟨k, job⟩ := r
    dsimp only
    split
    · rename_i howned
      refine triple_emit fun c d h => ?_
      obtain ⟨hk, hrow, _⟩ := h.2 (k, job) List.mem_cons_self
      dsimp only at hk
      subst hk
      exact hrow.mayPut (.failed error now (owned_processing howned).1)
    · exact triple_pure fun _ _ h => h.1.mayPut

theorem keeps_claimMergeJob (workerId : ℕ) (leaseDuration : ℤ) (respectRetrySchedule : Bool) :
    dailyRows.Keeps O i Untouched
      (mergeJobs.claimNext workerId leaseDuration respectRetrySchedule) := by
  unfold JobTable.claimNext
  split
  · exact triple_raise fun _ _ h => h
  · refine Keeps.bind (keeps_mergeless (emits_now allQuestions)) fun now => keeps_putting ?_
    refine Triple.bind (triple_view (K := fun _ => Untouched) fun c d d' h he =>
      ⟨h.1, he.2⟩) fun s => ?_
    refine Triple.bind (triple_lockRowsSkip
      (I := fun rows c d => Untouched c d ∧ ∀ r ∈ rows, RowOf r.1 r.2 c d ∧
        mergeJobs.ready now respectRetrySchedule r.2 = true)
      (fun rows c d d' h he => ⟨⟨h.1.1, he.2⟩, fun r hr =>
        ⟨(h.2 r hr).1.stable he, (h.2 r hr).2⟩⟩)
      (fun rows l c d h => ⟨h.1, fun r hr => ⟨(h.2 r hr).1.hold l, (h.2 r hr).2⟩⟩)
      (fun rows k c d r h hk hr => ⟨h.1, fun x hx => ?_⟩) 1 _ [] |>.pre
        fun c d h => ⟨h, fun r hr => by cases hr⟩) fun found => ?_
    · rcases List.mem_append.mp hx with hx | hx
      · exact h.2 x hx
      · rw [List.mem_singleton] at hx
        subst hx
        obtain ⟨hlookup, hready⟩ := select_mergeJob hr
        rw [h.1.lookup] at hlookup
        exact ⟨⟨h.1, hk, hlookup⟩, hready⟩
    · obtain ⟨rows, complete⟩ := found
      cases rows with
      | nil => exact triple_pure fun _ _ h => h.2.1.mayPut
      | cons r rest =>
        obtain ⟨k, job⟩ := r
        refine Triple.seq (fun _ => fun c d => RowOf k job c d ∧
          mergeJobs.ready now respectRetrySchedule job = true)
          (triple_draw fun c d d' n h he _ _ => ?_) fun leaseToken => ?_
        · obtain ⟨hrow, hready⟩ := h.2.2 (k, job) List.mem_cons_self
          have hnow := hrow.stable he
          exact ⟨⟨hnow.untouched, hnow.locked, hnow.row⟩, hready⟩
        · refine Triple.seq (fun _ => fun c d => RowOf k job c d ∧
            mergeJobs.ready now respectRetrySchedule job = true)
            (triple_emit fun c d h => ⟨⟨h.1.untouched.push fun _ => rfl, h.1.locked, h.1.row⟩,
              h.2⟩) fun _ => ?_
          refine Triple.seq (fun _ => MayPut) (triple_emit fun c d h => ?_) fun _ =>
            triple_pure fun _ _ h => h
          refine h.1.mayPut (.claimed _ ?_)
          have hready := h.2
          simp only [JobTable.ready, Bool.or_eq_true, Bool.and_eq_true] at hready
          exact hready.imp (fun h => of_decide_eq_true h.1) fun h => of_decide_eq_true h.1

end

/-! ### The scheduling pass -/

section
variable {i : ℕ} {O : (q : Question) → Answer q → Prop}
  {J : Ctx Write Lock → Database → Prop} {c : Ctx Write Lock} {d d' : Database}

/-- A scheduling pass puts pending rows. -/
def Scheduling (c : Ctx Write Lock) (d : Database) : Prop :=
  MayPut c d ∧ ∀ id job, logged c.log id = some job → job.status = .pending

theorem Scheduling.stable (h : Scheduling c d) (he : dailyRows.Env i c d d') : Scheduling c d' :=
  ⟨h.1.stable he, h.2⟩

theorem Scheduling.hold (h : Scheduling c d) (l : Lock) : Scheduling (c.hold l) d :=
  ⟨⟨fun id job hjob => (h.1.puts id job hjob).mono (fun _ hl => List.mem_cons_of_mem _ hl)
    (fun _ hn => hn) (dailyRows.rely_refl 0 _ _ _), h.1.days⟩, h.2⟩

theorem Scheduling.own (h : Scheduling c d) (n : ℕ) : Scheduling (c.own n) d :=
  ⟨⟨fun id job hjob => (h.1.puts id job hjob).mono (fun _ hl => hl)
    (fun _ hn => List.mem_cons_of_mem _ hn) (dailyRows.rely_refl 0 _ _ _), h.1.days⟩, h.2⟩

/-- A day that the session does not see has no committed row. -/
theorem MayPut.unseen (h : MayPut c d) {dayBucket : ℤ}
    (hview : (c.view d).mergeJobOf dayBucket = none) : d.mergeJobOf dayBucket = none := by
  rw [Database.mergeJobOf_eq_none] at hview ⊢
  intro id job hjob hday
  rcases h.commit id with hsame | ⟨job', hjob', hput⟩
  · exact hview id job (hsame ▸ hjob) hday
  · cases hput with
    | insert _ _ hnone =>
      rw [hnone] at hjob
      cases hjob
    | edit _ hold hedit =>
      rw [hold] at hjob
      cases hjob
      exact hview id job' hjob' (hedit.dayBucket.trans hday)

theorem Scheduling.insert (h : Scheduling c d) {id : ℕ} {dayBucket : ℤ} (createdAt : ℤ)
    (hid : id ∈ c.owned) (hnone : d.mergeJobs.lookup id = none)
    (hlock : Lock.mergeDay dayBucket ∈ c.held)
    (hview : (c.view d).mergeJobOf dayBucket = none) :
    Scheduling (c.push (.putMergeJob id { dayBucket := dayBucket, createdAt := createdAt })) d := by
  have hunseen := Database.mergeJobOf_eq_none.mp hview
  refine ⟨⟨fun k job hjob => ?_, ?_⟩, fun k job hjob => ?_⟩
  · rw [Ctx.push_log, logged_put] at hjob
    split at hjob
    · rename_i hk
      cases hjob
      subst hk
      exact .insert createdAt hid hnone hlock (h.1.unseen hview) rfl
    · exact h.1.puts k job hjob
  · intro k k' job job' hjob hjob' hday
    rw [Ctx.view_push, lookup_apply] at hjob hjob'
    simp only [Write.mergeRow] at hjob hjob'
    split at hjob <;> split at hjob'
    · rename_i hk hk'
      exact hk.symm.trans hk'
    · cases hjob
      exact (hunseen k' job' hjob' hday.symm).elim
    · cases hjob'
      exact (hunseen k job hjob hday).elim
    · exact h.1.days k k' job job' hjob hjob' hday
  · rw [Ctx.push_log, logged_put] at hjob
    split at hjob
    · cases hjob
      rfl
    · exact h.2 k job hjob

theorem Scheduling.reopen (h : Scheduling c d) {id : ℕ} {job : HistoricalMergeJob}
    (hlock : Lock.mergeJob id ∈ c.held) (hview : (c.view d).mergeJobs.lookup id = some job)
    (hclosed : job.status = .completed ∨ job.status = .failed) :
    Scheduling (c.push (.putMergeJob id job.reopened)) d := by
  -- a row of the session itself is pending
  have hrow : d.mergeJobs.lookup id = some job := by
    have hseen := hview
    rw [lookup_view, Option.or_eq_some_iff] at hseen
    rcases hseen with hlog | ⟨_, hrow⟩
    · have hpending := h.2 id job hlog
      rw [hpending] at hclosed
      rcases hclosed with hc | hc <;> cases hc
    · exact hrow
  refine ⟨h.1.edit hlock hrow hview (.reopened hclosed), fun k after hafter => ?_⟩
  rw [Ctx.push_log, logged_put] at hafter
  split at hafter
  · cases hafter
    rfl
  · exact h.2 k after hafter

theorem triple_upsertMergeDay (dayBucket : ℤ) : dailyRows.Triple O i J Scheduling
    (upsertMergeDay dayBucket) fun _ => Scheduling := by
  refine Triple.seq (fun id c d => Scheduling c d ∧ id ∈ c.owned ∧
    d.mergeJobs.lookup id = none) (triple_draw fun c d d' n h he _ hn =>
      ⟨(h.stable he).own n, List.mem_cons_self, hn⟩) fun id => ?_
  refine Triple.bind (triple_query fun _ _ _ h _ => h) fun createdAt => ?_
  refine Triple.seq (fun _ c d => (Scheduling c d ∧ id ∈ c.owned ∧
      d.mergeJobs.lookup id = none) ∧ Lock.mergeDay dayBucket ∈ c.held)
    (triple_acquire fun c d d' h he => ⟨⟨(h.1.stable he).hold _, h.2.1,
      he.1.absent id h.2.1 h.2.2⟩, List.mem_cons_self⟩) fun _ => ?_
  refine Triple.bind (triple_look fun c d d' h he => ⟨⟨h.1.1.stable he, h.1.2.1,
    he.1.absent id h.1.2.1 h.1.2.2⟩, h.2⟩) fun s => ?_
  cases hfound : s.mergeJobs.entries.find? fun e => e.2.dayBucket = dayBucket with
  | none =>
    refine triple_emit fun c d h => ?_
    obtain ⟨⟨⟨hscheduling, hid, hnone⟩, hlock⟩, rfl⟩ := h
    refine hscheduling.insert createdAt hid hnone hlock ?_
    rw [Database.mergeJobOf, hfound]
    rfl
  | some e =>
    refine Triple.seq (fun _ c d => Scheduling c d ∧ Lock.mergeJob e.1 ∈ c.held)
      (triple_acquire fun c d d' h he => ⟨(h.1.1.1.stable he).hold _, List.mem_cons_self⟩)
      fun _ => ?_
    refine Triple.bind (triple_look fun c d d' h he => ⟨h.1.stable he, h.2⟩) fun s' => ?_
    cases hjob : s'.mergeJobs.lookup e.1 with
    | none => exact triple_pure fun _ _ h => h.1.1
    | some job =>
      show dailyRows.Triple O i J _ (if _ then _ else _) _
      split
      · rename_i hclosed
        refine triple_emit fun c d h => ?_
        obtain ⟨⟨hscheduling, hlock⟩, rfl⟩ := h
        exact hscheduling.reopen hlock hjob hclosed
      · exact triple_pure fun _ _ h => h.1.1

theorem keeps_scheduling (maxDays : ℕ) :
    dailyRows.Keeps O i Untouched (scheduleStagedDays maxDays) := by
  unfold scheduleStagedDays
  split
  · exact triple_raise fun _ _ h => h
  · refine keeps_putting (Triple.bind (triple_view (K := fun _ => Scheduling)
      fun c d d' h he => ?_) fun d => ?_)
    · have hput : MayPut c d' := (show Untouched c d' from ⟨h.1, he.2⟩).mayPut
      refine ⟨hput, fun id job hjob => ?_⟩
      rw [h.1 id] at hjob
      cases hjob
    · exact (Triple.forEach fun dayBucket _ => triple_upsertMergeDay dayBucket).post
        fun _ _ _ h => h.1

/-! ### The worker -/

theorem emits_compressionStatement {S : Write → Prop} (jobId workerId leaseToken : ℕ) :
    (compressionStatement jobId workerId leaseToken).Emits O S fun _ => True := by
  refine (emits_ownershipLost allQuestions).bind fun lost => ?_
  cases lost with
  | true => trivial
  | false =>
    refine (mergeJobs.emits_assertOwned allQuestions jobId workerId leaseToken).bind fun _ => ?_
    exact emits_connection allQuestions

theorem mergeless_of_candles {w : Write} (h : w.candles = true) : w.Mergeless := by
  cases w with
  | putMergeJob id job => cases h
  | _ => exact fun _ => rfl

theorem emits_mergeOnePage (dayBucket : ℤ) (pageSize jobId workerId leaseToken : ℕ) :
    (mergeOnePage dayBucket pageSize jobId workerId leaseToken).Emits O Write.Mergeless
      fun _ => True := by
  refine (emits_ownershipLost allQuestions).bind fun lost => ?_
  cases lost with
  | true => trivial
  | false =>
    refine emits_inTransaction allQuestions ?_
    refine (mergeJobs.emits_assertOwnedLocked allQuestions jobId workerId leaseToken).bind fun _ => ?_
    refine emits_view.bind fun d => Emits.bind (emits_lockRowsSkip _ _ _ _) fun found => ?_
    obtain ⟨rows, complete⟩ := found
    dsimp only
    split
    · trivial
    · refine (emits_ownershipLost allQuestions).bind fun lost => ?_
      cases lost with
      | true => trivial
      | false =>
        refine Emits.bind (Emits.forEach fun group _ => ?_) fun _ =>
          Emits.bind (Emits.forEach fun r _ => (emits_emit _).mpr fun _ => rfl) fun _ => trivial
        cases group with
        | nil => trivial
        | cons r rest =>
          exact (emits_commitRawBatchInTransaction allQuestions _ _).mono
            fun _ h => mergeless_of_candles h.batch.isCandles

theorem emits_mergePages (dayBucket : ℤ) (pageSize jobId workerId leaseToken fuel : ℕ) :
    (mergePages dayBucket pageSize jobId workerId leaseToken fuel).Emits O Write.Mergeless
      fun _ => True := by
  induction fuel with
  | zero => trivial
  | succ fuel ih =>
    refine (emits_ownershipLost allQuestions).bind fun lost => ?_
    cases lost with
    | true => trivial
    | false =>
      refine (emits_mergeOnePage dayBucket pageSize jobId workerId leaseToken).bind fun count => ?_
      split
      · trivial
      · exact ih

theorem emits_releaseGapJobs (maxJobs leaseToken : ℕ) :
    (releaseGapJobsWaitingForMerge maxJobs leaseToken).Emits O Write.Mergeless fun _ => True := by
  unfold releaseGapJobsWaitingForMerge
  split
  · trivial
  · refine emits_inTransaction allQuestions ?_
    refine emits_view.bind fun d => Emits.bind (emits_lockRowsSkip _ _ _ _) fun found => ?_
    obtain ⟨rows, complete⟩ := found
    refine Emits.bind (Emits.forEach fun r _ => ?_) fun _ => (emits_emit _).mpr fun _ => rfl
    refine emits_view.bind fun d => ?_
    split
    · trivial
    · exact (emits_now allQuestions).bind fun now => (emits_emit _).mpr fun _ => rfl

theorem keeps_completeMerge (dayBucket : ℤ) (jobId workerId leaseToken : ℕ) :
    dailyRows.Keeps O i Untouched (completeMergeJob dayBucket jobId workerId leaseToken) := by
  refine Keeps.bind (keeps_mergeless (emits_now allQuestions)) fun now => keeps_putting ?_
  refine Triple.bind (keeps_mergeless
    (mergeJobs.emits_assertOwnedLocked allQuestions jobId workerId leaseToken)) fun _ => ?_
  refine Triple.bind (keeps_mergeless emits_view) fun d => ?_
  split
  · exact triple_pure fun _ _ h => h.mayPut
  · have hschedule : (scheduleCaggRefreshJob dayBucket (dayBucket + day) (some "1d") false).Emits O
        Write.Mergeless fun _ => True := by
      refine (emits_scheduleCaggRefreshJobs allQuestions _ _ _ _).mono fun w hw => ?_
      cases w with
      | putMergeJob id job => exact hw.elim
      | _ => exact fun _ => rfl
    refine Triple.bind (keeps_mergeless hschedule) fun _ => ?_
    exact triple_updateMergeJob fun job hstatus _ => .completed hstatus

theorem keeps_attemptOnDay (p : MergeParameters) (dayBucket : ℤ)
    (jobId workerId leaseToken fuel : ℕ) : dailyRows.Keeps O i Untouched
      (mergeAttempt p dayBucket jobId workerId leaseToken fuel) := by
  refine Keeps.bind (keeps_mergeless (emits_compressionStatement _ _ _)) fun _ => ?_
  refine Keeps.bind (keeps_mergeless (emits_mergePages _ _ _ _ _ _)) fun _ => ?_
  refine Keeps.bind (keeps_mergeless (emits_compressionStatement _ _ _)) fun _ => ?_
  refine Keeps.bind (keeps_mergeless (emits_ownershipLost allQuestions)) fun lost => ?_
  cases lost with
  | true => exact triple_raise fun _ _ h => h
  | false =>
    refine Keeps.bind (keeps_completeMerge dayBucket jobId workerId leaseToken) fun done => ?_
    cases done with
    | true => exact keeps_mergeless (emits_releaseGapJobs 100 leaseToken)
    | false => exact triple_raise fun _ _ h => h

theorem keeps_processNextMergeJob (p : MergeParameters) (fuel : ℕ) :
    dailyRows.Keeps O i Untouched (processNextMergeJob p fuel) := by
  unfold processNextMergeJob
  split
  · exact triple_raise fun _ _ h => h
  · refine Keeps.bind (keeps_mergeless emits_draw) fun workerId => ?_
    refine Keeps.bind (keeps_claimMergeJob _ _ _) fun found => ?_
    cases found with
    | none => exact triple_pure fun _ _ h => h
    | some found =>
      obtain ⟨jobId, job, leaseToken⟩ := found
      refine Keeps.bind ?_ fun _ => triple_pure fun _ _ h => h
      refine Keeps.bind (Keeps.attempt (keeps_attemptOnDay p _ _ _ _ _)) fun result => ?_
      split
      · exact triple_pure fun _ _ h => h
      · exact triple_pure fun _ _ h => h
      · refine Keeps.bind (keeps_recordMergeFailure _ _ _ _) fun _ => ?_
        split
        · exact triple_raise fun _ _ h => h
        · exact triple_pure fun _ _ h => h

theorem keeps_processMergeJobs (p : MergeParameters) (fuel maxJobs : ℕ) :
    dailyRows.Keeps O i Untouched (processMergeJobs p fuel maxJobs) := by
  induction maxJobs with
  | zero => exact triple_pure fun _ _ h => h
  | succ maxJobs ih =>
    refine Keeps.bind (keeps_processNextMergeJob p fuel) fun claimed => ?_
    cases claimed with
    | true => exact ih
    | false => exact triple_pure fun _ _ h => h

theorem keeps_processAvailableJobs (maxJobs maxScheduleDays : ℕ) (p : MergeParameters) (fuel : ℕ) :
    dailyRows.Keeps O i Untouched (processAvailableJobs maxJobs maxScheduleDays p fuel) := by
  unfold processAvailableJobs
  split
  · exact triple_raise fun _ _ h => h
  · exact Keeps.bind (keeps_scheduling maxScheduleDays) fun _ => keeps_processMergeJobs p fuel maxJobs

end

/-! ### The system -/

inductive MergeProgram : Task Unit → Prop
  | scheduleStagedDays (maxDays : ℕ) : MergeProgram (scheduleStagedDays maxDays)
  | processNextMergeJob (p : MergeParameters) (fuel : ℕ) : MergeProgram do
      let _ ← processNextMergeJob p fuel
      pure ()
  | processAvailableJobs (maxJobs maxScheduleDays : ℕ) (p : MergeParameters) (fuel : ℕ) :
      MergeProgram (processAvailableJobs maxJobs maxScheduleDays p fuel)
  | heartbeat (jobId workerId leaseToken : ℕ) (leaseDuration : ℤ) (renewals : ℕ) :
      MergeProgram (mergeJobs.heartbeatLoop jobId workerId leaseToken leaseDuration renewals)
  | elsewhere (body : Task Unit)
      (hbody : body.Emits (fun _ _ => True) Write.Mergeless fun _ => True) : MergeProgram body

/-- Scheduling passes, merge workers and their heartbeats, and sessions of any kind that leave the
merge jobs alone, from any staged candles. -/
def mergeRetries : System ℕ Database Write Lock Answer Failure where
  oracle _ _ := True
  programs _ := MergeProgram
  init d := d.mergeJobs = ∅

theorem dailyRows_sound : Sound mergeRetries dailyRows := by
  intro i p d hp hd
  have hstart : Untouched {} d := ⟨fun _ => rfl, hd⟩
  cases hp with
  | scheduleStagedDays maxDays => exact (keeps_scheduling maxDays).rest hstart
  | processNextMergeJob p fuel =>
    have hkeeps := keeps_processNextMergeJob (i := i) (O := mergeRetries.oracle) p fuel
    exact Keeps.rest (hkeeps.bind fun _ => triple_pure fun _ _ h => h) hstart
  | processAvailableJobs maxJobs maxScheduleDays p fuel =>
    exact (keeps_processAvailableJobs maxJobs maxScheduleDays p fuel).rest hstart
  | heartbeat jobId workerId leaseToken leaseDuration renewals =>
    exact (keeps_mergeHeartbeat jobId workerId leaseToken leaseDuration renewals).rest hstart
  | elsewhere body hbody => exact (keeps_mergeless hbody).rest hstart

theorem lookup_of_init {d : Database} (hd : mergeRetries.init d) (id : ℕ) :
    d.mergeJobs.lookup id = none := by
  rw [show d.mergeJobs = ∅ from hd]
  rfl

theorem dailyRows_ok : mergeRetries.Invariant (Ok mergeRetries dailyRows) := by
  refine sound dailyRows_sound fun d hd => ⟨fun id id' job job' hjob => ?_, lookup_of_init hd⟩
  rw [lookup_of_init hd] at hjob
  cases hjob

/-- What a step makes of the row of a day. -/
inductive DayStep (dayBucket : ℤ) :
    Option HistoricalMergeJob → Option HistoricalMergeJob → Prop
  | same (row : Option HistoricalMergeJob) : DayStep dayBucket row row
  | inserted (createdAt : ℤ) :
      DayStep dayBucket none (some { dayBucket := dayBucket, createdAt := createdAt })
  | edited {job job' : HistoricalMergeJob} : MergeEdit job job' →
      DayStep dayBucket (some job) (some job')

theorem day_step {w w' : World ℕ Database Write Lock Answer Failure} {l : Label ℕ}
    (hw : mergeRetries.Reachable w) (hs : mergeRetries.Step w l w') (dayBucket : ℤ) :
    DayStep dayBucket (w.db.mergeJobOf dayBucket) (w'.db.mergeJobOf dayBucket) := by
  have hd := (dailyRows_ok w hw).inv
  have hd' := (dailyRows_ok w' (hw.step hs)).inv
  rcases (dailyRows_ok w hw).commit_step hs with hdb | ⟨i, held, owned, _, hcommit⟩
  · rw [hdb]
    exact .same _
  · cases hafter : w'.db.mergeJobOf dayBucket with
    | some after =>
      obtain ⟨id, hlookup, hday⟩ := (Database.mergeJobOf_eq_some hd').mp hafter
      rcases hcommit id with hsame | ⟨job', hjob', hput⟩
      · rw [hsame] at hlookup
        rw [(Database.mergeJobOf_eq_some hd).mpr ⟨id, hlookup, hday⟩]
        exact .same _
      · rw [hlookup] at hjob'
        cases hjob'
        cases hput with
        | insert createdAt _ _ _ hnone heq =>
          rw [hday] at hnone heq
          rw [hnone, heq]
          exact .inserted createdAt
        | edit _ hold hedit =>
          have hday₀ := hedit.dayBucket.symm.trans hday
          rw [(Database.mergeJobOf_eq_some hd).mpr ⟨id, hold, hday₀⟩]
          exact .edited hedit
    | none =>
      cases hbefore : w.db.mergeJobOf dayBucket with
      | none => exact .same _
      | some before =>
        -- a row is never deleted
        obtain ⟨id, hlookup, hday⟩ := (Database.mergeJobOf_eq_some hd).mp hbefore
        have hgone := Database.mergeJobOf_eq_none.mp hafter
        rcases hcommit id with hsame | ⟨job', hjob', hput⟩
        · exact (hgone id before (hsame.trans hlookup) hday).elim
        · cases hput with
          | insert _ _ hnone =>
            rw [hlookup] at hnone
            cases hnone
          | edit _ hold hedit =>
            rw [hlookup] at hold
            cases hold
            exact (hgone id job' hjob' (hedit.dayBucket.trans hday)).elim

/-! ### Attempts -/

/-- The token of the attempt that works on a day. -/
def attemptOf (row : Option HistoricalMergeJob) : Option ℕ :=
  row.bind fun job => if job.status = .processing then job.claim.map (·.leaseToken) else none

section
variable (row row' : Option HistoricalMergeJob)

def startsAttempt : Bool := (attemptOf row').any fun leaseToken => attemptOf row ≠ some leaseToken

/-- An attempt ends by recording its failure. -/
def failsRecorded : Bool :=
  (attemptOf row).all fun leaseToken => attemptOf row' = some leaseToken ||
    row'.any fun job => job.status = .pending || job.status = .failed

/-- A FAILED day is left alone. -/
def staysFailed : Bool := row.all fun job => job.status ≠ .failed || row' = some job

/-- A day is claimed when its row is due. -/
def onSchedule : Bool :=
  !startsAttempt row row' || row.all fun job => job.nextAttemptAt.all fun due =>
    row'.any fun job' => job'.claim.any fun c => due ≤ c.claimedAt

end

/-- No staged row of the day is written. -/
def stagesNothing (dayBucket : ℤ) (d d' : Database) : Bool :=
  d'.staging.keys.all fun k =>
    floorTo day k.timestamp ≠ dayBucket || d'.staging.lookup k = d.staging.lookup k

/-- The attempts of a day: those that failed are in the retry count. -/
def Attempted (n : ℕ) : Option HistoricalMergeJob → Prop
  | none => n = 0
  | some job => match job.status with
    | .pending => n = job.retryCount ∧ job.retryCount ≤ job.maxRetries
    | .processing => n = job.retryCount + 1 ∧ job.retryCount ≤ job.maxRetries ∧
        job.claim.isSome = true
    | .completed => False
    | .failed => n ≤ job.maxRetries + 1

section
variable {n : ℕ} {row row' : Option HistoricalMergeJob} {job job' : HistoricalMergeJob}

theorem Attempted.bound (h : Attempted n row) :
    n ≤ row.elim 0 fun job => job.maxRetries + 1 := by
  cases row with
  | none => exact Nat.le_of_eq h
  | some job =>
    show n ≤ job.maxRetries + 1
    unfold Attempted at h
    cases hstatus : job.status <;> simp only [hstatus] at h <;> omega

theorem startsAttempt_of_idle (h : job'.status ≠ .processing) :
    startsAttempt row (some job') = false := by
  simp [startsAttempt, attemptOf, h]

theorem attempted_failed (error : Failure) (now : ℤ) (h : Attempted n (some job))
    (hstatus : job.status = .processing) : Attempted n (some (job.failed error now)) ∧
      startsAttempt (some job) (some (job.failed error now)) = false := by
  simp only [Attempted, hstatus] at h
  obtain ⟨hn, hretries, _⟩ := h
  unfold HistoricalMergeJob.failed
  dsimp only
  split
  · rename_i hagain
    exact ⟨⟨hn, hagain⟩, startsAttempt_of_idle (by simp)⟩
  · refine ⟨?_, startsAttempt_of_idle (by simp)⟩
    show n ≤ job.maxRetries + 1
    omega

/-- The token of a row in work is the one of its last attempt. -/
theorem Attempted.token (h : Attempted n (some job)) (hstatus : job.status = .processing) :
    n = job.retryCount + 1 ∧ job.retryCount ≤ job.maxRetries ∧
      ∃ leaseToken, attemptOf (some job) = some leaseToken := by
  simp only [Attempted, hstatus] at h
  obtain ⟨hn, hretries, hclaim⟩ := h
  obtain ⟨cl, hcl⟩ := Option.isSome_iff_exists.mp hclaim
  exact ⟨hn, hretries, cl.leaseToken, by simp [attemptOf, hstatus, hcl]⟩

/-- A row in work that stays in work keeps its attempt. -/
theorem attempted_working {c : Claim} (h : Attempted n (some job))
    (hrecorded : failsRecorded (some job) (some job') = true)
    (hstatus : job.status = .processing) (hstatus' : job'.status = .processing)
    (hclaim : job'.claim = some c)
    (hretries : job'.retryCount = job.retryCount ∧ job'.maxRetries = job.maxRetries) :
    Attempted n (some job') ∧ startsAttempt (some job) (some job') = false := by
  obtain ⟨hn, hle, token, hbefore⟩ := h.token hstatus
  have hafter : attemptOf (some job') = some c.leaseToken := by
    simp [attemptOf, hstatus', hclaim]
  have hsame : c.leaseToken = token := by
    simpa [failsRecorded, hbefore, hafter, hstatus'] using hrecorded
  constructor
  · simp only [Attempted, hstatus', hclaim]
    refine ⟨?_, ?_, rfl⟩ <;> omega
  · simp [startsAttempt, hafter, hbefore, hsame]

/-- The claim of a pending row starts an attempt. -/
theorem attempted_claimed {c : Claim} (h : Attempted n (some job))
    (hstatus : job.status = .pending) : Attempted (n + 1) (some (mergeJobs.claimed c job)) ∧
      startsAttempt (some job) (some (mergeJobs.claimed c job)) = true := by
  have hafter : attemptOf (some (mergeJobs.claimed c job)) = some c.leaseToken := rfl
  have hbefore : attemptOf (some job) = none := by simp [attemptOf, hstatus]
  simp only [Attempted, hstatus] at h
  obtain ⟨rfl, hretries⟩ := h
  exact ⟨⟨rfl, hretries, rfl⟩, by simp [startsAttempt, hafter, hbefore]⟩

theorem Attempted.step {dayBucket : ℤ} (h : Attempted n row) (hstep : DayStep dayBucket row row')
    (hrecorded : failsRecorded row row' = true) (hstays : staysFailed row row' = true) :
    Attempted (if startsAttempt row row' then n + 1 else n) row' := by
  cases hstep with
  | same =>
    have hnone : startsAttempt row row = false := by
      unfold startsAttempt
      cases attemptOf row <;> simp
    rw [hnone]
    exact h
  | inserted createdAt =>
    rw [startsAttempt_of_idle (by simp)]
    exact ⟨h, Nat.zero_le _⟩
  | @edited job job' hedit =>
    cases hedit with
    | claimed c hstatus =>
      rcases hstatus with hstatus | hstatus
      · obtain ⟨hnext, hstarts⟩ := attempted_claimed (c := c) h hstatus
        rw [hstarts]
        exact hnext
      · obtain ⟨hnext, hnone⟩ := attempted_working h hrecorded hstatus rfl rfl ⟨rfl, rfl⟩
        rw [hnone]
        exact hnext
    | renewed c hstatus =>
      obtain ⟨hnext, hnone⟩ := attempted_working h hrecorded hstatus hstatus rfl ⟨rfl, rfl⟩
      rw [hnone]
      exact hnext
    | completed hstatus =>
      obtain ⟨_, _, token, hbefore⟩ := h.token hstatus
      unfold failsRecorded at hrecorded
      rw [hbefore] at hrecorded
      cases hrecorded
    | failed error now hstatus =>
      obtain ⟨hnext, hnone⟩ := attempted_failed error now h hstatus
      rw [hnone]
      exact hnext
    | reopened hstatus =>
      rcases hstatus with hstatus | hstatus
      · simp only [Attempted, hstatus] at h
      · have hsame : job.reopened = job := by
          simpa [staysFailed, hstatus] using hstays
        have hpending : job.status = .pending := hsame ▸ rfl
        rw [hstatus] at hpending
        cases hpending

end

/-! ### The bound -/

/-- Every statement runs at `now` and fails. -/
def failing (now : ℤ) : (q : Question) → Answer q
  | .fault => some (.database "OperationalError")
  | q => steady now q

abbrev RetryMove := Move ℕ Database Write Lock Answer Failure

def schedulingPass (now : ℤ) : List RetryMove :=
  [.start 0 (scheduleStagedDays 32), .run 0 20 (steady now)]

/-- The decompression fails, and the failure is recorded. -/
def failedAttempt (now : ℤ) : List RetryMove :=
  [.start 1 (do
      let _ ← processNextMergeJob {} 1
      pure ()),
    .run 1 13 (steady now), .run 1 1 (failing now), .run 1 20 (steady now)]

/-- An attempt every hour, from the first to the last that the budget allows. -/
def budgetSpent : List RetryMove :=
  schedulingPass 0 ++ [0, 1, 2, 3, 4, 5].flatMap fun n => failedAttempt (n * hour)

/-- The scheduler runs again, with nothing new staged. -/
def budgetExceeded : List RetryMove :=
  budgetSpent ++ schedulingPass (6 * hour) ++ failedAttempt (6 * hour)

theorem flatCandle_valid : (⟨1, 1, 1, 1, 0⟩ : Ohlcv).Valid := by decide

def stagedOnce : Database :=
  { staging := (∅ : Table CandleKey StoredCandle).insert ⟨1, 0, Int.zero_emod minute⟩
      { values := ⟨1, 1, 1, 1, 0⟩, source := "binance_rest", valid := flatCandle_valid
        positive := Nat.one_pos } }

theorem retry_moves {schedule : List RetryMove} (h : schedule = budgetSpent ∨ schedule = budgetExceeded) :
    ∀ m ∈ schedule, mergeRetries.Allows m := by
  have hpass : ∀ now, ∀ m ∈ schedulingPass now, mergeRetries.Allows m := by
    intro now m hm
    simp only [schedulingPass, List.mem_cons, List.not_mem_nil, or_false] at hm
    rcases hm with rfl | rfl
    · exact .scheduleStagedDays 32
    · exact fun _ => trivial
  have hattempt : ∀ now, ∀ m ∈ failedAttempt now, mergeRetries.Allows m := by
    intro now m hm
    simp only [failedAttempt, List.mem_cons, List.not_mem_nil, or_false] at hm
    rcases hm with rfl | rfl | rfl | rfl
    · exact .processNextMergeJob {} 1
    · exact fun _ => trivial
    · exact fun _ => trivial
    · exact fun _ => trivial
  have hspent : ∀ m ∈ budgetSpent, mergeRetries.Allows m := by
    intro m hm
    rcases List.mem_append.mp hm with hm | hm
    · exact hpass _ m hm
    · obtain ⟨n, _, hm⟩ := List.mem_flatMap.mp hm
      exact hattempt _ m hm
  rcases h with rfl | rfl
  · exact hspent
  · intro m hm
    rcases List.mem_append.mp hm with hm | hm
    · rcases List.mem_append.mp hm with hm | hm
      · exact hspent m hm
      · exact hpass _ m hm
    · exact hattempt _ m hm

/-- Steps that record every failure, keep to the retry schedule and stage nothing. -/
def RetriesFairly (dayBucket : ℤ) (d d' : Database) : Prop :=
  failsRecorded (d.mergeJobOf dayBucket) (d'.mergeJobOf dayBucket) = true ∧
    onSchedule (d.mergeJobOf dayBucket) (d'.mergeJobOf dayBucket) = true ∧
    stagesNothing dayBucket d d' = true

instance (dayBucket : ℤ) (d d' : Database) : Decidable (RetriesFairly dayBucket d d') :=
  inferInstanceAs (Decidable (_ ∧ _ ∧ _))

end Quantive.Candles
