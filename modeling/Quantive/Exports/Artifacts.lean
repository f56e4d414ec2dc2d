import Quantive.Exports.Worker
import Quantive.ReadCommitted.Replay

/-!
# The artifact of a completed job

Only the session that drew a token uploads, publishes or deletes the object of that token, and
it deletes an object only while no job names it. A worker that learns of every completion
that took effect therefore keeps `Published`; one that does not deletes a published object.
-/

namespace Quantive.Exports
open Quantive.ReadCommitted Prog Protocol
open ExportJobService

/-- No job names an object of the token. -/
def Database.Unpublished (d : Database) (token : ℕ) : Prop :=
  ∀ id job key, d.job id = some job → job.s3Key = some key → key.leaseToken ≠ token

/-- `Published`, and only a completed job has a key. -/
structure Database.Kept (d : Database) : Prop extends d.Published where
  ended : ∀ id job key, d.job id = some job → job.s3Key = some key → job.status = .completed

structure Untouched (held : List Lock) (owned : List ℕ) (d d' : Database) : Prop extends
    Undisturbed held owned d d' where
  unpublished : ∀ n ∈ owned, d.Unpublished n → d'.Unpublished n
  objects : ∀ key ∈ d.objects, key.leaseToken ∈ owned → key ∈ d'.objects

def bucket : Protocol Session Database Lock where
  Inv := Database.Kept
  Rely _ := Untouched
  Unused n d := d.Fresh n ∧ d.Unpublished n
  rely_refl _ held owned d := ⟨.refl held owned d, fun _ _ h => h, fun _ h _ => h⟩
  rely_trans _ _ _ _ _ _ h h' := ⟨h.toUndisturbed.trans h'.toUndisturbed,
    fun n hn hu => h'.unpublished n hn (h.unpublished n hn hu),
    fun key hkey hn => h'.objects key (h.objects key hkey hn) hn⟩

theorem bucket_rowLocks : RowLocks bucket where
  row _ _ _ _ _ h := h.row
  clock _ _ _ _ _ h := h.clock
  name _ _ _ _ _ h n hn hu := ⟨h.name n hn hu.1, h.unpublished n hn hu.2⟩

/-! ### Commits -/

section
variable {F : List ℕ → Database → Prop} {i : Session} {c : Ctx Write Lock} {d : Database}

/-- The commit of a changed row whose key, if any, is of the session's own token. -/
theorem guar_row {d' : Database} {id : ℕ} {job job' : ExportJob} (hd : d.Kept)
    (h : RowChange c d d' id job job')
    (hstored : job'.status = .completed → ∃ key, job'.s3Key = some key ∧ key ∈ d.objects)
    (hkey : ∀ key, job'.s3Key = some key → job'.status = .completed ∧ key.jobId = id ∧
      key.leaseToken ∈ c.owned ∧ ∃ now, .completed id key.leaseToken now ∈ d'.history) :
    bucket.Guar i c d d' := by
  have unpublished : ∀ n, n ∉ c.owned → d.Unpublished n → d'.Unpublished n := by
    intro n hn hu other row key hother hk
    by_cases hid : other = id
    · subst hid
      rw [h.new] at hother
      cases hother
      intro he
      exact hn (he ▸ (hkey key hk).2.2.1)
    · rw [h.others other hid] at hother
      exact hu other row key hother hk
  refine ⟨⟨⟨fun other row hother hs => ?_, fun other row key hother hk => ?_⟩,
    fun other row key hother hk => ?_⟩, fun j _ held owned hheld howned => ?_,
    fun n hn hu => ⟨h.fresh hn hu.1, unpublished n hn hu.2⟩, trivial⟩
  · rw [h.objects]
    by_cases hid : other = id
    · subst hid
      rw [h.new] at hother
      cases hother
      exact hstored hs
    · rw [h.others other hid] at hother
      exact hd.stored other row hother hs
  · by_cases hid : other = id
    · subst hid
      rw [h.new] at hother
      cases hother
      exact ⟨(hkey key hk).2.1, (hkey key hk).2.2.2⟩
    · rw [h.others other hid] at hother
      obtain ⟨hjob, now, hevent⟩ := hd.attempts other row key hother hk
      exact ⟨hjob, now, h.kept _ hevent⟩
  · by_cases hid : other = id
    · subst hid
      rw [h.new] at hother
      cases hother
      exact (hkey key hk).1
    · rw [h.others other hid] at hother
      exact hd.ended other row key hother hk
  · refine ⟨h.undisturbed hheld howned, fun n hn => unpublished n (howned n hn), ?_⟩
    intro key hk _
    rw [h.objects]
    exact hk

/-- A commit that leaves a row without a key. -/
theorem guar_unkeyed {d' : Database} {id : ℕ} {job job' : ExportJob} (hd : d.Kept)
    (h : RowChange c d d' id job job') (hopen : job.status ≠ .completed)
    (hkey : job'.s3Key = job.s3Key) (hstatus : job'.status ≠ .completed) :
    bucket.Guar i c d d' := by
  refine guar_row hd h (fun hs => absurd hs hstatus) fun key hk => ?_
  rw [hkey] at hk
  exact absurd (hd.ended id job key h.row hk) hopen

/-- A commit to the storage alone. -/
theorem guar_objects {objects : Finset ArtifactKey} (hd : d.Kept)
    (hstored : ∀ id job key, d.job id = some job → job.status = .completed →
      job.s3Key = some key → key ∈ d.objects → key ∈ objects)
    (hothers : ∀ key ∈ d.objects, key.leaseToken ∉ c.owned → key ∈ objects) :
    bucket.Guar i c d { d with objects } := by
  refine ⟨⟨⟨fun id job hjob hs => ?_, hd.attempts⟩, hd.ended⟩, fun j _ held owned _ howned => ?_,
    fun n _ hu => hu, trivial⟩
  · obtain ⟨key, hkey, hmem⟩ := hd.stored id job hjob hs
    exact ⟨key, hkey, hstored id job key hjob hs hkey hmem⟩
  · exact ⟨⟨le_refl _, fun _ _ _ h => h, fun _ _ h => h⟩, fun _ _ h => h,
      fun key hk hn => hothers key hk (howned _ hn)⟩

end

theorem RowChange.unpublished {c : Ctx Write Lock} {d d' : Database} {id : ℕ}
    {job job' : ExportJob} (h : RowChange c d d' id job job') (hkey : job'.s3Key = job.s3Key)
    {token : ℕ} (hu : d.Unpublished token) : d'.Unpublished token := by
  intro other row key hother hk
  by_cases hid : other = id
  · subst hid
    rw [h.new] at hother
    cases hother
    rw [hkey] at hk
    exact hu other job key h.row hk
  · rw [h.others other hid] at hother
    exact hu other row key hother hk

namespace Artifacts

/-! ### What a worker knows -/

/-- The session drew the token, and no job names an object of it. -/
def Mine (token : ℕ) (owned : List ℕ) (d : Database) : Prop := token ∈ owned ∧ d.Unpublished token

/-- When `stored`, the object is in the bucket. -/
def Uploaded (stored : Bool) (key : ArtifactKey) (owned : List ℕ) (d : Database) : Prop :=
  Mine key.leaseToken owned d ∧ (stored = true → key ∈ d.objects)

variable (i : Session)

theorem frame_anything : Frame bucket i fun _ _ => True where
  stable _ _ _ _ _ := trivial
  own _ _ _ _ _ _ := trivial

theorem frame_mine (token : ℕ) : Frame bucket i (Mine token) where
  stable _ _ _ h he := ⟨h.1, he.1.unpublished token h.1 h.2⟩
  own _ _ _ h _ _ := ⟨List.mem_cons_of_mem _ h.1, h.2⟩

theorem frame_uploaded (stored : Bool) (key : ArtifactKey) :
    Frame bucket i (Uploaded stored key) where
  stable c d d' h he := ⟨(frame_mine i key.leaseToken).stable c d d' h.1 he,
    fun hs => he.1.objects key (h.2 hs) h.1.1⟩
  own owned d n h hn hu := ⟨(frame_mine i key.leaseToken).own owned d n h.1 hn hu, h.2⟩

/-- Between transactions, whatever the session knows. -/
abbrev anyRest : Ctx Write Lock → Database → Prop := Idle fun _ _ => True

variable {i} {F : List ℕ → Database → Prop} (hF : Frame bucket i F)

/-! ### Steps that keep what is known -/

theorem keeps_ownershipLost : bucket.Keeps Acknowledged i (Idle F) Task.ownershipLost :=
  triple_query fun _ _ _ h _ => h

theorem keeps_raiseIfLost (message : String) :
    bucket.Keeps Acknowledged i (Idle F) (raiseIfLost message) := by
  refine keeps_ownershipLost.bind fun lost => ?_
  split
  · exact triple_raise fun _ _ h => h
  · exact triple_pure fun _ _ h => h

theorem keeps_await : bucket.Keeps Acknowledged i (Idle F) Task.await := by
  refine (triple_query fun c d r h _ => h).bind fun failure => ?_
  exact triple_orRaise failure fun _ _ _ h => h

include hF in
theorem keeps_streamCandles (jobId workerId leaseToken candles chunkSize : ℕ) :
    bucket.Keeps Acknowledged i (Idle F)
      (streamCandles jobId workerId leaseToken candles chunkSize) := by
  induction candles generalizing chunkSize with
  | zero => exact triple_pure fun _ _ h => h
  | succ candles ih =>
    refine keeps_await.bind fun _ => (keeps_raiseIfLost _).bind fun _ => ?_
    split
    · refine (triple_assertOwned bucket_rowLocks hF _ _ _).bind fun _ => ?_
      exact (keeps_raiseIfLost _).bind fun _ => ih 0
    · exact ih (chunkSize + 1)

include hF in
theorem keeps_generateParquetExport (jobId workerId leaseToken candles : ℕ) :
    bucket.Keeps Acknowledged i (Idle F)
      (generateParquetExport jobId workerId leaseToken candles) := by
  have howned := triple_assertOwned (O := Acknowledged) bucket_rowLocks hF jobId workerId leaseToken
  refine howned.bind fun _ => (keeps_raiseIfLost _).bind fun _ => ?_
  refine (keeps_streamCandles hF _ _ _ _ _).bind fun _ => ?_
  exact howned.bind fun _ => keeps_raiseIfLost _

/-! ### Calls -/

/-- A commit of a row that is still open and of its key, which it has none of. -/
theorem guar_owned {id workerId leaseToken : ℕ} {now : ℤ} {job job' : ExportJob}
    {c : Ctx Write Lock} {d : Database} (hd : d.Kept) (h : RowChange c d (c.view d) id job job')
    (howned : job.owned now workerId leaseToken = true) (hkey : job'.s3Key = job.s3Key)
    (hstatus : job'.status ≠ .completed) : bucket.Guar i c d (c.view d) := by
  have hprocessing := (ExportJob.owned_iff.mp howned).1
  refine guar_unkeyed hd h ?_ hkey hstatus
  rw [hprocessing]
  exact nofun

theorem keeps_reap (maxJobs : ℤ) (jobId : Option ℕ) :
    bucket.Keeps Acknowledged i anyRest (reapExpiredExhaustedJobs maxJobs jobId) := by
  refine triple_reapExpiredExhaustedJobs bucket_rowLocks (frame_anything i) maxJobs jobId ?_
  intro now id job c d h hreapable hd
  have hrow := h.change_put
  have hopen : job.status ≠ .completed := by
    rw [(ExportJob.reapable_iff.mp hreapable).1]
    exact nofun
  have hfailed : job.reaped.status ≠ .completed := by simp [ExportJob.reaped]
  exact ⟨guar_unkeyed hd hrow hopen rfl hfailed, trivial⟩

/-- The claimant drew the token of the claim. -/
def Claimant (found : Option (ℕ × ExportJob)) (owned : List ℕ) (d : Database) : Prop :=
  ∀ id job leaseToken, found = some (id, job) → job.leaseToken = some leaseToken →
    Mine leaseToken owned d

theorem triple_claim (workerId : ℕ) (leaseDuration : ℤ) (jobId : Option ℕ)
    (respectRetrySchedule : Bool) : bucket.Triple Acknowledged i anyRest anyRest
      (claim workerId leaseDuration jobId respectRetrySchedule) fun found => Idle (Claimant found) := by
  refine ExportJobService.triple_claim bucket_rowLocks (frame_anything i) Claimant workerId leaseDuration
    jobId respectRetrySchedule ?_ (fun _ _ _ _ _ _ hfound => by cases hfound)
    fun _ _ _ _ => trivial
  intro _ now leaseToken id job c d h hready hd
  obtain ⟨_, howned, hfresh, hunpublished⟩ := h.frame
  have hrow := h.change_note_put fun other token he => by
    cases he
    exact howned
  have hopen : job.status ≠ .completed := by
    rcases (ExportJob.ready_iff.mp hready).2 with ⟨hs, _⟩ | ⟨hs, _⟩ <;>
    · rw [hs]
      exact nofun
  have hclaimed : (job.claimed now leaseDuration workerId leaseToken).status ≠ .completed := by
    simp [ExportJob.claimed]
  refine ⟨guar_unkeyed hd hrow hopen rfl hclaimed, ?_⟩
  intro id' job' token hfound htoken
  cases hfound
  cases htoken
  exact ⟨howned, hrow.unpublished rfl hunpublished⟩

theorem keeps_heartbeatLoop (jobId workerId leaseToken : ℕ) (leaseDuration : ℤ)
    (sleepInterval : ℚ) (renewals : ℕ) : bucket.Keeps Acknowledged i anyRest
      (heartbeatLoop jobId workerId leaseToken leaseDuration sleepInterval renewals) := by
  refine triple_heartbeatLoop bucket_rowLocks (frame_anything i) _ _ _ _ _ _ ?_
  intro now job c d h howned hd
  have hprocessing := (ExportJob.owned_iff.mp howned).1
  refine ⟨guar_owned hd h.change_put howned rfl ?_, trivial⟩
  change job.status ≠ _
  rw [hprocessing]
  exact nofun

/-- Recording a failure changes no key. -/
theorem keeps_recordFailureIfOwned (hF : Frame bucket i F)
    (hkept : ∀ c d d' id job job', RowChange c d d' id job job' → job'.s3Key = job.s3Key →
      F c.owned d → F c.owned d') (jobId workerId leaseToken : ℕ) (error : Failure) :
    bucket.Keeps Acknowledged i (Idle F)
      (recordFailureIfOwned jobId workerId leaseToken error) := by
  refine triple_recordFailureIfOwned bucket_rowLocks hF _ _ _ _ ?_
  intro now job c d h howned hd
  have hrow := h.change_note_put fun other token he => by cases he
  refine ⟨guar_owned hd hrow howned rfl ?_, hkept _ _ _ _ _ _ hrow rfl h.frame.1⟩
  change (if job.attemptCount < job.maxAttempts then ExportStatus.pending else .failed) ≠ _
  split <;> exact nofun

/-- After a completion that returned or raised before it had an effect. -/
theorem triple_completeIfOwned (jobId workerId : ℕ) (key : ArtifactKey) (hjob : key.jobId = jobId)
    (expiresAt : ℤ) : bucket.Triple Acknowledged i (Idle (Mine key.leaseToken))
      (Idle (Uploaded true key)) (completeIfOwned jobId workerId key.leaseToken key expiresAt)
      fun done c d => (done = false → Idle (Mine key.leaseToken) c d) ∧ anyRest c d := by
  refine (ExportJobService.triple_completeIfOwned bucket_rowLocks (frame_uploaded i true key)
    (fun _ _ => True) jobId workerId key.leaseToken key expiresAt ?_ (fun _ _ h => h.1)
    fun e he => by cases he).post fun done c d h => ?_
  · intro now job c d h howned hd
    have hrow := h.change_note_put fun other token he => by cases he
    refine ⟨guar_row hd hrow (fun _ => ⟨key, rfl, h.frame.1.2 rfl⟩) fun key' hk => ?_, trivial⟩
    cases hk
    exact ⟨rfl, hjob, h.frame.1.1.1, now, h.noted⟩
  · cases done with
    | false => exact ⟨fun _ => ⟨(h.1 rfl).1, (h.1 rfl).2.1⟩, (h.1 rfl).1, trivial⟩
    | true => exact ⟨nofun, h.2 rfl⟩

/-! ### The worker -/

theorem idle_mine {stored : Bool} {key : ArtifactKey} {c : Ctx Write Lock} {d : Database}
    (h : Idle (Uploaded stored key) c d) : Idle (Mine key.leaseToken) c d := ⟨h.1, h.2.1⟩

theorem keeps_deleteArtifact (key : ArtifactKey) :
    bucket.Keeps Acknowledged i (Idle (Mine key.leaseToken)) (deleteArtifact key) := by
  have hdeletion : bucket.Keeps Acknowledged i (Idle (Mine key.leaseToken)) deletion :=
    triple_query fun _ _ _ h _ => h
  have hF := frame_mine i key.leaseToken
  refine hdeletion.bind fun deleted => ?_
  split
  · refine Triple.seq (fun _ c d => c.log = [.deleteObject key] ∧ Mine key.leaseToken c.owned d)
      (triple_emit fun c d h => ?_) fun _ => ?_
    · exact ⟨by rw [Ctx.push_log, h.1, List.nil_append], h.2⟩
    · refine Triple.seq (fun _ => Idle (Mine key.leaseToken)) (triple_commit fun c d d' h he => ?_)
        fun _ => keeps_await
      have hmine := hF.stable c d d' h.2 he
      have hview : c.view d' = { d' with objects := d'.objects.erase key } := by
        simp only [Ctx.view, h.1]
        rfl
      rw [hview]
      refine ⟨guar_objects he.2 (fun id job other hjob _ hother hmem => ?_) fun other hmem hn => ?_,
        rfl, hmine⟩
      · refine Finset.mem_erase.mpr ⟨?_, hmem⟩
        rintro rfl
        exact hmine.2 id job other hjob hother rfl
      · refine Finset.mem_erase.mpr ⟨?_, hmem⟩
        rintro rfl
        exact hn hmine.1
  · exact keeps_await

theorem triple_uploadArtifact (key : ArtifactKey) : bucket.Triple Acknowledged i
    (Idle (Mine key.leaseToken)) (Idle (Mine key.leaseToken)) (uploadArtifact key)
      fun result => Idle (Uploaded result.stored key) := by
  have hupload : bucket.Keeps Acknowledged i (Idle (Mine key.leaseToken)) upload :=
    triple_query fun _ _ _ h _ => h
  have hF := frame_mine i key.leaseToken
  refine Triple.bind hupload fun result => ?_
  by_cases hstored : result.stored = true
  · rw [if_pos hstored]
    refine Triple.seq (fun _ c d => c.log = [.putObject key] ∧ Mine key.leaseToken c.owned d)
      (triple_emit fun c d h => ?_) fun _ => ?_
    · exact ⟨by rw [Ctx.push_log, h.1, List.nil_append], h.2⟩
    · refine Triple.seq (fun _ => Idle (Uploaded result.stored key))
        (triple_commit fun c d d' h he => ?_) fun _ => triple_pure fun c d h => h
      have hmine := hF.stable c d d' h.2 he
      have hview : c.view d' = { d' with objects := insert key d'.objects } := by
        simp only [Ctx.view, h.1]
        rfl
      rw [hview]
      refine ⟨guar_objects he.2 (fun _ _ _ _ _ _ hmem => Finset.mem_insert_of_mem hmem)
        fun _ hmem _ => Finset.mem_insert_of_mem hmem, rfl, hmine, fun _ => ?_⟩
      exact Finset.mem_insert_self _ _
  · rw [if_neg hstored]
    exact triple_pure fun c d h => ⟨h.1, h.2, fun ht => absurd ht hstored⟩

theorem triple_discardUpload (uploaded : Bool) (key : ArtifactKey) (message : String)
    {Post : Bool → Ctx Write Lock → Database → Prop} :
    bucket.Triple Acknowledged i (Idle (Mine key.leaseToken)) (Idle (Mine key.leaseToken))
      (discardUpload uploaded key message) Post := by
  unfold discardUpload
  split
  · exact Triple.bind (keeps_deleteArtifact key) fun _ => triple_raise fun c d h => h
  · exact triple_raise fun c d h => h

/-- When the upload returns true, the object is there. -/
theorem triple_uploadArtifactWithFence (key : ArtifactKey) : bucket.Triple Acknowledged i
    (Idle (Mine key.leaseToken)) (Idle (Mine key.leaseToken)) (uploadArtifactWithFence key)
      fun uploaded => Idle (Uploaded uploaded key) := by
  refine Triple.bind (keeps_raiseIfLost _) fun _ => (triple_uploadArtifact key).bind fun result => ?_
  refine (keeps_await.raises fun c d => idle_mine).bind fun _ => ?_
  refine (keeps_ownershipLost.raises fun c d => idle_mine).bind fun lost => ?_
  split
  · exact (triple_discardUpload _ _ _).pre fun c d => idle_mine
  · cases houtcome : result.outcome with
    | error failure => exact triple_raise fun c d => idle_mine
    | ok uploaded =>
      have hstored : uploaded = true → result.stored = true := by
        rintro rfl
        exact result.faithful houtcome
      refine (keeps_ownershipLost.raises fun c d => idle_mine).bind fun lost => ?_
      split
      · exact (triple_discardUpload _ _ _).pre fun c d => idle_mine
      · exact triple_pure fun c d h => ⟨h.1, h.2.1, fun hu => h.2.2 (hstored hu)⟩

/-- As long as the attempt did not complete, no job names its object. -/
def Attempted (leaseToken : ℕ) (completed : Bool) (owned : List ℕ) (d : Database) : Prop :=
  completed = false → Mine leaseToken owned d

theorem frame_attempted (leaseToken : ℕ) (completed : Bool) :
    Frame bucket i (Attempted leaseToken completed) where
  stable c d d' h he hc := (frame_mine i leaseToken).stable c d d' (h hc) he
  own owned d n h hn hu hc := (frame_mine i leaseToken).own owned d n (h hc) hn hu

theorem triple_attemptExport (workerId candles : ℕ) (key : ArtifactKey) :
    bucket.Triple Acknowledged i anyRest (Idle (Mine key.leaseToken))
      (attemptExport key.jobId workerId key.leaseToken candles key)
      fun r => Idle (Attempted key.leaseToken r.2.1) := by
  have hF := frame_mine i key.leaseToken
  have huploading : bucket.Triple Acknowledged i (Idle (Mine key.leaseToken))
      (Idle (Mine key.leaseToken)) (do
        generateParquetExport key.jobId workerId key.leaseToken candles
        uploadArtifactWithFence key) fun uploaded => Idle (Uploaded uploaded key) :=
    Triple.bind (keeps_generateParquetExport hF _ _ _ _) fun _ => triple_uploadArtifactWithFence key
  refine (huploading.attempt.raises fun c d h => ⟨h.1, trivial⟩).bind fun r => ?_
  cases r with
  | error failure => exact triple_pure fun c d h => ⟨h.1, fun _ => h.2⟩
  | ok uploaded =>
    cases uploaded with
    | false => exact triple_pure fun c d h => ⟨h.1, fun _ => h.2.1⟩
    | true =>
      refine (keeps_ownershipLost.raises fun c d h => ⟨h.1, trivial⟩).bind fun lost => ?_
      split
      · exact triple_pure fun c d h => ⟨h.1, fun _ => h.2.1⟩
      · refine Triple.bind (triple_now (frame_uploaded i true key)) fun now => ?_
        have hcomplete := triple_completeIfOwned (i := i) key.jobId workerId key rfl
          (now + presignedExpiry)
        refine ((hcomplete.pre fun c d h => ⟨h.1, h.2.1⟩).attempt.raises
          fun c d h => ⟨h.1, trivial⟩).bind fun r => ?_
        cases r with
        | error failure => exact triple_pure fun c d h => ⟨h.1, fun _ => h.2⟩
        | ok done =>
          cases done with
          | false => exact triple_pure fun c d h => ⟨h.2.1, fun _ => (h.1 rfl).2⟩
          | true => exact triple_pure fun c d h => ⟨h.2.1, fun hf => by cases hf⟩

theorem keeps_settleExport (id workerId leaseToken : ℕ) (completed : Bool)
    (outcome : Except Failure Bool) :
    bucket.Keeps Acknowledged i (Idle (Attempted leaseToken completed))
      (settleExport id workerId leaseToken outcome) := by
  have hrecord : ∀ failure (k : Except Failure Bool → Task (Except Failure Bool)),
      (∀ r, ∃ settled, k r = pure settled) →
      bucket.Keeps Acknowledged i (Idle (Attempted leaseToken completed))
        ((recordFailureIfOwned id workerId leaseToken failure).attempt >>= k) := by
    intro failure k hk
    refine Keeps.bind (Keeps.attempt (keeps_recordFailureIfOwned (frame_attempted leaseToken completed)
      ?_ _ _ _ _)) fun r => ?_
    · exact fun c d d' id job job' h hkey hmine hc => ⟨(hmine hc).1, h.unpublished hkey (hmine hc).2⟩
    · obtain ⟨settled, hsettled⟩ := hk r
      rw [hsettled]
      exact triple_pure fun _ _ h => h
  cases outcome with
  | ok done => exact triple_pure fun _ _ h => h
  | error failure =>
    cases failure with
    | leaseLost message => exact triple_pure fun _ _ h => h
    | cancelled => exact triple_pure fun _ _ h => h
    | valueError message => exact hrecord _ _ fun r => by cases r <;> exact ⟨_, rfl⟩
    | runtimeError message => exact hrecord _ _ fun r => by cases r <;> exact ⟨_, rfl⟩
    | other typeName message => exact hrecord _ _ fun r => by cases r <;> exact ⟨_, rfl⟩

theorem triple_finishExport (key : ArtifactKey) (uploaded completed : Bool)
    (outcome : Except Failure Bool) :
    bucket.Triple Acknowledged i anyRest (Idle (Attempted key.leaseToken completed))
      (finishExport key uploaded completed outcome) fun _ => anyRest := by
  have hend : ∀ t : Task Bool, (∀ done, outcome = .ok done → t = pure done) →
      (∀ failure, outcome = .error failure → t = raise failure) →
      bucket.Keeps Acknowledged i anyRest t := by
    intro t hdone hfailure
    cases outcome with
    | ok done =>
      rw [hdone done rfl]
      exact triple_pure fun _ _ h => h
    | error failure =>
      rw [hfailure failure rfl]
      exact triple_raise fun _ _ h => h
  have rest : ∀ {F : List ℕ → Database → Prop} c d, Idle F c d → anyRest c d :=
    fun c d h => ⟨h.1, trivial⟩
  unfold finishExport
  cases hflags : uploaded && !completed with
  | false =>
    refine (hend _ (fun _ h => ?_) fun _ h => ?_).pre rest <;> rw [h] <;> rfl
  | true =>
    have hcompleted : completed = false := by
      rw [Bool.and_eq_true, Bool.not_eq_true'] at hflags
      exact hflags.2
    have hdelete := (keeps_deleteArtifact (i := i) key).raises rest
    refine Triple.bind (hdelete.pre fun c d h => ⟨h.1, h.2 hcompleted⟩) fun _ => ?_
    refine (hend _ (fun _ h => ?_) fun _ h => ?_).pre rest <;> rw [h]

theorem triple_executeClaimedExport (id : ℕ) (job : ExportJob) (workerId candles : ℕ) :
    bucket.Triple Acknowledged i anyRest (Idle (Claimant (some (id, job))))
      (executeClaimedExport id job workerId candles) fun _ => anyRest := by
  unfold executeClaimedExport
  cases htoken : job.leaseToken with
  | none => exact triple_raise fun c d h => ⟨h.1, trivial⟩
  | some leaseToken =>
    have hattempt := triple_attemptExport (i := i) workerId candles
      (artifactObjectKey id job leaseToken)
    refine Triple.bind (hattempt.pre fun c d h => ?_) fun r => ?_
    · exact ⟨h.1, h.2 id job leaseToken rfl htoken⟩
    · obtain ⟨uploaded, completed, outcome⟩ := r
      refine Triple.bind ((keeps_settleExport id workerId leaseToken completed outcome).raises
        fun c d h => ⟨h.1, trivial⟩) fun outcome => ?_
      exact triple_finishExport (artifactObjectKey id job leaseToken) uploaded completed outcome

theorem keeps_runExportJob (jobId workerId : ℕ) (leaseDuration : ℤ) (candles : ℕ) :
    bucket.Keeps Acknowledged i anyRest (runExportJob jobId workerId leaseDuration candles) := by
  have hclaim : bucket.Triple Acknowledged i anyRest anyRest
      (claimJob jobId workerId leaseDuration true) fun found => Idle (Claimant found) :=
    Triple.bind (keeps_reap _ _) fun _ => triple_claim _ _ _ _
  refine Triple.bind hclaim fun found => ?_
  cases found with
  | none => exact triple_pure fun c d h => ⟨h.1, trivial⟩
  | some found => exact triple_executeClaimedExport found.1 found.2 workerId candles

theorem keeps_recoverExports (workerId : ℕ) (leaseDuration : ℤ) (sizes : List ℕ) :
    bucket.Keeps Acknowledged i anyRest (recoverExports workerId leaseDuration sizes) := by
  induction sizes with
  | nil => exact triple_pure fun _ _ h => h
  | cons candles sizes ih =>
    refine Triple.bind (triple_claim workerId leaseDuration none true) fun found => ?_
    cases found with
    | none => exact triple_pure fun c d h => ⟨h.1, trivial⟩
    | some found =>
      refine Triple.bind (triple_executeClaimedExport found.1 found.2 workerId candles).attempt
        fun r => ?_
      have hrest := Keeps.bind ih fun processed => triple_pure (a := processed + 1) fun _ _ h => h
      cases r with
      | ok done => exact hrest
      | error failure =>
        cases failure with
        | cancelled => exact triple_raise fun _ _ h => h
        | valueError message => exact hrest
        | runtimeError message => exact hrest
        | leaseLost message => exact hrest
        | other typeName message => exact hrest

theorem keeps_runAvailableExports (workerId : ℕ) (leaseDuration : ℤ) (sizes : List ℕ) :
    bucket.Keeps Acknowledged i anyRest (runAvailableExports workerId leaseDuration sizes) := by
  unfold runAvailableExports
  split
  · exact triple_raise fun _ _ h => h
  · exact Keeps.bind (keeps_reap _ _) fun _ => keeps_recoverExports _ _ _

theorem keeps_createExport (assetId : ℕ) (timeframe : String) (startTime endTime : ℤ)
    (maxAttempts : { n : ℕ // 0 < n }) : bucket.Keeps Acknowledged i anyRest
      (createExport assetId timeframe startTime endTime maxAttempts) := by
  refine triple_createExport bucket_rowLocks (frame_anything i) _ _ _ _ _ ?_
  intro now id c d hdrawn hd
  obtain ⟨_, howned, ⟨hfree, hunclaimed⟩, _⟩ := hdrawn
  have unpublished : ∀ n, d.Unpublished n → (d.putJob id
      (newJob assetId timeframe startTime endTime maxAttempts now)).Unpublished n := by
    intro n hu other row key hrow hk
    by_cases hid : other = id
    · subst hid
      rw [Database.job_putJob] at hrow
      cases hrow
      cases hk
    · rw [Database.job_putJob_ne _ _ hid] at hrow
      exact hu other row key hrow hk
  refine ⟨⟨⟨⟨fun other row hrow hs => ?_, fun other row key hrow hk => ?_⟩,
    fun other row key hrow hk => ?_⟩, fun j _ held owned _ hnames => ?_,
    fun n hn hu => ⟨hu.1.insert fun he => hn (he ▸ howned), unpublished n hu.2⟩, trivial⟩, trivial⟩
  · by_cases hid : other = id
    · subst hid
      rw [Database.job_putJob] at hrow
      cases hrow
      cases hs
    · rw [Database.job_putJob_ne _ _ hid] at hrow
      exact hd.stored other row hrow hs
  · by_cases hid : other = id
    · subst hid
      rw [Database.job_putJob] at hrow
      cases hrow
      cases hk
    · rw [Database.job_putJob_ne _ _ hid] at hrow
      exact hd.attempts other row key hrow hk
  · by_cases hid : other = id
    · subst hid
      rw [Database.job_putJob] at hrow
      cases hrow
      cases hk
    · rw [Database.job_putJob_ne _ _ hid] at hrow
      exact hd.ended other row key hrow hk
  · exact ⟨.insert hfree fun hn => hnames id hn howned, fun n _ => unpublished n, fun _ hk _ => hk⟩

theorem keeps_tick (microseconds : ℕ) :
    bucket.Keeps Acknowledged i anyRest (tick microseconds) := by
  refine triple_tick (frame_anything i) microseconds fun c d _ hd => ⟨?_, trivial⟩
  refine ⟨⟨⟨hd.stored, hd.attempts⟩, hd.ended⟩, fun j _ held owned _ _ => ?_, fun n _ hu => hu,
    trivial⟩
  exact ⟨⟨by simp, fun _ _ _ h => h, fun _ _ hf => hf⟩, fun _ _ h => h, fun _ hk _ => hk⟩

theorem sound_exportWorkers : Sound (exportWorkers Acknowledged) bucket := by
  have drop : ∀ {α : Type} {i : Session} {p : Task α} {d : Database},
      bucket.Keeps Acknowledged i anyRest p →
        bucket.wp Acknowledged i (do let _ ← p; pure ()) Rest {} d := by
    intro α i p d hp
    exact Keeps.rest (hp.bind fun _ => triple_pure fun _ _ h => h) ⟨rfl, trivial⟩
  intro i p d hp hd
  cases hp with
  | runExportJob n jobId workerId leaseDuration candles => exact drop (keeps_runExportJob _ _ _ _)
  | runAvailableExports n workerId leaseDuration sizes =>
    exact drop (keeps_runAvailableExports _ _ _)
  | heartbeatLoop n jobId workerId leaseToken leaseDuration sleepInterval renewals =>
    exact Keeps.rest (keeps_heartbeatLoop _ _ _ _ _ _) ⟨rfl, trivial⟩
  | createExport n assetId timeframe startTime endTime maxAttempts =>
    exact Keeps.rest (keeps_createExport _ _ _ _ _) ⟨rfl, trivial⟩
  | tick microseconds => exact Keeps.rest (keeps_tick _) ⟨rfl, trivial⟩

end Artifacts

/-- In a run whose completions never raise after their commit took effect, every completed job
names an object that exists, and every key on a job is of the attempt that completed it. -/
theorem published_artifact_survives {w : World Session Database Write Lock Answer Failure}
    (hw : (exportWorkers Acknowledged).Reachable w) : w.db.Published := by
  refine (Protocol.sound Artifacts.sound_exportWorkers (fun d hd => ?_) w hw).inv.toPublished
  obtain ⟨hjobs, hhistory⟩ := hd
  have empty : ∀ id, d.job id = none := fun id => by
    rw [Database.job, hjobs]
    exact AList.lookup_empty id
  refine ⟨⟨⟨fun id job h => ?_, fun id job key h => ?_⟩, fun id job key h => ?_⟩, fun n => ⟨⟨empty n,
    fun id hm => ?_⟩, fun id job key h => ?_⟩⟩
  · rw [empty id] at h
    cases h
  · rw [empty id] at h
    cases h
  · rw [empty id] at h
    cases h
  · rw [hhistory] at hm
    cases hm
  · rw [empty id] at h
    cases h

/-! ### One export, with and without the reply to its completion -/

/-- Everything succeeds, but the connection may fail after the commit of a completion. -/
def succeeding (reply : Option Failure) : (q : Question) → Answer q
  | .fault _ => (none : Option Failure)
  | .reply .complete => reply
  | .reply _ => (none : Option Failure)
  | .ownershipLost => false
  | .await => (none : Option Failure)
  | .upload => { stored := true, outcome := .ok true, faithful := fun _ => rfl : UploadResult }
  | .deletion => true

/-- A client asks for an export and a worker runs it. -/
def oneExport (reply : Option Failure) : List (Move Session Database Write Lock Answer Failure) :=
  [.start (.client 0) (createExport 7 "1m" 0 60000000 ⟨5, by decide⟩),
    .run (.client 0) 10 (succeeding reply),
    .start (.worker 0) (do
      let _ ← runExportJob 0 9 (300 * second) 0
      pure ()),
    .run (.worker 0) 100 (succeeding reply)]

def afterOneExport (reply : Option Failure) : Bench Session Database Write Lock Answer Failure :=
  Bench.play { db := {} } (oneExport reply)

theorem reachable_oneExport {oracle : (q : Question) → Answer q → Prop} {reply : Option Failure}
    (hreply : ∀ q, oracle q (succeeding reply q)) :
    (exportWorkers oracle).Reachable (afterOneExport reply).world := by
  have hinit : (exportWorkers oracle).init {} := ⟨rfl, rfl⟩
  refine .of_schedule hinit fun m hm => ?_
  simp only [oneExport, List.mem_cons, List.not_mem_nil, or_false] at hm
  rcases hm with rfl | rfl | rfl | rfl
  · exact .createExport 0 7 "1m" 0 60000000 ⟨5, by decide⟩
  · exact hreply
  · exact .runExportJob 0 0 9 (300 * second) 0
  · exact hreply

theorem acknowledged_succeeding (q : Question) : Acknowledged q (succeeding none q) := by
  cases q with
  | reply call => cases call <;> first | rfl | trivial
  | _ => trivial

theorem one_export_survives : (afterOneExport none).world.db.Published :=
  published_artifact_survives (reachable_oneExport acknowledged_succeeding)

def afterLostReply : Bench Session Database Write Lock Answer Failure :=
  afterOneExport (some (.other "InterfaceError" "connection is closed"))

/-- The worker takes the attempt for lost and deletes the object that the job names. -/
theorem published_artifact_deleted :
    ¬ (exportWorkers anyAnswer).Invariant fun w => w.db.Published := by
  intro hinv
  have hreachable : (exportWorkers anyAnswer).Reachable afterLostReply.world :=
    reachable_oneExport fun _ => trivial
  have hdangling : (afterLostReply.world.db.job 0).any (fun job => job.status = .completed &&
      job.s3Key.all (· ∉ afterLostReply.world.db.objects)) = true := by
    decide +kernel
  obtain ⟨job, hjob, hcheck⟩ := (Option.any_eq_true _ _).mp hdangling
  simp only [Bool.and_eq_true, decide_eq_true_eq] at hcheck
  obtain ⟨key, hkey, hmem⟩ := (hinv _ hreachable).stored 0 job hjob hcheck.1
  rw [hkey] at hcheck
  simp [hmem] at hcheck

end Quantive.Exports
