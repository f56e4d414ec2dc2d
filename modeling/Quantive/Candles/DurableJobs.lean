import Quantive.Candles.Fencing

/-!
# The durable workers

Every program of the repair, merge and refresh workers keeps to `fencing`: it claims a job once,
and all it commits afterwards it commits while the row carries that claim.
-/

namespace Quantive.Candles
open Quantive.ReadCommitted Prog Protocol

/-- A job table among the rows of `Database.job`. -/
structure Durable {J : Type} (T : JobTable J) where
  kind : JobKind
  row : J → JobRow
  lookup : ∀ d id, d.job ⟨kind, id⟩ = ((T.rows d).lookup id).map row
  put : ∀ id job, (T.put id job).job = some (⟨kind, id⟩, row job)
  lock : ∀ id, T.lock id = JobRef.lock ⟨kind, id⟩
  pending : ∀ job, (row job).pending = T.pending job
  processing : ∀ job, (row job).processing = T.processing job
  claim : ∀ job, (row job).claim = T.claim job
  claimed : ∀ c job, T.processing (T.claimed c job) = true ∧ T.claim (T.claimed c job) = some c
  renewed : ∀ c job, T.claim (T.renewed c job) = some c

def durableGap : Durable gapRepairJobs :=
  ⟨.gap, .gap, fun _ _ => rfl, fun _ _ => rfl, fun _ => rfl, fun _ => rfl, fun _ => rfl, fun _ => rfl,
    fun _ _ => ⟨rfl, rfl⟩, fun _ _ => rfl⟩

def durableMerge : Durable mergeJobs :=
  ⟨.merge, .merge, fun _ _ => rfl, fun _ _ => rfl, fun _ => rfl, fun _ => rfl, fun _ => rfl,
    fun _ => rfl, fun _ _ => ⟨rfl, rfl⟩, fun _ _ => rfl⟩

def durableCagg : Durable caggRefreshJobs :=
  ⟨.cagg, .cagg, fun _ _ => rfl, fun _ _ => rfl, fun _ => rfl, fun _ => rfl, fun _ => rfl,
    fun _ => rfl, fun _ _ => ⟨rfl, rfl⟩, fun _ _ => rfl⟩

theorem Write.of_job {w : Write} {put : JobRef × JobRow} (h : w.job = some put) :
    w.candles = false ∧ w.claims = none := by
  cases w with
  | putGapJob id job => exact ⟨rfl, rfl⟩
  | putMergeJob id job => exact ⟨rfl, rfl⟩
  | putCaggJob id job => exact ⟨rfl, rfl⟩
  | _ => cases h

theorem Write.of_candles {w : Write} (h : w.candles = true) : w.job = none ∧ w.claims = none := by
  cases w with
  | putGapJob id job => cases h
  | putMergeJob id job => cases h
  | putCaggJob id job => cases h
  | note e => cases h
  | _ => exact ⟨rfl, rfl⟩

/-! ### Assertions -/

/-- What a session knows of the names it drew and the tokens that were claimed. -/
structure Frame (F : List ℕ → List ℕ → Prop) : Prop where
  others : ∀ owned claimed claimed', F owned claimed →
    (∀ n ∈ owned, n ∈ claimed' → n ∈ claimed) → F owned claimed'
  own : ∀ owned claimed n, F owned claimed → n ∉ claimed → F (n :: owned) claimed

/-- Nothing is known. -/
def Anything (_ _ : List ℕ) : Prop := True

/-- A worker before its claim. -/
def Entering (workerId : ℕ) (owned claimed : List ℕ) : Prop :=
  workerId ∈ owned ∧ ∀ n ∈ owned, n ∉ claimed

/-- A worker that claimed a job. -/
def Claimant (workerId leaseToken : ℕ) (owned claimed : List ℕ) : Prop :=
  workerId ∈ owned ∧ leaseToken ∈ owned ∧ ∀ n ∈ owned, n ∈ claimed → n = leaseToken

theorem frame_anything : Frame Anything := ⟨fun _ _ _ _ _ => trivial, fun _ _ _ _ _ => trivial⟩

theorem frame_entering (workerId : ℕ) : Frame (Entering workerId) where
  others _ _ _ h hold := ⟨h.1, fun n hn hc => h.2 n hn (hold n hn hc)⟩
  own _ _ n h hn := by
    refine ⟨List.mem_cons_of_mem _ h.1, fun m hm => ?_⟩
    rcases List.mem_cons.mp hm with rfl | hm
    · exact hn
    · exact h.2 m hm

theorem frame_claimant (workerId leaseToken : ℕ) : Frame (Claimant workerId leaseToken) where
  others _ _ _ h hold := ⟨h.1, h.2.1, fun n hn hc => h.2.2 n hn (hold n hn hc)⟩
  own _ _ n h hn := by
    refine ⟨List.mem_cons_of_mem _ h.1, List.mem_cons_of_mem _ h.2.1, fun m hm hc => ?_⟩
    rcases List.mem_cons.mp hm with rfl | hm
    · exact (hn hc).elim
    · exact h.2.2 m hm hc

section
variable (i : JobParty) (F : List ℕ → List ℕ → Prop) (c : Ctx Write Lock) (d : Database)

def Facts : Prop := F c.owned d.claimed

/-- Between two transactions. -/
def Idle : Prop := c.log = [] ∧ Facts F c d

/-- Inside a transaction that may be committed. -/
def InTx : Prop := Facts F c d ∧ Ready i c d

end

section
variable {i : JobParty} {F : List ℕ → List ℕ → Prop} {O : (q : Question) → Answer q → Prop}
  {Pre J : Ctx Write Lock → Database → Prop} {α : Type}

theorem Facts.stable (hF : Frame F) {c : Ctx Write Lock} {d d' : Database} (h : Facts F c d)
    (he : fencing.Env i c d d') : Facts F c d' :=
  hF.others _ _ _ h he.1.fresh

theorem Idle.stable (hF : Frame F) {c : Ctx Write Lock} {d d' : Database} (h : Idle F c d)
    (he : fencing.Env i c d d') : Idle F c d' :=
  ⟨h.1, h.2.stable hF he⟩

theorem Idle.inTx {c : Ctx Write Lock} {d : Database} (h : Idle F c d) : InTx i F c d := by
  refine ⟨h.2, fun w hw => ?_⟩
  rw [h.1] at hw
  cases hw

theorem Idle.view {c : Ctx Write Lock} {d : Database} (h : Idle F c d) : c.view d = d := by
  rw [Ctx.view, h.1]
  rfl

theorem InTx.commit {c : Ctx Write Lock} {d : Database} (h : InTx i F c d) (hd : TokensKnown d) :
    fencing.Guar i c d (c.view d) ∧ Idle F c.release (c.view d) := by
  have hchange := h.2.change
  refine ⟨hchange.guar hd, rfl, ?_⟩
  show F c.owned (c.view d).claimed
  rw [hchange.claimed]
  exact h.1

/-- An assertion inside a transaction that bears the writes the session may commit. -/
structure Bears (i : JobParty) (F : List ℕ → List ℕ → Prop)
    (Pre : Ctx Write Lock → Database → Prop) : Prop where
  stable : ∀ c d d', Pre c d → fencing.Env i c d d' → Pre c d'
  hold : ∀ c d l, Pre c d → Pre (c.hold l) d
  own : ∀ c d n, Pre c d → n ∉ d.claimed → Pre (c.own n) d
  push : ∀ c d w, Pre c d → Justified i c.held c.owned d w → Pre (c.push w) d
  inTx : ∀ c d, Pre c d → InTx i F c d

theorem Ready.onward {c c' : Ctx Write Lock} {d d' : Database} (h : Ready i c d)
    (hon : Onward c.held c'.held c.owned c'.owned d d') (hlog : c'.log = c.log) : Ready i c' d' := by
  intro w hw
  rw [hlog] at hw
  exact hon.justified (h w hw)

theorem Ready.push {c : Ctx Write Lock} {d : Database} {w : Write} (h : Ready i c d)
    (hw : Justified i c.held c.owned d w) : Ready i (c.push w) d := by
  intro v hv
  rcases List.mem_append.mp hv with hv | hv
  · exact h v hv
  · rw [List.mem_singleton] at hv
    exact hv ▸ hw

theorem bears_inTx (hF : Frame F) : Bears i F (InTx i F) where
  stable _ _ _ h he := ⟨h.1.stable hF he, h.2.onward (onward_env he) rfl⟩
  hold _ _ l h := ⟨h.1, h.2.onward (onward_hold l) rfl⟩
  own _ _ n h hn := ⟨hF.own _ _ n h.1 hn, h.2.onward (onward_own hn) rfl⟩
  push _ _ _ h hw := ⟨h.1, h.2.push hw⟩
  inTx _ _ h := h

/-- Inside a transaction that locked the row of the session's claim. -/
def Owning (i : JobParty) (F : List ℕ → List ℕ → Prop) (ref : JobRef) (c : Ctx Write Lock)
    (d : Database) : Prop :=
  InTx i F c d ∧ Owns i c.held c.owned d ref

theorem bears_owning (hF : Frame F) (ref : JobRef) : Bears i F (Owning i F ref) where
  stable _ _ _ h he := ⟨(bears_inTx hF).stable _ _ _ h.1 he, (onward_env he).owns h.2⟩
  hold _ _ l h := ⟨(bears_inTx hF).hold _ _ l h.1, (onward_hold l).owns h.2⟩
  own _ _ n h hn := ⟨(bears_inTx hF).own _ _ n h.1 hn, (onward_own hn).owns h.2⟩
  push _ _ w h hw := ⟨(bears_inTx hF).push _ _ w h.1 hw, h.2⟩
  inTx _ _ h := h.1

/-- The rule of a transaction; `Back` is what it leaves when its commit takes effect. -/
theorem triple_inTransaction (hF : Frame F) {body : Task α}
    {D Back : α → Ctx Write Lock → Database → Prop} (hJ : ∀ c d, Idle F c d → J c d)
    (hbody : fencing.Triple O i (Facts F) (Idle F) body D)
    (hdone : ∀ a c d d', D a c d → fencing.Env i c d d' →
      fencing.Guar i c d' (c.view d') ∧ Back a c.release (c.view d'))
    (hback : ∀ a c d, Back a c d → J c d) :
    fencing.Triple O i J (Idle F) (Task.inTransaction body) Back := by
  have hconnection : ∀ {P : Ctx Write Lock → Database → Prop}, (∀ c d, P c d → J c d) →
      fencing.Triple O i J P Task.connection fun _ => P := by
    intro P hP
    refine Triple.bind (triple_query fun _ _ _ h _ => h) fun r => ?_
    cases r with
    | none => exact triple_pure fun _ _ h => h
    | some failure => exact triple_raise hP
  refine Triple.bind (hconnection hJ) fun _ => ?_
  refine Triple.seq Back (hbody.transaction (Facts F) D
    (fun c d d' h he => hJ _ _ ⟨rfl, h.stable hF he⟩) hdone) fun a => ?_
  exact Triple.bind (hconnection (hback a)) fun _ => triple_pure fun _ _ h => h

theorem fenced_inTransaction (hF : Frame F) {body : Task α}
    (hbody : fencing.Triple O i (Facts F) (Idle F) body fun _ => InTx i F) :
    fencing.Keeps O i (Idle F) (Task.inTransaction body) :=
  triple_inTransaction hF (fun _ _ h => h) hbody
    (fun _ _ _ _ h he => ((bears_inTx hF).stable _ _ _ h he).commit he.2) fun _ _ _ h => h

/-! ### Programs inside a transaction -/

section
variable (hB : Bears i F Pre)
include hB

theorem Bears.of_emits {S : Write → Prop} {p : Task α}
    (hS : ∀ w, S w → ∀ c d, Pre c d → Justified i c.held c.owned d w)
    (hp : p.Emits O S fun _ => True) (hopen : p.Open) :
    fencing.Triple O i (Facts F) Pre p fun _ => Pre :=
  triple_of_open hB.stable (fun c d l h => hB.hold c d l h)
    (fun c d n h _ hn => hB.own c d n h hn.1) (fun c d h => (hB.inTx c d h).1)
    (fun w hw c d h => hB.push c d w h (hS w hw c d h)) hp hopen

theorem Bears.quiet {p : Task α} (hp : p.Emits O (fun _ => False) fun _ => True)
    (hopen : p.Open) : fencing.Triple O i (Facts F) Pre p fun _ => Pre :=
  hB.of_emits (fun _ hw => hw.elim) hp hopen

theorem Bears.candles (hmay : ∀ c d, Pre c d → MayWrite c.held c.owned d i) {p : Task α}
    (hp : p.Emits O (fun w => w.candles = true) fun _ => True) (hopen : p.Open) :
    fencing.Triple O i (Facts F) Pre p fun _ => Pre := by
  refine hB.of_emits (fun w hw c d h => ?_) hp hopen
  obtain ⟨hjob, hclaims⟩ := Write.of_candles hw
  refine ⟨fun ref after hput => ?_, fun _ => hmay c d h, hclaims⟩
  rw [hjob] at hput
  cases hput

theorem Bears.view : fencing.Triple O i (Facts F) Pre (view : Task Database) fun _ => Pre :=
  hB.quiet emits_view open_view

theorem Bears.acquire (l : Lock) :
    fencing.Triple O i (Facts F) Pre (acquire l : Task Unit) fun _ => Pre :=
  hB.quiet (emits_acquire l) (open_acquire l)

theorem Bears.now : fencing.Triple O i (Facts F) Pre Task.now fun _ => Pre :=
  hB.quiet (emits_now ⟨trivial, trivial, trivial⟩) open_now

theorem Bears.raise (e : Failure) {Post : α → Ctx Write Lock → Database → Prop} :
    fencing.Triple O i (Facts F) Pre (raise e : Task α) Post :=
  triple_raise fun c d h => (hB.inTx c d h).1

/-- A drawn name that is no job yet. -/
def New (Pre : Ctx Write Lock → Database → Prop) (n : ℕ) (c : Ctx Write Lock) (d : Database) :
    Prop :=
  Pre c d ∧ n ∈ c.owned ∧ ∀ kind, d.job ⟨kind, n⟩ = none

theorem Bears.new (n : ℕ) : Bears i F (New Pre n) where
  stable c d d' h he :=
    ⟨hB.stable c d d' h.1 he, h.2.1, fun kind => he.1.absent ⟨kind, n⟩ h.2.1 (h.2.2 kind)⟩
  hold c d l h := ⟨hB.hold c d l h.1, h.2⟩
  own c d m h hm := ⟨hB.own c d m h.1 hm, List.mem_cons_of_mem _ h.2.1, h.2.2⟩
  push c d w h hw := ⟨hB.push c d w h.1 hw, h.2⟩
  inTx c d h := hB.inTx c d h.1

theorem Bears.draw : fencing.Triple O i (Facts F) Pre (draw : Task ℕ) (New Pre) :=
  triple_draw fun c d d' n h he _ hn =>
    ⟨hB.own c d' n (hB.stable c d d' h he) hn.1, List.mem_cons_self, hn.2⟩

/-- The INSERT of a job under a drawn id. -/
theorem Bears.insert {n : ℕ} {kind : JobKind} {row : JobRow} {w : Write}
    (hw : w.job = some (⟨kind, n⟩, row)) (hpending : row.pending = true)
    (hclaim : row.claim = none) :
    fencing.Triple O i (Facts F) (New Pre n) (emit w : Task Unit) fun _ => Pre := by
  refine triple_emit fun c d h => hB.push c d w h.1 ⟨fun ref after hput => ?_, fun hcandles => ?_,
    (Write.of_job hw).2⟩
  · rw [hw] at hput
    cases hput
    exact .inserted h.2.1 (h.2.2 kind) hpending hclaim
  · rw [(Write.of_job hw).1] at hcandles
    cases hcandles

theorem Bears.insertCaggJob (windowStart windowEnd : ℤ) :
    fencing.Triple O i (Facts F) Pre (insertCaggJob windowStart windowEnd) fun _ => Pre := by
  refine Triple.bind hB.draw fun id => Triple.bind (hB.new id).now fun createdAt => ?_
  refine Triple.bind (hB.new id).view fun d => ?_
  split
  · split
    · exact hB.insert rfl rfl rfl
    · exact (hB.new id).raise _
  · exact (hB.new id).raise _

theorem Bears.note {e : Event} (he : (Write.note e).claims = none) :
    fencing.Triple O i (Facts F) Pre (emit (.note e) : Task Unit) fun _ => Pre := by
  refine triple_emit fun c d h => hB.push c d _ h ⟨fun ref after hput => ?_, fun hcandles => ?_, he⟩
  · cases hput
  · cases hcandles

theorem Bears.scheduleCaggRefreshJob (startTime endTime : ℤ) (timeframe : Option String)
    (endInclusive : Bool) : fencing.Triple O i (Facts F) Pre
      (scheduleCaggRefreshJob startTime endTime timeframe endInclusive) fun _ => Pre := by
  refine Triple.bind (hB.quiet (emits_ofExcept _) (open_ofExcept _)) fun window => ?_
  refine Triple.bind (hB.acquire _) fun _ => Triple.bind hB.view fun d => ?_
  refine Triple.bind (hB.quiet (emits_lockRows _ _ _ _) (open_lockRows _ _ _ _)) fun active => ?_
  refine Triple.bind (Triple.forEach fun w _ => hB.insertCaggJob w.1 w.2) fun _ => ?_
  exact hB.note rfl

end
end

/-! ### Statements on a job row -/

section
variable {J₀ : Type} {T : JobTable J₀} (hT : Durable T) {i : JobParty}
  {F : List ℕ → List ℕ → Prop} {O : (q : Question) → Answer q → Prop}
  {J : Ctx Write Lock → Database → Prop}

/-- The row of a job, locked and as the others left it. -/
def RowLocked (hT : Durable T) (F : List ℕ → List ℕ → Prop) (condition : J₀ → Bool) (id : ℕ)
    (job : J₀) (c : Ctx Write Lock) (d : Database) : Prop :=
  Idle F c d ∧ JobRef.lock ⟨hT.kind, id⟩ ∈ c.held ∧ d.job ⟨hT.kind, id⟩ = some (hT.row job) ∧
    condition job = true

theorem Durable.job_of_lookup {d : Database} {id : ℕ} {job : J₀}
    (h : (T.rows d).lookup id = some job) : d.job ⟨hT.kind, id⟩ = some (hT.row job) := by
  rw [hT.lookup, h]
  rfl

theorem Durable.of_select {d : Database} {condition : J₀ → Bool} {id : ℕ} {job : J₀}
    (h : T.select d condition id = some job) :
    d.job ⟨hT.kind, id⟩ = some (hT.row job) ∧ condition job = true := by
  obtain ⟨hlookup, hcondition⟩ := Option.filter_eq_some_iff.mp h
  exact ⟨hT.job_of_lookup hlookup, hcondition⟩

/-- A fenced statement acts under the claim whose names it carries. -/
def Carries (i : JobParty) (F : List ℕ → List ℕ → Prop) (ref : JobRef) (workerId leaseToken : ℕ) :
    Prop :=
  ∀ owned claimed c, F owned claimed → c.workerId = workerId → c.leaseToken = leaseToken →
    i.Acts owned claimed ref c

theorem Durable.owned_claim {now : ℤ} {workerId leaseToken : ℕ} {job : J₀}
    (h : T.owned now workerId leaseToken job = true) : (hT.row job).processing = true ∧
      ∃ cl, T.claim job = some cl ∧ cl.workerId = workerId ∧ cl.leaseToken = leaseToken := by
  simp only [JobTable.owned, Bool.and_eq_true, Option.any_eq_true, decide_eq_true_eq] at h
  obtain ⟨hprocessing, cl, hclaim, hids, _⟩ := h
  exact ⟨by rw [hT.processing]; exact hprocessing, cl, hclaim, hids⟩

theorem RowLocked.owning {now : ℤ} {workerId leaseToken id : ℕ} {job : J₀} {c : Ctx Write Lock}
    {d : Database} (hcarries : Carries i F ⟨hT.kind, id⟩ workerId leaseToken)
    (h : RowLocked hT F (T.owned now workerId leaseToken) id job c d) :
    Owning i F ⟨hT.kind, id⟩ c d := by
  obtain ⟨hidle, hlock, hrow, howned⟩ := h
  obtain ⟨hprocessing, cl, hclaim, hworker, htoken⟩ := hT.owned_claim howned
  refine ⟨hidle.inTx, hlock, hT.row job, cl, hrow, hprocessing, ?_, ?_⟩
  · rw [hT.claim]
    exact hclaim
  · exact hcarries _ _ _ hidle.2 hworker htoken

/-- The new row of a fenced statement has the token of the old one, or none. -/
def KeepsToken (T : JobTable J₀) (change : J₀ → J₀) : Prop :=
  ∀ job c', T.claim (change job) = some c' → ∃ c, T.claim job = some c ∧ c'.leaseToken = c.leaseToken

theorem Durable.justified_put {id workerId leaseToken : ℕ} {now : ℤ} {job job' : J₀}
    {c : Ctx Write Lock} {d : Database}
    (hcarries : Carries i F ⟨hT.kind, id⟩ workerId leaseToken)
    (h : RowLocked hT F (T.owned now workerId leaseToken) id job c d)
    (hkeeps : ∀ c', T.claim job' = some c' → ∃ c, T.claim job = some c ∧
      c'.leaseToken = c.leaseToken) :
    Justified i c.held c.owned d (T.put id job') := by
  obtain ⟨hidle, hlock, hrow, howned⟩ := h
  obtain ⟨hprocessing, cl, hclaim, hworker, htoken⟩ := hT.owned_claim howned
  refine ⟨fun ref after hput => ?_, fun hcandles => ?_, (Write.of_job (hT.put id job')).2⟩
  · rw [hT.put] at hput
    cases hput
    refine .fenced hlock hrow hprocessing ((hT.claim job).trans hclaim)
      (hcarries _ _ _ hidle.2 hworker htoken) fun c' hc' => ?_
    rw [hT.claim] at hc'
    obtain ⟨c₀, hc₀, heq⟩ := hkeeps c' hc'
    rw [hclaim] at hc₀
    cases hc₀
    exact heq
  · rw [(Write.of_job (hT.put id job')).1] at hcandles
    cases hcandles

theorem lockRows_one {K ρ : Type} (lock : K → Lock) (row : Database → K → Option ρ) (k : K) :
    Task.lockRows lock row 1 [k] = (do
      acquire (lock k)
      let d ← view
      (row d k).elim (pure []) fun r => pure [(k, r)]) := by
  refine congrArg (Prog.lock _) (congrArg Prog.read (funext fun d => ?_))
  simp only [Prog.bind]
  cases row d k <;> rfl

section
variable (hF : Frame F)
include hF

/-- A row that is locked and read again. -/
theorem Durable.triple_lockAndRead {α : Type} {r : Database → Option J₀} {condition : J₀ → Bool}
    {id : ℕ} {k : Database → Task α} {Post : α → Ctx Write Lock → Database → Prop}
    (hrow : ∀ d job, r d = some job →
      d.job ⟨hT.kind, id⟩ = some (hT.row job) ∧ condition job = true)
    (hnone : ∀ s, r s = none → fencing.Triple O i J (Idle F) (k s) Post)
    (hsome : ∀ s job, r s = some job →
      fencing.Triple O i J (RowLocked hT F condition id job) (k s) Post) :
    fencing.Triple O i J (Idle F) (do
      acquire (T.lock id)
      let d ← view
      k d) Post := by
  refine Triple.seq (fun _ c d => Idle F c d ∧ T.lock id ∈ c.held)
    (triple_acquire fun c d d' h he => ⟨h.stable hF he, List.mem_cons_self⟩) fun _ => ?_
  refine Triple.seq (fun s c d => (Idle F c d ∧ T.lock id ∈ c.held) ∧ s = d)
    (triple_view fun c d d' h he => ?_) fun s => ?_
  · have hidle := h.1.stable hF he
    exact ⟨⟨hidle, h.2⟩, hidle.view⟩
  · cases hs : r s with
    | none => exact (hnone s hs).pre fun _ _ h => h.1.1
    | some job =>
      refine (hsome s job hs).pre fun c d h => ?_
      obtain ⟨⟨hidle, hlock⟩, rfl⟩ := h
      rw [hT.lock] at hlock
      exact ⟨hidle, hlock, (hrow _ _ hs).1, (hrow _ _ hs).2⟩

theorem triple_viewIdle : fencing.Triple O i J (Idle F) (view : Task Database) fun _ => Idle F :=
  triple_view fun _ _ _ h he => h.stable hF he

theorem Durable.triple_lockRow {row : Database → ℕ → Option J₀} {id : ℕ} (condition : J₀ → Bool)
    (hrow : ∀ d job, row d id = some job →
      d.job ⟨hT.kind, id⟩ = some (hT.row job) ∧ condition job = true) :
    fencing.Triple O i J (Idle F) (Task.lockRows T.lock row 1 [id]) fun rows c d =>
      (rows = [] ∧ Idle F c d) ∨ ∃ job, rows = [(id, job)] ∧ RowLocked hT F condition id job c d := by
  rw [lockRows_one]
  refine hT.triple_lockAndRead hF hrow (fun s hs => ?_) fun s job hs => ?_
  · rw [hs]
    exact triple_pure fun _ _ h => Or.inl ⟨rfl, h⟩
  · rw [hs]
    exact triple_pure fun _ _ h => Or.inr ⟨job, rfl, h⟩

theorem Durable.triple_assertOwnedLocked {jobId workerId leaseToken : ℕ}
    (hcarries : Carries i F ⟨hT.kind, jobId⟩ workerId leaseToken) :
    fencing.Triple O i (Facts F) (Idle F) (T.assertOwnedLocked jobId workerId leaseToken)
      fun _ => Owning i F ⟨hT.kind, jobId⟩ := by
  refine Triple.bind (triple_query fun _ _ _ h _ => h) fun now => ?_
  refine Triple.bind (hT.triple_lockRow hF _ fun d job h => hT.of_select h) fun rows => ?_
  cases rows with
  | nil =>
    refine triple_raise fun c d h => ?_
    rcases h with ⟨_, hidle⟩ | ⟨job, hrows, _⟩
    · exact hidle.2
    · cases hrows
  | cons r rest =>
    refine triple_pure fun c d h => ?_
    rcases h with ⟨hrows, _⟩ | ⟨job, _, hlocked⟩
    · cases hrows
    · exact hlocked.owning hT hcarries

theorem Durable.triple_updateOwned {now : ℤ} {jobId workerId leaseToken : ℕ} {change : J₀ → J₀}
    (hcarries : Carries i F ⟨hT.kind, jobId⟩ workerId leaseToken) (hkeeps : KeepsToken T change) :
    fencing.Triple O i (Facts F) (Idle F) (T.updateOwned now jobId workerId leaseToken change)
      fun _ => InTx i F := by
  refine Triple.bind (triple_viewIdle hF) fun s => ?_
  dsimp only
  cases T.select s (T.owned now workerId leaseToken) jobId with
  | none => exact triple_pure fun _ _ h => h.inTx
  | some _ =>
    refine hT.triple_lockAndRead hF (r := fun d =>
      T.select d (T.owned now workerId leaseToken) jobId) (fun d job h => hT.of_select h)
      (fun s hs => ?_) fun s job hs => ?_
    · rw [hs]
      exact triple_pure fun _ _ h => h.inTx
    rw [hs]
    refine Triple.seq (fun _ => InTx i F) (triple_emit fun c d h => ?_) fun _ =>
      triple_pure fun _ _ h => h
    exact (bears_inTx hF).push _ _ _ h.1.inTx
      (hT.justified_put hcarries h fun c' hc' => hkeeps job c' hc')

/-- A fenced update after the row was locked. -/
theorem Durable.updateOwned_owning {now : ℤ} {jobId workerId leaseToken : ℕ} {change : J₀ → J₀}
    (hdrops : ∀ job, T.claim (change job) = none) :
    fencing.Triple O i (Facts F) (Owning i F ⟨hT.kind, jobId⟩)
      (T.updateOwned now jobId workerId leaseToken change)
      fun _ => Owning i F ⟨hT.kind, jobId⟩ := by
  refine (bears_owning hF _).of_emits (S := fun w => ∃ job, w = T.put jobId (change job))
    (fun w hw c d h => ?_) (emits_updateWhere fun job => ⟨job, rfl⟩) ?_
  · obtain ⟨job, rfl⟩ := hw
    obtain ⟨_, hlock, row, cl, hrow, hprocessing, hclaim, hacts⟩ := h
    have hput := hT.put jobId (change job)
    refine ⟨fun ref after hw => ?_, fun hcandles => ?_, (Write.of_job hput).2⟩
    · rw [hput] at hw
      cases hw
      refine .fenced hlock hrow hprocessing hclaim hacts fun c' hc' => ?_
      rw [hT.claim, hdrops] at hc'
      cases hc'
    · rw [(Write.of_job hput).1] at hcandles
      cases hcandles
  · intro d
    simp only [Prog.bind]
    cases T.select d (T.owned now workerId leaseToken) jobId with
    | none => trivial
    | some _ =>
      intro d'
      simp only [Prog.bind]
      cases T.select d' (T.owned now workerId leaseToken) jobId <;> trivial

theorem Durable.keeps_heartbeatLoop {jobId workerId leaseToken : ℕ}
    (hcarries : Carries i F ⟨hT.kind, jobId⟩ workerId leaseToken) (leaseDuration : ℤ)
    (renewals : ℕ) : fencing.Keeps O i (Idle F)
      (T.heartbeatLoop jobId workerId leaseToken leaseDuration renewals) := by
  induction renewals with
  | zero => exact triple_pure fun _ _ h => h
  | succ renewals ih =>
    refine Keeps.bind (triple_query fun _ _ _ h _ => h) fun now => ?_
    have hrenews : KeepsToken T (T.renewLease now leaseDuration) := by
      intro job c' hc'
      cases hclaim : T.claim job with
      | none =>
        simp only [JobTable.renewLease, hclaim] at hc'
        cases hc'
      | some cl =>
        simp only [JobTable.renewLease, hclaim, hT.renewed] at hc'
        cases hc'
        exact ⟨cl, rfl, rfl⟩
    refine (Keeps.attempt (fenced_inTransaction hF
      (hT.triple_updateOwned hF hcarries hrenews))).bind fun renewed => ?_
    split
    · exact ih
    · exact triple_pure fun _ _ h => h

theorem Durable.keeps_recordFailure {jobId workerId leaseToken : ℕ}
    (hcarries : Carries i F ⟨hT.kind, jobId⟩ workerId leaseToken) {failed : ℤ → J₀ → J₀}
    (hdrops : ∀ now job, T.claim (failed now job) = none) :
    fencing.Keeps O i (Idle F) (T.recordFailure jobId workerId leaseToken failed) := by
  refine Keeps.bind (triple_query fun _ _ _ h _ => h) fun now => fenced_inTransaction hF ?_
  refine Triple.bind (hT.triple_lockRow hF (fun _ => true)
    fun d job h => ⟨hT.job_of_lookup h, rfl⟩) fun rows => ?_
  cases rows with
  | nil =>
    refine triple_pure fun c d h => ?_
    rcases h with ⟨_, hidle⟩ | ⟨job, hrows, _⟩
    · exact hidle.inTx
    · cases hrows
  | cons r rest =>
    obtain ⟨id, job⟩ := r
    dsimp only
    split
    · rename_i howned
      refine triple_emit fun c d h => ?_
      rcases h with ⟨hrows, _⟩ | ⟨job', hrows, hlocked⟩
      · cases hrows
      · cases hrows
        refine (bears_inTx hF).push _ _ _ hlocked.1.inTx (hT.justified_put hcarries
          ⟨hlocked.1, hlocked.2.1, hlocked.2.2.1, howned⟩ fun c' hc' => ?_)
        rw [hdrops] at hc'
        cases hc'
    · refine triple_pure fun c d h => ?_
      rcases h with ⟨_, hidle⟩ | ⟨job', hrows, hlocked⟩
      · exact hidle.inTx
      · exact hlocked.1.inTx

end
end
end Quantive.Candles
