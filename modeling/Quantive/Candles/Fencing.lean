import Quantive.Candles.HistoricalMerge

/-!
# Fencing of the durable jobs

The three job tables as one: a row has a state and possibly a claim, and every claim has a token
of its own. A transaction may change a row that it locked while the row carries the claim it acts
under; candles are written by a worker under such a lock alone.
-/

namespace Quantive.Candles
open Quantive.ReadCommitted Prog

inductive JobKind where
  | gap | merge | cagg
  deriving DecidableEq

structure JobRef where
  kind : JobKind
  id : ℕ
  deriving DecidableEq

inductive JobRow where
  | gap (job : GapRepairJob)
  | merge (job : HistoricalMergeJob)
  | cagg (job : CaggRefreshJob)
  deriving DecidableEq

namespace JobRow

def pending : JobRow → Bool
  | gap job => gapRepairJobs.pending job
  | merge job => mergeJobs.pending job
  | cagg job => caggRefreshJobs.pending job

def processing : JobRow → Bool
  | gap job => gapRepairJobs.processing job
  | merge job => mergeJobs.processing job
  | cagg job => caggRefreshJobs.processing job

def claim : JobRow → Option Claim
  | gap job => job.claim
  | merge job => job.claim
  | cagg job => job.claim

end JobRow

def JobRef.lock : JobRef → Lock
  | ⟨.gap, id⟩ => .gapJob id
  | ⟨.merge, id⟩ => .mergeJob id
  | ⟨.cagg, id⟩ => .caggJob id

namespace Database

def job (d : Database) : JobRef → Option JobRow
  | ⟨.gap, id⟩ => (d.gapJobs.lookup id).map .gap
  | ⟨.merge, id⟩ => (d.mergeJobs.lookup id).map .merge
  | ⟨.cagg, id⟩ => (d.caggJobs.lookup id).map .cagg

/-- The tokens that were ever put on a row. -/
def claimed (d : Database) : List ℕ :=
  d.history.filterMap fun e => match e with
    | .claimed token => some token
    | _ => none

/-- What the candle writes are about. -/
def candleData (d : Database) : Table CandleKey StoredCandle × Table CandleKey StoredCandle ×
    Table (CandleKey × ℕ) StoredCandle × Table ℕ SyncRange :=
  (d.raw, d.staging, d.revisions, d.syncRanges)

end Database

namespace Write

def job : Write → Option (JobRef × JobRow)
  | putGapJob id job => some (⟨.gap, id⟩, .gap job)
  | putMergeJob id job => some (⟨.merge, id⟩, .merge job)
  | putCaggJob id job => some (⟨.cagg, id⟩, .cagg job)
  | _ => none

def claims : Write → Option ℕ
  | note (.claimed token) => some token
  | _ => none

def candles : Write → Bool
  | putGapJob _ _ => false
  | putMergeJob _ _ => false
  | putCaggJob _ _ => false
  | note _ => false
  | _ => true

end Write

section
variable {d : Database} {w : Write}

theorem job_apply_of_none (h : w.job = none) (ref : JobRef) :
    (Store.apply w d).job ref = d.job ref := by
  cases w with
  | putGapJob id job => cases h
  | putMergeJob id job => cases h
  | putCaggJob id job => cases h
  | _ => rcases ref with ⟨kind, id⟩; cases kind <;> rfl

theorem job_apply_self {ref : JobRef} {row : JobRow} (h : w.job = some (ref, row)) :
    (Store.apply w d).job ref = some row := by
  cases w with
  | putGapJob id job =>
    cases h
    change ((d.gapJobs.insert id job).lookup id).map JobRow.gap = _
    rw [AList.lookup_insert]
    rfl
  | putMergeJob id job =>
    cases h
    change ((d.mergeJobs.insert id job).lookup id).map JobRow.merge = _
    rw [AList.lookup_insert]
    rfl
  | putCaggJob id job =>
    cases h
    change ((d.caggJobs.insert id job).lookup id).map JobRow.cagg = _
    rw [AList.lookup_insert]
    rfl
  | _ => cases h

theorem job_apply_ne {ref other : JobRef} {row : JobRow} (h : w.job = some (other, row))
    (hne : ref ≠ other) : (Store.apply w d).job ref = d.job ref := by
  rcases ref with ⟨kind, id⟩
  cases w with
  | putGapJob id' job =>
    cases h
    cases kind with
    | gap =>
      have hid : id ≠ id' := fun heq => hne (heq ▸ rfl)
      exact congrArg (Option.map JobRow.gap) (AList.lookup_insert_ne hid)
    | merge => rfl
    | cagg => rfl
  | putMergeJob id' job =>
    cases h
    cases kind with
    | gap => rfl
    | merge =>
      have hid : id ≠ id' := fun heq => hne (heq ▸ rfl)
      exact congrArg (Option.map JobRow.merge) (AList.lookup_insert_ne hid)
    | cagg => rfl
  | putCaggJob id' job =>
    cases h
    cases kind with
    | gap => rfl
    | merge => rfl
    | cagg =>
      have hid : id ≠ id' := fun heq => hne (heq ▸ rfl)
      exact congrArg (Option.map JobRow.cagg) (AList.lookup_insert_ne hid)
  | _ => cases h

theorem claimed_record (e : Event) : (d.record e).claimed = d.claimed ++ (match e with
    | .claimed token => [token]
    | _ => []) := by
  simp only [Database.claimed, Database.record, List.filterMap_append]
  cases e <;> rfl

theorem claimed_apply (w : Write) (d : Database) :
    (Store.apply w d).claimed = d.claimed ++ w.claims.toList := by
  cases w with
  | note e =>
    refine (claimed_record e).trans ?_
    cases e <;> rfl
  | putRaw writer key row => exact (claimed_record _).trans rfl
  | deleteStaged key => exact (claimed_record _).trans rfl
  | putGapJob id job => exact (claimed_record _).trans rfl
  | putMergeJob id job => exact (claimed_record _).trans rfl
  | _ => exact (List.append_nil _).symm

theorem candleData_apply (h : w.candles = false) (d : Database) :
    (Store.apply w d).candleData = d.candleData := by
  cases w with
  | putGapJob id job => rfl
  | putMergeJob id job => rfl
  | putCaggJob id job => rfl
  | note e => rfl
  | _ => cases h

end

/-! ### What a session may do -/

/-- A heartbeat is the task beside a worker that renews the lease of its claim; the other sessions
schedule jobs, repair inline and ingest. -/
inductive JobParty where
  | worker (kind : JobKind) (n : ℕ)
  | heartbeat (n : ℕ) (ref : JobRef) (workerId leaseToken : ℕ)
  | other (n : ℕ)
  deriving DecidableEq

/-- The claim is the one that the session acts under. A worker drew its token and its worker id,
and has no other claim. -/
def JobParty.Acts (owned claimed : List ℕ) (ref : JobRef) (c : Claim) : JobParty → Prop
  | worker kind _ => kind = ref.kind ∧ c.workerId ∈ owned ∧ c.leaseToken ∈ owned ∧
      ∀ n ∈ owned, n ∈ claimed → n = c.leaseToken
  | heartbeat _ r workerId leaseToken => r = ref ∧ c.workerId = workerId ∧
      c.leaseToken = leaseToken
  | other _ => False

/-- The row is PROCESSING, carries the claim of the session, and is locked by it. -/
def Owns (i : JobParty) (held : List Lock) (owned : List ℕ) (d : Database) (ref : JobRef) : Prop :=
  ref.lock ∈ held ∧ ∃ row c, d.job ref = some row ∧ row.processing = true ∧ row.claim = some c ∧
    i.Acts owned d.claimed ref c

/-- Merge workers wake gap jobs, the scheduler of staged days reopens merge jobs. -/
def JobParty.Reopens (ref : JobRef) : JobParty → Prop
  | worker kind _ => kind = .merge ∧ ref.kind = .gap
  | heartbeat _ _ _ _ => False
  | other _ => ref.kind = .merge

/-- How a session changes a row without claiming it. -/
inductive Transition (i : JobParty) (held : List Lock) (owned : List ℕ) (d : Database)
    (ref : JobRef) (after : JobRow) : Prop
  | inserted : ref.id ∈ owned → d.job ref = none → after.pending = true → after.claim = none →
      Transition i held owned d ref after
  | fenced {row : JobRow} {c : Claim} : ref.lock ∈ held → d.job ref = some row →
      row.processing = true → row.claim = some c → i.Acts owned d.claimed ref c →
      (∀ c', after.claim = some c' → c'.leaseToken = c.leaseToken) →
      Transition i held owned d ref after
  | reopened {row : JobRow} : ref.lock ∈ held → d.job ref = some row → row.processing = false →
      row.pending = false → after.pending = true →
      (∀ c', after.claim = some c' → row.claim = some c') → i.Reopens ref →
      Transition i held owned d ref after

def MayWrite (held : List Lock) (owned : List ℕ) (d : Database) : JobParty → Prop
  | .other _ => True
  | i => ∃ ref, Owns i held owned d ref

/-- A commit that claims nothing. -/
structure Change (i : JobParty) (held : List Lock) (owned : List ℕ) (d d' : Database) : Prop where
  jobs : ∀ ref, d'.job ref = d.job ref ∨
    ∃ after, d'.job ref = some after ∧ Transition i held owned d ref after
  candles : d'.candleData = d.candleData ∨ MayWrite held owned d i
  claimed : d'.claimed = d.claimed

/-- The commit of a claim: a worker puts a token that was never used on a row. -/
structure Claiming (i : JobParty) (held : List Lock) (owned : List ℕ) (d d' : Database)
    (ref : JobRef) (c : Claim) : Prop where
  party : ∃ n, i = .worker ref.kind n
  locked : ref.lock ∈ held
  before : ∃ row, d.job ref = some row ∧ (row.pending = true ∨ row.processing = true)
  after : ∃ row, d'.job ref = some row ∧ row.processing = true ∧ row.claim = some c
  worker : c.workerId ∈ owned
  token : c.leaseToken ∈ owned
  first : ∀ n ∈ owned, n ∉ d.claimed
  elsewhere : ∀ other, other ≠ ref → d'.job other = d.job other
  candles : d'.candleData = d.candleData
  claimed : d'.claimed = d.claimed ++ [c.leaseToken]

def Commits (i : JobParty) (held : List Lock) (owned : List ℕ) (d d' : Database) : Prop :=
  Change i held owned d d' ∨ ∃ ref c, Claiming i held owned d d' ref c

/-- Every token on a row was claimed, and no two rows have one token. -/
structure TokensKnown (d : Database) : Prop where
  known : ∀ ref row c, d.job ref = some row → row.claim = some c → c.leaseToken ∈ d.claimed
  unique : ∀ ref ref' row row' c c', d.job ref = some row → row.claim = some c →
    d.job ref' = some row' → row'.claim = some c' → c.leaseToken = c'.leaseToken → ref = ref'

/-- What the others leave alone: locked rows, and the names a session drew. -/
structure Undisturbed (held : List Lock) (owned : List ℕ) (d d' : Database) : Prop where
  locked : ∀ ref row, ref.lock ∈ held → d.job ref = some row → d'.job ref = some row
  absent : ∀ ref, ref.id ∈ owned → d.job ref = none → d'.job ref = none
  fresh : ∀ n ∈ owned, n ∈ d'.claimed → n ∈ d.claimed
  kept : ∀ n ∈ d.claimed, n ∈ d'.claimed

theorem change_refl (i : JobParty) (held : List Lock) (owned : List ℕ) (d : Database) :
    Change i held owned d d := ⟨fun _ => Or.inl rfl, Or.inl rfl, rfl⟩

def fencing : Protocol JobParty Database Lock where
  Inv := TokensKnown
  Rely _ := Undisturbed
  Unused n d := n ∉ d.claimed ∧ ∀ kind, d.job ⟨kind, n⟩ = none
  Commit := Commits
  rely_refl _ _ _ _ := ⟨fun _ _ _ h => h, fun _ _ h => h, fun _ _ h => h, fun _ h => h⟩
  rely_trans _ _ _ _ _ _ h h' :=
    ⟨fun ref row hl hr => h'.locked ref row hl (h.locked ref row hl hr),
      fun ref ho hr => h'.absent ref ho (h.absent ref ho hr),
      fun n ho hn => h.fresh n ho (h'.fresh n ho hn), fun n hn => h'.kept n (h.kept n hn)⟩
  commit_refl i held owned d := Or.inl (change_refl i held owned d)

/-! ### Commits keep the tokens in order -/

section
variable {i : JobParty} {held : List Lock} {owned : List ℕ} {d d' : Database} {ref : JobRef}

/-- A token that a row does not carry is not put there again once it was claimed. -/
def Dropped (token : ℕ) (ref : JobRef) (d : Database) : Prop :=
  ∀ row c, d.job ref = some row → row.claim = some c → c.leaseToken ≠ token

theorem Transition.dropped {after : JobRow} {token : ℕ}
    (h : Transition i held owned d ref after) (hd : Dropped token ref d) :
    ∀ c, after.claim = some c → c.leaseToken ≠ token := by
  intro c hc
  cases h with
  | inserted _ _ _ hnone =>
    rw [hnone] at hc
    cases hc
  | @fenced row c' _ hrow _ hclaim _ hsame =>
    rw [hsame c hc]
    exact hd row c' hrow hclaim
  | @reopened row _ hrow _ _ _ hsame _ => exact hd row c hrow (hsame c hc)

theorem Change.dropped {token : ℕ} (h : Change i held owned d d') (hd : Dropped token ref d) :
    Dropped token ref d' := by
  intro row c hrow hc
  rcases h.jobs ref with hsame | ⟨after, hafter, htransition⟩
  · exact hd row c (hsame ▸ hrow) hc
  · rw [hafter] at hrow
    cases hrow
    exact htransition.dropped hd c hc

theorem Claiming.dropped {token : ℕ} {at' : JobRef} {c : Claim}
    (h : Claiming i held owned d d' at' c) (htoken : token ∈ d.claimed)
    (hd : Dropped token ref d) : Dropped token ref d' := by
  intro row c' hrow hc'
  by_cases hat : ref = at'
  · subst hat
    obtain ⟨after, hafter, _, hclaim⟩ := h.after
    rw [hafter] at hrow
    cases hrow
    rw [hclaim] at hc'
    cases hc'
    rintro rfl
    exact h.first _ h.token htoken
  · rw [h.elsewhere ref hat] at hrow
    exact hd row c' hrow hc'

theorem Commits.dropped {token : ℕ} (h : Commits i held owned d d') (htoken : token ∈ d.claimed)
    (hd : Dropped token ref d) : Dropped token ref d' := by
  rcases h with hchange | ⟨at', c, hclaim⟩
  · exact hchange.dropped hd
  · exact hclaim.dropped htoken hd

theorem Commits.claimed {n : ℕ} (h : Commits i held owned d d') (hn : n ∈ d.claimed) :
    n ∈ d'.claimed := by
  rcases h with hchange | ⟨at', c, hclaim⟩
  · rw [hchange.claimed]
    exact hn
  · rw [hclaim.claimed]
    exact List.mem_append_left _ hn

/-- A row is never deleted. -/
theorem Commits.present (h : Commits i held owned d d') (hrow : d.job ref ≠ none) :
    d'.job ref ≠ none := by
  rcases h with hchange | ⟨at', c, hclaim⟩
  · rcases hchange.jobs ref with hsame | ⟨after, hafter, _⟩
    · rw [hsame]
      exact hrow
    · rw [hafter]
      exact Option.some_ne_none _
  · by_cases hat : ref = at'
    · subst hat
      obtain ⟨after, hafter, _⟩ := hclaim.after
      rw [hafter]
      exact Option.some_ne_none _
    · rw [hclaim.elsewhere ref hat]
      exact hrow

theorem Change.tokensKnown (h : Change i held owned d d') (hd : TokensKnown d) :
    TokensKnown d' := by
  -- a token of a row was on the row before
  have hold : ∀ ref row c, d'.job ref = some row → row.claim = some c → ∃ row₀ c₀,
      d.job ref = some row₀ ∧ row₀.claim = some c₀ ∧ c₀.leaseToken = c.leaseToken := by
    intro ref row c hrow hc
    by_contra hnone
    have hdropped : Dropped c.leaseToken ref d := fun row₀ c₀ hrow₀ hc₀ heq =>
      hnone ⟨row₀, c₀, hrow₀, hc₀, heq⟩
    exact h.dropped hdropped row c hrow hc rfl
  constructor
  · intro ref row c hrow hc
    obtain ⟨row₀, c₀, hrow₀, hc₀, htoken⟩ := hold ref row c hrow hc
    rw [h.claimed, ← htoken]
    exact hd.known ref row₀ c₀ hrow₀ hc₀
  · intro ref ref' row row' c c' hrow hc hrow' hc' heq
    obtain ⟨row₀, c₀, hrow₀, hc₀, htoken⟩ := hold ref row c hrow hc
    obtain ⟨row₁, c₁, hrow₁, hc₁, htoken'⟩ := hold ref' row' c' hrow' hc'
    exact hd.unique ref ref' row₀ row₁ c₀ c₁ hrow₀ hc₀ hrow₁ hc₁ (by omega)

theorem Claiming.tokensKnown {c : Claim} (h : Claiming i held owned d d' ref c)
    (hd : TokensKnown d) : TokensKnown d' := by
  obtain ⟨after, hafter, _, hclaim⟩ := h.after
  have hnew : c.leaseToken ∉ d.claimed := h.first _ h.token
  have hcases : ∀ r row c', d'.job r = some row → row.claim = some c' →
      (r = ref ∧ c' = c) ∨ (r ≠ ref ∧ d.job r = some row) := by
    intro r row c' hrow hc'
    by_cases hr : r = ref
    · subst hr
      rw [hafter] at hrow
      cases hrow
      rw [hclaim] at hc'
      cases hc'
      exact Or.inl ⟨rfl, rfl⟩
    · rw [h.elsewhere r hr] at hrow
      exact Or.inr ⟨hr, hrow⟩
  constructor
  · intro r row c' hrow hc'
    rw [h.claimed]
    rcases hcases r row c' hrow hc' with ⟨_, rfl⟩ | ⟨_, hrow₀⟩
    · exact List.mem_append_right _ List.mem_cons_self
    · exact List.mem_append_left _ (hd.known r row c' hrow₀ hc')
  · intro r r' row row' c₁ c₂ hrow hc₁ hrow' hc₂ heq
    rcases hcases r row c₁ hrow hc₁ with ⟨rfl, rfl⟩ | ⟨hr, hrow₀⟩
    · rcases hcases r' row' c₂ hrow' hc₂ with ⟨rfl, _⟩ | ⟨_, hrow₀⟩
      · rfl
      · exact (hnew (heq ▸ hd.known r' row' c₂ hrow₀ hc₂)).elim
    · rcases hcases r' row' c₂ hrow' hc₂ with ⟨rfl, rfl⟩ | ⟨_, hrow₁⟩
      · exact (hnew (heq ▸ hd.known r row c₁ hrow₀ hc₁)).elim
      · exact hd.unique r r' row row' c₁ c₂ hrow₀ hc₁ hrow₁ hc₂ heq

end

/-! ### The transactions of a session -/

section
variable {i : JobParty} {c : Ctx Write Lock} {d d' : Database} {ref : JobRef}

/-- A pending write that the session may commit. -/
structure Justified (i : JobParty) (held : List Lock) (owned : List ℕ) (d : Database) (w : Write) :
    Prop where
  jobs : ∀ ref after, w.job = some (ref, after) → Transition i held owned d ref after
  candles : w.candles = true → MayWrite held owned d i
  unclaimed : w.claims = none

def Ready (i : JobParty) (c : Ctx Write Lock) (d : Database) : Prop :=
  ∀ w ∈ c.log, Justified i c.held c.owned d w

theorem acts_mono {owned owned' claimed claimed' : List ℕ} {cl : Claim}
    (h : i.Acts owned claimed ref cl) (hsub : ∀ n ∈ owned, n ∈ owned')
    (hnew : ∀ n ∈ owned', n ∈ claimed' → n ∈ owned ∧ n ∈ claimed) :
    i.Acts owned' claimed' ref cl := by
  cases i with
  | worker kind n =>
    obtain ⟨hkind, hworker, htoken, hlast⟩ := h
    exact ⟨hkind, hsub _ hworker, hsub _ htoken, fun n hn hc =>
      hlast n (hnew n hn hc).1 (hnew n hn hc).2⟩
  | heartbeat n r workerId leaseToken => exact h
  | other n => exact h

/-- A session moves on: it locks more, draws more, and the others leave it undisturbed. -/
structure Onward (held held' : List Lock) (owned owned' : List ℕ) (d d' : Database) : Prop where
  locks : ∀ l ∈ held, l ∈ held'
  names : ∀ n ∈ owned, n ∈ owned'
  locked : ∀ ref row, ref.lock ∈ held → d.job ref = some row → d'.job ref = some row
  absent : ∀ ref, ref.id ∈ owned → d.job ref = none → d'.job ref = none
  claimed : ∀ n ∈ owned', n ∈ d'.claimed → n ∈ owned ∧ n ∈ d.claimed

section
variable {held held' : List Lock} {owned owned' : List ℕ} (hon : Onward held held' owned owned' d d')
include hon

theorem Onward.owns (h : Owns i held owned d ref) : Owns i held' owned' d' ref := by
  obtain ⟨hlock, row, cl, hrow, hprocessing, hclaim, hacts⟩ := h
  exact ⟨hon.locks _ hlock, row, cl, hon.locked _ _ hlock hrow, hprocessing, hclaim,
    acts_mono hacts hon.names hon.claimed⟩

theorem Onward.mayWrite (h : MayWrite held owned d i) : MayWrite held' owned' d' i := by
  cases i with
  | other n => trivial
  | worker kind n =>
    obtain ⟨ref, howns⟩ := h
    exact ⟨ref, hon.owns howns⟩
  | heartbeat n r workerId leaseToken =>
    obtain ⟨ref, howns⟩ := h
    exact ⟨ref, hon.owns howns⟩

theorem Onward.transition {after : JobRow} (h : Transition i held owned d ref after) :
    Transition i held' owned' d' ref after := by
  cases h with
  | inserted hid hnone hpending hclaim =>
    exact .inserted (hon.names _ hid) (hon.absent _ hid hnone) hpending hclaim
  | fenced hlock hrow hprocessing hclaim hacts hsame =>
    exact .fenced (hon.locks _ hlock) (hon.locked _ _ hlock hrow) hprocessing hclaim
      (acts_mono hacts hon.names hon.claimed) hsame
  | reopened hlock hrow hprocessing hpending hafter hsame hparty =>
    exact .reopened (hon.locks _ hlock) (hon.locked _ _ hlock hrow) hprocessing hpending hafter
      hsame hparty

theorem Onward.justified {w : Write} (h : Justified i held owned d w) :
    Justified i held' owned' d' w where
  jobs ref after hw := hon.transition (h.jobs ref after hw)
  candles hw := hon.mayWrite (h.candles hw)
  unclaimed := h.unclaimed

end

theorem onward_env (he : fencing.Env i c d d') : Onward c.held c.held c.owned c.owned d d' where
  locks _ h := h
  names _ h := h
  locked ref row hl hr := he.1.locked ref row hl hr
  absent ref hid hr := he.1.absent ref hid hr
  claimed n hn hc := ⟨hn, he.1.fresh n hn hc⟩

theorem onward_hold (l : Lock) : Onward c.held (c.hold l).held c.owned (c.hold l).owned d d where
  locks _ h := List.mem_cons_of_mem _ h
  names _ h := h
  locked _ _ _ h := h
  absent _ _ h := h
  claimed _ hn hc := ⟨hn, hc⟩

theorem onward_own {n : ℕ} (hn : n ∉ d.claimed) :
    Onward c.held (c.own n).held c.owned (c.own n).owned d d where
  locks _ h := h
  names _ h := List.mem_cons_of_mem _ h
  locked _ _ _ h := h
  absent _ _ h := h
  claimed m hm hc := by
    rcases List.mem_cons.mp hm with rfl | hm
    · exact (hn hc).elim
    · exact ⟨hm, hc⟩

/-- The rows under justified writes, by induction on the log. -/
theorem foldl_jobs {held : List Lock} {owned : List ℕ} (ws : List Write) {base : Database}
    (hlog : ∀ w ∈ ws, Justified i held owned base w)
    (hd : d.job ref = base.job ref ∨
      ∃ after, d.job ref = some after ∧ Transition i held owned base ref after) :
    (ws.foldl (fun d w => Store.apply w d) d).job ref = base.job ref ∨
      ∃ after, (ws.foldl (fun d w => Store.apply w d) d).job ref = some after ∧
        Transition i held owned base ref after := by
  induction ws generalizing d with
  | nil => exact hd
  | cons w ws ih =>
    refine ih (fun w hw => hlog w (List.mem_cons_of_mem _ hw)) ?_
    have hw := hlog w List.mem_cons_self
    cases hjob : w.job with
    | none =>
      rw [job_apply_of_none hjob]
      exact hd
    | some put =>
      obtain ⟨other, after⟩ := put
      by_cases href : ref = other
      · subst href
        exact Or.inr ⟨after, job_apply_self hjob, hw.jobs ref after hjob⟩
      · rw [job_apply_ne hjob href]
        exact hd

theorem view_job (h : Ready i c d) (ref : JobRef) : (c.view d).job ref = d.job ref ∨
    ∃ after, (c.view d).job ref = some after ∧ Transition i c.held c.owned d ref after :=
  foldl_jobs c.log h (Or.inl rfl)

theorem foldl_claimed {ws : List Write} (h : ∀ w ∈ ws, w.claims = none) :
    (ws.foldl (fun d w => Store.apply w d) d).claimed = d.claimed := by
  induction ws generalizing d with
  | nil => rfl
  | cons w ws ih =>
    rw [List.foldl_cons, ih fun w hw => h w (List.mem_cons_of_mem _ hw), claimed_apply,
      h w List.mem_cons_self]
    exact List.append_nil _

theorem foldl_candleData {ws : List Write} (h : ∀ w ∈ ws, w.candles = false) :
    (ws.foldl (fun d w => Store.apply w d) d).candleData = d.candleData := by
  induction ws generalizing d with
  | nil => rfl
  | cons w ws ih =>
    rw [List.foldl_cons, ih fun w hw => h w (List.mem_cons_of_mem _ hw),
      candleData_apply (h w List.mem_cons_self)]

theorem Ready.change (h : Ready i c d) : Change i c.held c.owned d (c.view d) where
  jobs := view_job h
  candles := by
    by_cases hnone : ∀ w ∈ c.log, w.candles = false
    · exact Or.inl (foldl_candleData hnone)
    · push Not at hnone
      obtain ⟨w, hw, hcandles⟩ := hnone
      exact Or.inr ((h w hw).candles (Bool.eq_true_of_not_eq_false hcandles))
  claimed := foldl_claimed fun w hw => (h w hw).unclaimed

/-- What others rely on survives a change by a session with other locks and names. -/
theorem Change.undisturbed {held : List Lock} {owned : List ℕ}
    (h : Change i c.held c.owned d d') (hheld : ∀ l ∈ held, l ∉ c.held)
    (howned : ∀ n ∈ owned, n ∉ c.owned) : Undisturbed held owned d d' where
  locked ref row hlock hrow := by
    rcases h.jobs ref with hsame | ⟨after, _, htransition⟩
    · rw [hsame]
      exact hrow
    · cases htransition with
      | inserted _ hnone =>
        rw [hnone] at hrow
        cases hrow
      | fenced hl => exact (hheld _ hlock hl).elim
      | reopened hl => exact (hheld _ hlock hl).elim
  absent ref hid hrow := by
    rcases h.jobs ref with hsame | ⟨after, _, htransition⟩
    · rw [hsame]
      exact hrow
    · cases htransition with
      | inserted hid' => exact (howned _ hid hid').elim
      | fenced _ hsome =>
        rw [hrow] at hsome
        cases hsome
      | reopened _ hsome =>
        rw [hrow] at hsome
        cases hsome
  fresh n _ hn := by rwa [h.claimed] at hn
  kept n hn := by rwa [h.claimed]

theorem Change.guar (h : Change i c.held c.owned d d') (hd : TokensKnown d) :
    fencing.Guar i c d d' where
  inv := h.tokensKnown hd
  rely _ _ _ _ hheld howned := h.undisturbed hheld howned
  unused n hn hunused := by
    refine ⟨by rw [h.claimed]; exact hunused.1, fun kind => ?_⟩
    rcases h.jobs ⟨kind, n⟩ with hsame | ⟨after, _, htransition⟩
    · rw [hsame]
      exact hunused.2 kind
    · cases htransition with
      | inserted hid => exact (hn hid).elim
      | fenced _ hsome =>
        rw [hunused.2 kind] at hsome
        cases hsome
      | reopened _ hsome =>
        rw [hunused.2 kind] at hsome
        cases hsome
  commit := Or.inl h

theorem Claiming.guar {cl : Claim} (h : Claiming i c.held c.owned d d' ref cl)
    (hd : TokensKnown d) : fencing.Guar i c d d' where
  inv := h.tokensKnown hd
  rely _ _ held owned hheld howned := by
    have helsewhere : ∀ r, (r.lock ∈ held ∨ d.job r = none) → d'.job r = d.job r := by
      intro r hr
      refine h.elsewhere r ?_
      rintro rfl
      obtain ⟨row, hrow, _⟩ := h.before
      rcases hr with hlock | hnone
      · exact hheld _ hlock h.locked
      · rw [hnone] at hrow
        cases hrow
    constructor
    · intro r row hlock hrow
      rw [helsewhere r (Or.inl hlock)]
      exact hrow
    · intro r _ hrow
      rw [helsewhere r (Or.inr hrow)]
      exact hrow
    · intro n hn hc
      rw [h.claimed] at hc
      rcases List.mem_append.mp hc with hc | hc
      · exact hc
      · rw [List.mem_singleton] at hc
        exact (howned n hn (hc ▸ h.token)).elim
    · intro n hn
      rw [h.claimed]
      exact List.mem_append_left _ hn
  unused n hn hunused := by
    constructor
    · rw [h.claimed]
      intro hc
      rcases List.mem_append.mp hc with hc | hc
      · exact hunused.1 hc
      · rw [List.mem_singleton] at hc
        exact hn (hc ▸ h.token)
    · intro kind
      rw [h.elsewhere ⟨kind, n⟩ ?_]
      · exact hunused.2 kind
      · rintro rfl
        obtain ⟨row, hrow, _⟩ := h.before
        rw [hunused.2 kind] at hrow
        cases hrow
  commit := Or.inr ⟨ref, cl, h⟩

end
end Quantive.Candles
