import Quantive.Backtests.Acceptance
import Quantive.Backtests.Persistence
import Quantive.ReadCommitted.Outcomes

/-!
# One result for a run

Whatever the evaluators submit and however they race, a run has one result, its rows are those of a
result that was accepted and never change, and every caller of `persist` learns the truth about them.
-/

namespace Quantive.Backtests
open Quantive.ReadCommitted Prog Protocol BacktestTask
open Strategies (AssetRow CanonicalStrategyDefinition CaseMapping StrategyDefinitionInput
  lockedAssetSnapshots referencedAssetIds)

/-! ### The tables -/

/-- A version keeps a definition on registered assets. -/
structure StrategyVersionRow.Stores (U : CaseMapping) (d : BacktestDatabase) (v : StrategyVersionRow)
    (definition : CanonicalStrategyDefinition) : Prop where
  canonical : v.canonicalDefinition = Strategies.stored definition.modelDump
  normalized : ∀ i ∈ definition.snapshots, i.Normalized U
  registered : ∀ i ∈ definition.universe, (d.assets i.assetId).isSome = true

/-- `persist` gets this far. -/
structure Persists (U : CaseMapping) (d : BacktestDatabase) (r : CanonicalBacktestResult) : Prop where
  validated : ∃ a, BacktestResultInput.validate a = .ok r.input
  loaded : d.loadStrategySnapshot U r.input.fields.strategyVersionId = .ok r.strategy
  references : validateForensicReferences r = .ok ()

/-- What a reply says of the tables, from then on. -/
structure Reply.Explained (U : CaseMapping) (d : BacktestDatabase) (reply : Reply) : Prop where
  stored : ∀ row, reply.outcome = .ok row → row ∈ d.results ∧ ∃ s, Persists U d ⟨reply.input, s⟩ ∧
    row.runId = (CanonicalBacktestResult.mk reply.input s).runId ∧
    row.resultHash = (CanonicalBacktestResult.mk reply.input s).resultHash
  conflict : ∀ message, reply.outcome = .error (.conflict message) →
    ∃ s, Persists U d ⟨reply.input, s⟩ ∧
      ∃ row ∈ d.results, row.runId = (CanonicalBacktestResult.mk reply.input s).runId ∧
        row.resultHash ≠ (CanonicalBacktestResult.mk reply.input s).resultHash
  reference : ∀ e, reply.outcome = .error (.reference e) →
    ∃ s, d.loadStrategySnapshot U reply.input.fields.strategyVersionId = .ok s ∧
      validateForensicReferences ⟨reply.input, s⟩ = .error e
  data : reply.outcome = .error (.database .data) →
    ∃ s, Persists U d ⟨reply.input, s⟩ ∧ ¬ CanonicalBacktestResult.Fits ⟨reply.input, s⟩
  integrity : reply.outcome = .error (.database .integrity) →
    ∃ s, Persists U d ⟨reply.input, s⟩ ∧ ¬ CanonicalBacktestResult.Positive ⟨reply.input, s⟩

structure BacktestDatabase.Consistent (U : CaseMapping) (d : BacktestDatabase) : Prop where
  versions : ∀ v ∈ d.versions, ∃ definition, v.Stores U d definition
  runs : (d.results.map (·.runId)).Nodup
  exact : ∀ row ∈ d.results, ∃ r, Persists U d r ∧ d.rowsOf row = storedRows r
  trades : ∀ t ∈ d.trades, (d.result t.1).isSome = true
  signals : ∀ s ∈ d.signals, (d.result s.1).isSome = true
  replies : ∀ reply ∈ d.replies, reply.Explained U d

/-- Rows are only added. -/
structure BacktestDatabase.Grows (d d' : BacktestDatabase) : Prop where
  assets : ∀ id, (d.assets id).isSome = true → (d'.assets id).isSome = true
  versions : d.versions <+: d'.versions
  results : d.results <+: d'.results
  trades : d.trades <+: d'.trades
  signals : d.signals <+: d'.signals
  replies : d.replies <+: d'.replies

namespace BacktestDatabase
variable {U : CaseMapping} {d d' d'' : BacktestDatabase} {runId : String} {row : BacktestResult ℚ}
  {r : CanonicalBacktestResult} {reply : Reply}

theorem Grows.refl (d : BacktestDatabase) : d.Grows d :=
  ⟨fun _ h => h, List.prefix_rfl, List.prefix_rfl, List.prefix_rfl, List.prefix_rfl, List.prefix_rfl⟩

theorem Grows.trans (h : d.Grows d') (h' : d'.Grows d'') : d.Grows d'' where
  assets id hid := h'.assets id (h.assets id hid)
  versions := h.versions.trans h'.versions
  results := h.results.trans h'.results
  trades := h.trades.trans h'.trades
  signals := h.signals.trans h'.signals
  replies := h.replies.trans h'.replies

theorem find?_prefix {α : Type} {p : α → Bool} {l l' : List α} {a : α} (h : l <+: l')
    (ha : l.find? p = some a) : l'.find? p = some a := by
  obtain ⟨rest, rfl⟩ := h
  rw [List.find?_append, ha]
  rfl

theorem Grows.result (h : d.Grows d') (hrow : d.result runId = some row) : d'.result runId = some row :=
  find?_prefix h.results hrow

theorem Grows.recorded (h : d.Grows d') (hrow : (d.result runId).isSome = true) :
    (d'.result runId).isSome = true := by
  obtain ⟨row, hrow⟩ := Option.isSome_iff_exists.mp hrow
  rw [h.result hrow]
  rfl

theorem mem_of_result (h : d.result runId = some row) : row ∈ d.results ∧ row.runId = runId := by
  have hrun := List.find?_some h
  exact ⟨List.mem_of_find?_eq_some h, by simpa using hrun⟩

theorem recorded_of_mem (h : row ∈ d.results) : (d.result row.runId).isSome = true :=
  List.find?_isSome.mpr ⟨row, h, decide_eq_true rfl⟩

theorem Grows.loaded (h : d.Grows d') {id : Fin (2 ^ 128)} {s : BacktestStrategySnapshot}
    (hs : d.loadStrategySnapshot U id = .ok s) : d'.loadStrategySnapshot U id = .ok s := by
  unfold loadStrategySnapshot at hs ⊢
  cases hv : d.version id with
  | none =>
    rw [hv] at hs
    cases hs
  | some v =>
    rw [hv] at hs
    rw [show d'.version id = some v from find?_prefix h.versions hv]
    exact hs

theorem Grows.persists (h : d.Grows d') (hr : Persists U d r) : Persists U d' r :=
  ⟨hr.validated, h.loaded hr.loaded, hr.references⟩

theorem Grows.explained (h : d.Grows d') (hreply : reply.Explained U d) : reply.Explained U d' where
  stored row hrow := by
    obtain ⟨hmem, s, hs, hsame⟩ := hreply.stored row hrow
    exact ⟨h.results.subset hmem, s, h.persists hs, hsame⟩
  conflict message he := by
    obtain ⟨s, hs, row, hmem, hsame⟩ := hreply.conflict message he
    exact ⟨s, h.persists hs, row, h.results.subset hmem, hsame⟩
  reference e he := by
    obtain ⟨s, hs, hreferences⟩ := hreply.reference e he
    exact ⟨s, h.loaded hs, hreferences⟩
  data he := by
    obtain ⟨s, hs, hfits⟩ := hreply.data he
    exact ⟨s, h.persists hs, hfits⟩
  integrity he := by
    obtain ⟨s, hs, hpositive⟩ := hreply.integrity he
    exact ⟨s, h.persists hs, hpositive⟩

theorem Grows.stores (h : d.Grows d') {v : StrategyVersionRow} {definition : CanonicalStrategyDefinition}
    (hv : v.Stores U d definition) : v.Stores U d' definition :=
  ⟨hv.canonical, hv.normalized, fun i hi => h.assets _ (hv.registered i hi)⟩

/-- What is loaded is a version that is there, with its definition as it was read. -/
theorem loaded_cases {id : Fin (2 ^ 128)} {s : BacktestStrategySnapshot}
    (h : d.loadStrategySnapshot U id = .ok s) : ∃ v ∈ d.versions, s.strategyVersionId = v.id ∧
      s.strategyId = v.strategyId ∧ s.strategyDefinitionHash = definitionHash s.definition ∧
      CanonicalStrategyDefinition.modelValidate U v.canonicalDefinition = some s.definition := by
  unfold loadStrategySnapshot at h
  cases hv : d.version id with
  | none =>
    rw [hv] at h
    cases h
  | some v =>
    rw [hv] at h
    dsimp only at h
    cases hdefinition : CanonicalStrategyDefinition.modelValidate U v.canonicalDefinition with
    | none =>
      rw [hdefinition] at h
      cases h
    | some definition =>
      rw [hdefinition] at h
      dsimp only at h
      split at h
      · cases h
      · rename_i hhash
        cases h
        exact ⟨v, List.mem_of_find?_eq_some hv, rfl, rfl, (not_not.mp hhash).symm, hdefinition⟩

end BacktestDatabase

section
variable {U : CaseMapping} {d d' : BacktestDatabase} {r : CanonicalBacktestResult}
open BacktestDatabase

theorem Persists.accepted (h : Persists U d r) : r.Accepted := by
  obtain ⟨a, ha⟩ := h.validated
  obtain ⟨v, -, -, -, hhash, -⟩ := loaded_cases h.loaded
  exact accepted_of_validate ha h.references hhash

/-- What an accepted result names is there: the asset registry and the catalog lose no row. -/
theorem BacktestDatabase.Consistent.keyed_iff (hd : d.Consistent U) (h : Persists U d r) :
    r.Keyed d.references ↔ d.result r.runId = none := by
  obtain ⟨v, hv, hid, hstrategy, -, hread⟩ := loaded_cases h.loaded
  obtain ⟨definition, hstores⟩ := hd.versions v hv
  have huniverse : r.strategy.definition.universe = definition.universe := by
    rw [hstores.canonical, definition.modelValidate_stored hstores.normalized] at hread
    split at hread
    · exact congrArg (·.universe) (Option.some.inj hread).symm
    · cases hread
  have hasset {z : ℤ} (hz : z ∈ r.strategy.definition.universe.map fun i => (i.assetId : ℤ)) :
      d.references.asset z = true := by
    obtain ⟨i, hi, rfl⟩ := List.mem_map.mp hz
    rw [huniverse] at hi
    simpa [references] using hstores.registered i hi
  have hreferences := validateForensicReferences_iff.mp h.references
  constructor
  · intro hkeyed
    simpa [references] using hkeyed.fresh
  · intro hnone
    refine ⟨by simp [references, hnone], ?_, fun t ht => hasset (hreferences.trades t ht).1,
      fun s hs => hasset (hreferences.signals s hs).1⟩
    refine List.any_eq_true.mpr ⟨v, hv, ?_⟩
    simp [hid, hstrategy]

/-! ### A new run -/

theorem filter_other {α : Type} {key other : String} (h : other ≠ key) (l : List (String × α)) (added : List α) :
    (l ++ added.map fun a => (other, a)).filter (fun t => t.1 = key) = l.filter fun t => t.1 = key := by
  simp [List.filter_append, List.filter_map, h]

theorem filter_own {α : Type} {key : String} {l : List (String × α)} (hl : ∀ t ∈ l, t.1 ≠ key) (added : List α) :
    ((l ++ added.map fun a => (key, a)).filter fun t => t.1 = key).map Prod.snd = added := by
  have hnone : l.filter (fun t => t.1 = key) = [] :=
    List.filter_eq_nil_iff.mpr fun t ht => by simpa using hl t ht
  rw [List.filter_append, hnone, List.nil_append, List.filter_eq_self.mpr (by simp), List.map_map]
  exact List.map_id' added

theorem grows_addRows (rows : ResultRows) (d : BacktestDatabase) :
    d.Grows (BacktestDatabase.apply (.addRows rows) d) :=
  ⟨fun _ h => h, List.prefix_rfl, List.prefix_append _ _, List.prefix_append _ _, List.prefix_append _ _,
    List.prefix_rfl⟩

/-- The rows of a run that is not there yet. -/
theorem BacktestDatabase.Consistent.addRows {rows : ResultRows} (hd : d.Consistent U) (h : Persists U d r)
    (hrows : rows = storedRows r) (hnew : d.result rows.result.runId = none) :
    (BacktestDatabase.apply (.addRows rows) d).Consistent U := by
  have hgrows := grows_addRows rows d
  have hother {runId : String} (hrun : (d.result runId).isSome = true) : rows.result.runId ≠ runId := by
    rintro rfl
    rw [hnew] at hrun
    cases hrun
  have hrecorded : ((BacktestDatabase.apply (.addRows rows) d).result rows.result.runId).isSome = true :=
    recorded_of_mem (List.mem_append_right d.results (List.mem_singleton_self rows.result))
  have hkeys {α : Type} {l : List (String × α)} {added : List α}
      (hl : ∀ t ∈ l, (d.result t.1).isSome = true) : ∀ t ∈ l ++ added.map fun a => (rows.result.runId, a),
      ((BacktestDatabase.apply (.addRows rows) d).result t.1).isSome = true := by
    intro t ht
    rcases List.mem_append.mp ht with ht | ht
    · exact hgrows.recorded (hl t ht)
    · obtain ⟨a, -, rfl⟩ := List.mem_map.mp ht
      exact hrecorded
  constructor
  · intro v hv
    obtain ⟨definition, hstores⟩ := hd.versions v hv
    exact ⟨definition, hgrows.stores hstores⟩
  · have hfresh : rows.result.runId ∉ d.results.map (·.runId) := by
      intro hmem
      obtain ⟨row, hrow, hrun⟩ := List.mem_map.mp hmem
      exact hother (recorded_of_mem hrow) hrun.symm
    change ((d.results ++ [rows.result]).map (·.runId)).Nodup
    rw [List.map_append, List.nodup_append]
    refine ⟨hd.runs, List.nodup_singleton _, fun runId hmem other hlast hsame => ?_⟩
    rw [hsame, List.mem_singleton.mp hlast] at hmem
    exact hfresh hmem
  · intro row hrow
    rcases List.mem_append.mp hrow with hrow | hrow
    · obtain ⟨r', hr', hsame⟩ := hd.exact row hrow
      refine ⟨r', hgrows.persists hr', ?_⟩
      have hne := hother (recorded_of_mem hrow)
      rw [← hsame]
      unfold rowsOf BacktestDatabase.apply
      dsimp only
      rw [filter_other hne, filter_other hne]
    · obtain rfl := List.mem_singleton.mp hrow
      refine ⟨r, hgrows.persists h, ?_⟩
      unfold rowsOf BacktestDatabase.apply
      dsimp only
      rw [filter_own fun t ht => (hother (hd.trades t ht)).symm,
        filter_own fun s hs => (hother (hd.signals s hs)).symm]
      exact hrows
  · exact hkeys hd.trades
  · exact hkeys hd.signals
  · exact fun reply hreply => hgrows.explained (hd.replies reply hreply)

end

/-! ### The protocol -/

/-- What a session relies on: rows are only added, and not those of a run whose key it has locked. -/
structure BacktestRely (held : List BacktestLock) (d d' : BacktestDatabase) : Prop where
  grows : d.Grows d'
  absent : ∀ runId, .run runId ∈ held → d.result runId = none → d'.result runId = none

def archive (U : CaseMapping) : Protocol ℕ BacktestDatabase BacktestLock where
  Inv := BacktestDatabase.Consistent U
  Rely _ held _ := BacktestRely held
  Commit _ _ _ := BacktestDatabase.Grows
  rely_refl _ _ _ d := ⟨.refl d, fun _ _ h => h⟩
  rely_trans _ _ _ _ _ _ h h' := ⟨h.grows.trans h'.grows, fun runId hheld hd =>
    h'.absent runId hheld (h.absent runId hheld hd)⟩
  commit_refl _ _ _ := BacktestDatabase.Grows.refl

section
variable {U : CaseMapping} {i : ℕ} {c : Ctx BacktestWrite BacktestLock} {d d' : BacktestDatabase}
  {O : (q : BacktestQuestion) → BacktestAnswer q → Prop} {α : Type}
  {J Pre : Ctx BacktestWrite BacktestLock → BacktestDatabase → Prop}
  {r : CanonicalBacktestResult} {reply : Reply}

theorem guar_of_grows (hd : d'.Consistent U) (hgrows : d.Grows d')
    (habsent : ∀ runId, .run runId ∉ c.held → d.result runId = none → d'.result runId = none) :
    (archive U).Guar i c d d' :=
  ⟨hd, fun _ _ _ _ hheld _ => ⟨hgrows, fun runId hlock => habsent runId (hheld _ hlock)⟩,
    fun _ _ _ => trivial, hgrows⟩

/-- The transaction has written nothing. -/
def Idle (U : CaseMapping) (c : Ctx BacktestWrite BacktestLock) (d : BacktestDatabase) : Prop :=
  d.Consistent U ∧ c.log = []

theorem Idle.view (h : Idle U c d) : c.view d = d := by
  unfold Ctx.view
  rw [h.2]
  rfl

theorem idle_lockable : (archive U).Lockable i (Idle U) :=
  ⟨fun _ _ _ h he => ⟨he.2, h.2⟩, fun _ _ _ h => h⟩

/-- The transaction may commit, and what it is to report is then true. -/
def Commits (U : CaseMapping) (i : ℕ) (report : BacktestDatabase → Prop)
    (c : Ctx BacktestWrite BacktestLock) (d : BacktestDatabase) : Prop :=
  ∀ d', (archive U).Env i c d d' → (archive U).Guar i c d' (c.view d') ∧ report (c.view d')

theorem Idle.commits {report : BacktestDatabase → Prop} (h : Idle U c d) (hd : report d)
    (hreport : ∀ d d' : BacktestDatabase, d.Grows d' → report d → report d') :
    Commits U i report c d := by
  intro d' he
  rw [Idle.view ⟨he.2, h.2⟩]
  exact ⟨guar_same he.2, hreport d d' he.1.grows hd⟩

/-- A transaction of the service; `K` is what its outcome says of the tables. -/
theorem contract_inTransaction {body : BacktestTask α}
    {K : Except BacktestFailure α → BacktestDatabase → Prop}
    (hK : ∀ outcome, ∀ d d' : BacktestDatabase, d.Grows d' → K outcome d → K outcome d')
    (hfault : ∀ d, K (.error .unavailable) d)
    (h : (archive U).Contract O i (Idle U) body (fun a => Commits U i (K (.ok a)))
      fun e _ d => K (.error e) d) :
    (archive U).Contract O i (Idle U) (inTransaction body) (fun a c d => Idle U c d ∧ K (.ok a) d)
      fun e c d => Idle U c d ∧ K (.error e) d := by
  have hunavailable : (archive U).Contract O i (Idle U) (raise .unavailable : BacktestTask α)
      (fun a c d => Idle U c d ∧ K (.ok a) d) fun e c d => Idle U c d ∧ K (.error e) d :=
    contract_raise fun c d hd => ⟨hd, hfault d⟩
  refine Contract.seq (fun _ => Idle U) (triple_query fun c d q hd _ => hd) fun fault => ?_
  cases fault with
  | true => exact hunavailable
  | false =>
    have hbody : (archive U).Contract O i (Idle U) (transaction body)
        (fun a c d => Idle U c d ∧ K (.ok a) d) fun e c d => Idle U c d ∧ K (.error e) d := by
      refine Contract.transaction h (fun e c d d' he henv => ?_) fun a c d d' hc henv => ?_
      · exact ⟨⟨henv.2, rfl⟩, hK _ d d' henv.1.grows he⟩
      · obtain ⟨hguar, hreport⟩ := hc d' henv
        exact ⟨hguar, ⟨hguar.inv, rfl⟩, hreport⟩
    refine hbody.bind fun result => Contract.seq (fun _ c d => Idle U c d ∧ K (.ok result) d)
      (triple_query fun c d q hd _ => hd) fun late => ?_
    cases late with
    | true => exact contract_raise fun c d hd => ⟨hd.1, hfault d⟩
    | false => exact contract_pure fun c d hd => hd

/-! ### A call of `persist` -/

-- no unification evaluates a hash or an INSERT
attribute [local irreducible] hashPayload insertRows

/-- `persist` has loaded the strategy of the result and has written nothing. -/
def Checked (U : CaseMapping) (r : CanonicalBacktestResult) (c : Ctx BacktestWrite BacktestLock)
    (d : BacktestDatabase) : Prop := Idle U c d ∧ Persists U d r

theorem checked_lockable : (archive U).Lockable i (Checked U r) :=
  ⟨fun _ _ _ h he => ⟨⟨he.2, h.1.2⟩, he.1.grows.persists h.2⟩, fun _ _ _ h => h⟩

def Explains (U : CaseMapping) (resultInput : BacktestResultInput)
    (outcome : Except BacktestFailure (BacktestResult ℚ)) (d : BacktestDatabase) : Prop :=
  Reply.Explained U d ⟨resultInput, outcome⟩

/-- `_existing_run`, where `F` holds as long as the run is not there. -/
theorem triple_existingRun {F : Prop} (hPre : (archive U).Lockable i Pre)
    (hidle : ∀ c d, Pre c d → Idle U c d) (runId : String)
    (hF : ∀ c d, Pre c d → F ∨ (d.result runId).isSome = true) :
    (archive U).Triple O i J Pre (existingRun runId) fun found c d =>
      Pre c d ∧ (∀ row, found = some row → d.result runId = some row) ∧ (found = none → F) := by
  have hread {c : Ctx BacktestWrite BacktestLock} {d : BacktestDatabase} (h : Pre c d) :
      (c.view d).result runId = none → F := by
    rw [(hidle c d h).view]
    intro hnone
    refine (hF c d h).resolve_right fun hsome => ?_
    rw [hnone] at hsome
    cases hsome
  refine (triple_look hPre.stable).bind fun s => ?_
  dsimp only
  cases hs : s.result runId with
  | none =>
    refine triple_pure fun c d h => ⟨h.1, fun row hrow => by (cases hrow), fun _ => ?_⟩
    exact hread h.1 (h.2 ▸ hs)
  | some _ =>
    refine Triple.seq (fun _ => Pre) (triple_acquire fun c d d' h he =>
      hPre.hold c d' _ (hPre.stable c d d' h.1 he)) fun _ => ?_
    refine (triple_look hPre.stable).bind fun s => triple_pure fun c d h => ?_
    obtain ⟨hpre, rfl⟩ := h
    refine ⟨hpre, fun row hrow => ?_, hread hpre⟩
    rwa [(hidle c d hpre).view] at hrow

theorem contract_confirm (existing : BacktestResult ℚ) :
    (archive U).Contract O i (fun c d => Checked U r c d ∧ d.result r.runId = some existing)
      (confirm r existing) (fun row => Commits U i (Explains U r.input (.ok row)))
      fun e _ d => Explains U r.input (.error e) d := by
  unfold confirm
  split
  · rename_i hhash
    refine contract_raise fun c d h => ?_
    obtain ⟨hmem, hrun⟩ := BacktestDatabase.mem_of_result h.2
    exact {
      stored := fun row hrow => by cases hrow
      conflict := fun _ _ => ⟨r.strategy, h.1.2, existing, hmem, hrun, hhash⟩
      reference := fun e he => by cases he
      data := fun he => by cases he
      integrity := fun he => by cases he }
  · rename_i hhash
    refine contract_pure fun c d h => h.1.1.commits ?_ fun _ _ hgrows => hgrows.explained
    obtain ⟨hmem, hrun⟩ := BacktestDatabase.mem_of_result h.2
    exact {
      stored := fun row hrow => by
        cases hrow
        exact ⟨hmem, r.strategy, h.1.2, hrun, not_not.mp hhash⟩
      conflict := fun _ he => by cases he
      reference := fun e he => by cases he
      data := fun he => by cases he
      integrity := fun he => by cases he }

/-- How an INSERT fails: behind its savepoint it has written nothing. -/
def Refused (U : CaseMapping) (r : CanonicalBacktestResult) (e : BacktestFailure)
    (c : Ctx BacktestWrite BacktestLock) (d : BacktestDatabase) : Prop :=
  Checked U r c d ∧ (e = .database .data ∧ ¬ r.Fits ∨
    e = .database .integrity ∧ (¬ r.Positive ∨ (d.result r.runId).isSome = true))

theorem Checked.refused {e : ColumnError} (h : Checked U r c d)
    (hfail : insertRows d.references r = .error e) : Refused U r (.database e) c d := by
  refine ⟨h, ?_⟩
  rcases insertRows_error h.2.accepted hfail with ⟨rfl, hfits⟩ | ⟨rfl, hboth⟩
  · exact .inl ⟨rfl, hfits⟩
  · refine .inr ⟨rfl, ?_⟩
    rw [h.1.1.keyed_iff h.2] at hboth
    by_cases hpositive : r.Positive
    · exact .inr (Option.isSome_iff_ne_none.mpr fun hnone => hboth ⟨hpositive, hnone⟩)
    · exact .inl hpositive

theorem storedRows_runId (r : CanonicalBacktestResult) : (storedRows r).result.runId = r.runId := rfl

theorem storedRows_resultHash (r : CanonicalBacktestResult) :
    (storedRows r).result.resultHash = r.resultHash := rfl

/-- The rows of a new run are committed with their key, and the caller is told so. -/
theorem Checked.addRows {rows : ResultRows} (h : Checked U r c d) (hlock : .run r.runId ∈ c.held)
    (hok : insertRows d.references r = .ok rows) :
    Commits U i (Explains U r.input (.ok rows.result)) (c.push (.addRows rows)) d := by
  intro d' he
  obtain ⟨⟨-, -, hkeyed⟩, hrows⟩ := (insertRows_iff h.2.accepted).mp hok
  have hnew : d'.result r.runId = none := he.1.absent _ hlock ((h.1.1.keyed_iff h.2).mp hkeyed)
  have hpersists := he.1.grows.persists h.2
  have hview : (c.push (.addRows rows)).view d' = BacktestDatabase.apply (.addRows rows) d' := by
    rw [Ctx.view_push, Idle.view ⟨he.2, h.1.2⟩]
    rfl
  have hrun : rows.result.runId = r.runId := by rw [hrows, storedRows_runId]
  have hgrows := grows_addRows rows d'
  rw [hview]
  refine ⟨guar_of_grows (he.2.addRows hpersists hrows (hrun ▸ hnew)) hgrows fun runId hfree hnone => ?_, ?_⟩
  · have hne : rows.result.runId ≠ runId := fun hsame => hfree (hsame ▸ hrun ▸ hlock)
    unfold BacktestDatabase.result at hnone ⊢
    change (d'.results ++ [rows.result]).find? _ = none
    rw [List.find?_append, hnone, Option.none_or, List.find?_singleton, if_neg (by simpa using hne)]
  · exact {
      stored := fun row hrow => by
        cases hrow
        refine ⟨List.mem_append_right d'.results (List.mem_singleton_self rows.result), r.strategy,
          hgrows.persists hpersists, hrun, ?_⟩
        rw [hrows, storedRows_resultHash]
      conflict := fun _ he => by cases he
      reference := fun e he => by cases he
      data := fun he => by cases he
      integrity := fun he => by cases he }

theorem contract_addResultRows : (archive U).Contract O i (Checked U r) (addResultRows r)
    (fun row => Commits U i (Explains U r.input (.ok row))) (Refused U r) := by
  refine Contract.seq (fun s c d => Checked U r c d ∧ s = d)
    ((triple_look checked_lockable.stable).post fun s c d h => ⟨h.1, h.2.trans h.1.1.view⟩) fun s => ?_
  cases hfirst : insertRows s.references r with
  | error e =>
    refine contract_raise fun c d h => ?_
    obtain ⟨hchecked, rfl⟩ := h
    exact hchecked.refused hfirst
  | ok _ =>
    have hlocked : (archive U).Lockable i fun c d => Checked U r c d ∧ .run r.runId ∈ c.held :=
      ⟨fun c d d' h he => ⟨checked_lockable.stable c d d' h.1 he, h.2⟩,
        fun c d l h => ⟨(checked_lockable (i := i)).hold c d l h.1, List.mem_cons_of_mem _ h.2⟩⟩
    refine Contract.seq (fun _ c d => Checked U r c d ∧ .run r.runId ∈ c.held)
      (triple_acquire fun c d d' h he => ⟨(checked_lockable (i := i)).hold c d' _
        (checked_lockable.stable c d d' h.1 he), List.mem_cons_self⟩) fun _ => ?_
    refine Contract.seq (fun s c d => (Checked U r c d ∧ .run r.runId ∈ c.held) ∧ s = d)
      ((triple_look hlocked.stable).post fun s c d h => ⟨h.1, h.2.trans h.1.1.1.view⟩) fun s => ?_
    cases hagain : insertRows s.references r with
    | error e =>
      refine contract_raise fun c d h => ?_
      obtain ⟨⟨hchecked, -⟩, rfl⟩ := h
      exact hchecked.refused hagain
    | ok rows =>
      refine Contract.seq (fun _ => Commits U i (Explains U r.input (.ok rows.result)))
        (triple_emit fun c d h => ?_) fun _ => contract_pure fun c d h => h
      obtain ⟨⟨hchecked, hlock⟩, rfl⟩ := h
      exact hchecked.addRows hlock hagain

/-- The end of `persist`. -/
theorem contract_persistResult : (archive U).Contract O i (Checked U r) (persistResult r)
    (fun row => Commits U i (Explains U r.input (.ok row))) fun e _ d => Explains U r.input (.error e) d := by
  have hfound (existing : BacktestResult ℚ) {K : Ctx BacktestWrite BacktestLock → BacktestDatabase → Prop}
      (hK : ∀ c d, K c d → Checked U r c d ∧ d.result r.runId = some existing) :
      (archive U).Contract O i K (confirm r existing) (fun row => Commits U i (Explains U r.input (.ok row)))
        fun e _ d => Explains U r.input (.error e) d :=
    (contract_confirm existing).conseq hK (fun _ _ _ h => h) fun _ _ _ h => h
  unfold persistResult
  refine Contract.seq _ (triple_existingRun (F := True) checked_lockable (fun c d h => h.1) r.runId
    fun _ _ _ => .inl trivial) fun found => ?_
  cases found with
  | some existing => exact hfound existing fun c d h => ⟨h.1, h.2.1 existing rfl⟩
  | none =>
    dsimp only
    refine Contract.seq _ ((Contract.attempt contract_addResultRows).pre fun c d h => h.1) fun outcome => ?_
    cases outcome with
    | ok result => exact contract_pure fun c d h => h
    | error e =>
      cases e with
      | database e =>
        cases e with
        | data =>
          refine contract_raise fun c d h => ?_
          obtain ⟨hchecked, ⟨-, hfits⟩ | ⟨he, -⟩⟩ := h
          · exact {
              stored := fun row hrow => by cases hrow
              conflict := fun _ he => by cases he
              reference := fun e he => by cases he
              data := fun _ => ⟨r.strategy, hchecked.2, hfits⟩
              integrity := fun he => by cases he }
          · cases he
        | integrity =>
          -- the INSERT lost a race, or an amount is not positive
          have hlockable : (archive U).Lockable i fun c d =>
              Checked U r c d ∧ (¬ r.Positive ∨ (d.result r.runId).isSome = true) :=
            ⟨fun c d d' h he => ⟨checked_lockable.stable c d d' h.1 he, h.2.imp_right he.1.grows.recorded⟩,
              fun c d l h => ⟨(checked_lockable (i := i)).hold c d l h.1, h.2⟩⟩
          refine Contract.seq _ ((triple_existingRun hlockable (fun c d h => h.1.1) r.runId
            fun c d h => h.2).pre fun c d h => ?_) fun found => ?_
          · obtain ⟨hchecked, ⟨he, -⟩ | ⟨-, hwhy⟩⟩ := h
            · cases he
            · exact ⟨hchecked, hwhy⟩
          cases found with
          | some raced => exact hfound raced fun c d h => ⟨h.1.1, h.2.1 raced rfl⟩
          | none =>
            refine contract_raise fun c d h => ?_
            exact {
              stored := fun row hrow => by cases hrow
              conflict := fun _ he => by cases he
              reference := fun e he => by cases he
              data := fun he => by cases he
              integrity := fun _ => ⟨r.strategy, h.1.1.2, h.2.2 rfl⟩ }
      | _ =>
        refine contract_raise fun c d h => ?_
        obtain ⟨-, ⟨he, -⟩ | ⟨he, -⟩⟩ := h
        · cases he
        · cases he

/-- A BacktestResultError of the strategy, or a failure of the database itself. -/
theorem explained_message {resultInput : BacktestResultInput} {e : BacktestFailure}
    (h : e = .unavailable ∨ ∃ message, e = .result message) (d : BacktestDatabase) :
    Explains U resultInput (.error e) d := by
  rcases h with rfl | ⟨message, rfl⟩
  · exact ⟨fun row hrow => by (cases hrow), fun _ he => by (cases he), fun e he => by (cases he),
      fun he => by (cases he), fun he => by (cases he)⟩
  · exact ⟨fun row hrow => by (cases hrow), fun _ he => by (cases he), fun e he => by (cases he),
      fun he => by (cases he), fun he => by (cases he)⟩

theorem contract_persist {resultInput : BacktestResultInput}
    (hvalid : ∃ a, BacktestResultInput.validate a = .ok resultInput) :
    (archive U).Contract O i (Idle U) (persist U resultInput)
      (fun row c d => Idle U c d ∧ Explains U resultInput (.ok row) d)
      fun e c d => Idle U c d ∧ Explains U resultInput (.error e) d := by
  refine contract_inTransaction (fun _ _ _ hgrows => hgrows.explained)
    (fun d => explained_message (.inl rfl) d) ?_
  refine Contract.seq (fun s c d => Idle U c d ∧ s.Grows d)
    ((triple_look idle_lockable.stable).post fun s c d h => ⟨h.1, ?_⟩) fun s => ?_
  · rw [h.2, h.1.view]
    exact .refl d
  cases hload : s.loadStrategySnapshot U resultInput.fields.strategyVersionId with
  | error message => exact contract_raise fun c d h => explained_message (.inr ⟨message, rfl⟩) d
  | ok snapshot =>
    dsimp only
    cases hreferences : validateForensicReferences ⟨resultInput, snapshot⟩ with
    | error e =>
      exact contract_raise fun c d h => {
        stored := fun row hrow => by cases hrow
        conflict := fun _ he => by cases he
        reference := fun e' he => by
          cases he
          exact ⟨snapshot, h.2.loaded hload, hreferences⟩
        data := fun he => by cases he
        integrity := fun he => by cases he }
    | ok u =>
      exact contract_persistResult.conseq (fun c d h => ⟨h.1, hvalid, h.2.loaded hload, hreferences⟩)
        (fun _ _ _ h => h) fun _ _ _ h => h

/-! ### Every session -/

/-- A commit that adds no run. -/
theorem BacktestDatabase.Consistent.same (hd : d.Consistent U) (hgrows : d.Grows d')
    (hresults : d'.results = d.results) (htrades : d'.trades = d.trades) (hsignals : d'.signals = d.signals)
    (hversions : ∀ v ∈ d'.versions, v ∈ d.versions ∨ ∃ definition, v.Stores U d' definition)
    (hreplies : ∀ reply ∈ d'.replies, reply ∈ d.replies ∨ reply.Explained U d') : d'.Consistent U where
  versions v hv := by
    rcases hversions v hv with hv | hstores
    · obtain ⟨definition, hstores⟩ := hd.versions v hv
      exact ⟨definition, hgrows.stores hstores⟩
    · exact hstores
  runs := hresults ▸ hd.runs
  exact row hrow := by
    obtain ⟨r, hr, hrows⟩ := hd.exact row (hresults ▸ hrow)
    refine ⟨r, hgrows.persists hr, ?_⟩
    unfold BacktestDatabase.rowsOf
    rw [htrades, hsignals]
    exact hrows
  trades t ht := hgrows.recorded (hd.trades t (htrades ▸ ht))
  signals s hs := hgrows.recorded (hd.signals s (hsignals ▸ hs))
  replies reply hreply := by
    rcases hreplies reply hreply with hreply | hexplained
    · exact hgrows.explained (hd.replies reply hreply)
    · exact hexplained

/-- A write that adds no run may be committed. -/
theorem Idle.push {w : BacktestWrite} (h : Idle U c d)
    (hgrows : ∀ d : BacktestDatabase, d.Grows (BacktestDatabase.apply w d))
    (hresults : ∀ d : BacktestDatabase, (BacktestDatabase.apply w d).results = d.results)
    (hw : ∀ d' : BacktestDatabase, d.Grows d' → d'.Consistent U →
      (BacktestDatabase.apply w d').Consistent U) : Commits U i (fun _ => True) (c.push w) d := by
  intro d' he
  have hview : (c.push w).view d' = BacktestDatabase.apply w d' := by
    rw [Ctx.view_push, Idle.view ⟨he.2, h.2⟩]
    rfl
  rw [hview]
  refine ⟨guar_of_grows (hw d' he.1.grows he.2) (hgrows d') fun runId _ hnone => ?_, trivial⟩
  unfold BacktestDatabase.result at hnone ⊢
  rw [hresults, hnone]

theorem keeps_inTransaction {body : BacktestTask α}
    (h : (archive U).Triple O i (fun _ _ => True) (Idle U) body fun _ => Commits U i fun _ => True) :
    (archive U).Keeps O i (Idle U) (inTransaction body) := by
  have hbody := contract_inTransaction (K := fun _ _ => True) (fun _ _ _ _ h => h) (fun _ => trivial) h.contract
  exact (hbody.conseq (fun _ _ h => h) (fun _ _ _ h => h.1) fun _ _ _ h => h.1).triple

theorem grows_putAsset (id : ℕ) (row : AssetRow) (d : BacktestDatabase) :
    d.Grows (BacktestDatabase.apply (.putAsset id row) d) := by
  refine ⟨fun other hother => ?_, List.prefix_rfl, List.prefix_rfl, List.prefix_rfl, List.prefix_rfl,
    List.prefix_rfl⟩
  change (Function.update d.assets id (some row) other).isSome = true
  rw [Function.update_apply]
  split
  · rfl
  · exact hother

theorem keeps_putAsset (id : ℕ) (row : AssetRow) : (archive U).Keeps O i (Idle U) (putAsset id row) := by
  refine keeps_inTransaction (Triple.seq (fun _ => Idle U) (triple_acquire fun c d d' h he =>
    ⟨he.2, h.2⟩) fun _ => triple_emit fun c d h => ?_)
  refine h.push (grows_putAsset id row) (fun _ => rfl) fun d' _ hd => ?_
  exact hd.same (grows_putAsset id row d') rfl rfl rfl (fun v hv => .inl hv) fun reply hreply => .inl hreply

theorem grows_addVersion (row : StrategyVersionRow) (d : BacktestDatabase) :
    d.Grows (BacktestDatabase.apply (.addVersion row) d) :=
  ⟨fun _ h => h, List.prefix_append _ _, List.prefix_rfl, List.prefix_rfl, List.prefix_rfl, List.prefix_rfl⟩

/-- The definition of a new version is on assets that its transaction has read. -/
theorem stores_of_input {definition : StrategyDefinitionInput} {assets : ℕ → Option Strategies.InstrumentSnapshot}
    {canonicalDefinition : CanonicalStrategyDefinition} {row : StrategyVersionRow}
    (hassets : lockedAssetSnapshots U d.assets (referencedAssetIds definition) = .ok assets)
    (hinput : CanonicalStrategyDefinition.fromInput definition assets = .ok canonicalDefinition)
    (hrow : row.canonicalDefinition = canonicalDefinition.canonicalPayload.reread) :
    row.Stores U d canonicalDefinition := by
  have hresolves := CanonicalStrategyDefinition.resolves hinput
  refine ⟨hrow, Strategies.normalized_of_resolves hassets hresolves, fun instrument hmem => ?_⟩
  obtain ⟨id, hid, hsnapshot⟩ := (Strategies.mem_snapshots_iff hresolves).mp (List.mem_append_left _ hmem)
  rw [Strategies.lockedAssetSnapshots_ok hassets, if_pos hid] at hsnapshot
  obtain ⟨-, hassetId, asset, hasset, -⟩ := Strategies.snapshotOf_some hsnapshot
  rw [hassetId, hasset]
  rfl

theorem keeps_createVersion (strategyId versionId : Fin (2 ^ 128)) (definition : StrategyDefinitionInput) :
    (archive U).Keeps O i (Idle U) (createVersion U strategyId versionId definition) := by
  have hsince (s : BacktestDatabase) : (archive U).Lockable i fun c d => Idle U c d ∧ s.Grows d :=
    ⟨fun c d d' h he => ⟨⟨he.2, h.1.2⟩, h.2.trans he.1.grows⟩, fun c d l h => h⟩
  refine keeps_inTransaction ?_
  refine Triple.seq (fun _ => Idle U) (triple_acquire fun c d d' h he => ⟨he.2, h.2⟩) fun _ => ?_
  refine Triple.seq (fun _ => Idle U) (Triple.forEach fun id _ => triple_acquire fun c d d' h he =>
    ⟨he.2, h.2⟩) fun _ => ?_
  refine Triple.seq (fun s c d => Idle U c d ∧ s.Grows d)
    ((triple_look idle_lockable.stable).post fun s c d h => ⟨h.1, ?_⟩) fun registry => ?_
  · rw [h.2, h.1.view]
    exact .refl d
  cases hassets : lockedAssetSnapshots U registry.assets (referencedAssetIds definition) with
  | error message => exact triple_raise fun _ _ _ => trivial
  | ok assets =>
    dsimp only
    cases hinput : CanonicalStrategyDefinition.fromInput definition assets with
    | error message => exact triple_raise fun _ _ _ => trivial
    | ok canonicalDefinition =>
      dsimp only
      refine ((triple_look (hsince registry).stable).post fun _ _ _ h => h.1).bind fun s => ?_
      split
      · exact triple_pure fun c d h => h.1.commits trivial fun _ _ _ h => h
      split
      · exact triple_raise fun _ _ _ => trivial
      refine Triple.seq (fun _ c d => Idle U c d ∧ registry.Grows d) (triple_acquire fun c d d' h he =>
        (hsince registry).stable c d d' h he) fun _ => ?_
      refine ((triple_look (hsince registry).stable).post fun _ _ _ h => h.1).bind fun s => ?_
      split
      · exact triple_raise fun _ _ _ => trivial
      refine triple_emit fun c d h => h.1.push (grows_addVersion _) (fun _ => rfl) fun d' hgrows hd => ?_
      refine hd.same (grows_addVersion _ d') rfl rfl rfl (fun v hv => ?_) fun reply hreply => .inl hreply
      rcases List.mem_append.mp hv with hv | hv
      · exact .inl hv
      · obtain rfl := List.mem_singleton.mp hv
        exact .inr ⟨canonicalDefinition, (h.2.trans (hgrows.trans (grows_addVersion _ d'))).stores
          (stores_of_input hassets hinput rfl)⟩

theorem keeps_submit (submitted : SubmittedResult) : (archive U).Keeps O i (Idle U) (submit U submitted) := by
  unfold submit
  cases hvalid : BacktestResultInput.validate submitted with
  | error e => exact triple_pure fun _ _ h => h
  | ok resultInput =>
    have hpersist : (archive U).Triple O i (Idle U) (Idle U) (persist U resultInput).attempt
        fun outcome c d => Idle U c d ∧ Explains U resultInput outcome d := by
      refine (Contract.attempt (contract_persist ⟨submitted, hvalid⟩)).post fun outcome c d h => ?_
      cases outcome with
      | ok row => exact h
      | error e => exact h
    have hgrows (reply : Reply) (d : BacktestDatabase) :
        d.Grows (BacktestDatabase.apply (.note reply) d) :=
      ⟨fun _ h => h, List.prefix_rfl, List.prefix_rfl, List.prefix_rfl, List.prefix_rfl,
        List.prefix_append _ _⟩
    refine hpersist.bind fun outcome => Triple.transaction (fun _ _ => True)
      (fun _ => Commits U i fun _ => True) (triple_emit fun c d h => ?_) (fun c d d' _ he => ⟨he.2, rfl⟩)
      fun _ c d d' hc he => ?_
    · refine h.1.push (hgrows _) (fun _ => rfl) fun d' hd' hd => ?_
      refine hd.same (hgrows _ d') rfl rfl rfl (fun v hv => .inl hv) fun reply hreply => ?_
      rcases List.mem_append.mp hreply with hreply | hreply
      · exact .inl hreply
      · obtain rfl := List.mem_singleton.mp hreply
        exact .inr ((hd'.trans (hgrows _ d')).explained h.2)
    · have hguar := (hc d' he).1
      exact ⟨hguar, hguar.inv, rfl⟩

theorem keeps_program {p : BacktestTask Unit} (h : BacktestProgram U i p) :
    (archive U).Keeps O i (Idle U) p := by
  cases h with
  | submit submitted => exact keeps_submit submitted
  | createVersion strategyId versionId definition => exact keeps_createVersion strategyId versionId definition
  | putAsset id row => exact keeps_putAsset id row

theorem consistent_empty : BacktestDatabase.Consistent U {} where
  versions _ hv := absurd hv List.not_mem_nil
  runs := List.nodup_nil
  exact _ hrow := absurd hrow List.not_mem_nil
  trades _ ht := absurd ht List.not_mem_nil
  signals _ hs := absurd hs List.not_mem_nil
  replies _ hreply := absurd hreply List.not_mem_nil

end

/-- What holds of the tables in every run of the system. -/
structure Persisted (U : CaseMapping)
    (w : World ℕ BacktestDatabase BacktestWrite BacktestLock BacktestAnswer BacktestFailure) : Prop where
  runs : (w.db.results.map (·.runId)).Nodup
  exact : ∀ row ∈ w.db.results, ∃ r, Persists U w.db r ∧ w.db.rowsOf row = storedRows r
  owned : (∀ t ∈ w.db.trades, t.1 ∈ w.db.results.map (·.runId)) ∧
    ∀ s ∈ w.db.signals, s.1 ∈ w.db.results.map (·.runId)
  replies : ∀ reply ∈ w.db.replies, reply.Explained U w.db
  agreed : ∀ reply ∈ w.db.replies, ∀ reply' ∈ w.db.replies, ∀ row row', reply.outcome = .ok row →
    reply'.outcome = .ok row' → row.runId = row'.runId → row = row'
  immutable : ∀ l w', (backtests U).Step w l w' → w.db.Grows w'.db

theorem one_result_of_a_run (U : CaseMapping) : (backtests U).Invariant (Persisted U) := by
  intro w hw
  have hok : Ok (backtests U) (archive U) w := Protocol.sound
    (fun i p d hp hd => (keeps_program hp).rest ⟨hd, rfl⟩)
    (fun d hd => ⟨hd ▸ consistent_empty, fun _ => trivial⟩) w hw
  have hd := hok.inv
  have hrecorded {runId : String} (h : (w.db.result runId).isSome = true) :
      runId ∈ w.db.results.map (·.runId) := by
    obtain ⟨row, hrow⟩ := Option.isSome_iff_exists.mp h
    obtain ⟨hmem, rfl⟩ := BacktestDatabase.mem_of_result hrow
    exact List.mem_map_of_mem hmem
  refine ⟨hd.runs, hd.exact, ⟨fun t ht => hrecorded (hd.trades t ht), fun s hs => hrecorded (hd.signals s hs)⟩,
    hd.replies, fun reply hreply reply' hreply' row row' hrow hrow' hsame => ?_, fun l w' hstep => ?_⟩
  · have hmem := ((hd.replies reply hreply).stored row hrow).1
    have hmem' := ((hd.replies reply' hreply').stored row' hrow').1
    exact List.inj_on_of_nodup_map hd.runs hmem hmem' hsame
  · rcases hok.commit_step hstep with hsame | ⟨i, held, owned, -, hgrows⟩
    · rw [hsame]
      exact .refl w.db
    · exact hgrows

end Quantive.Backtests
