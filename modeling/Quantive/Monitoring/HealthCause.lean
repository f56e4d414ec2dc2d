import Quantive.Monitoring.IncidentLedger

/-!
# What accounts for the health

A health with cause RUNTIME is accounted for by an open incident of that cause. The projection of
old comparison evidence can turn a stale evaluator into an error just before its incident is resolved,
and an observation that was made before does not open its incident again.
-/

namespace Quantive.Monitoring
open LiveStrategy (LiveStrategyActivation)

/-- An open incident about the runtime: the one about a stale evaluator for a stale health, another one
for any other health. -/
structure Incident.Accounts (status : HealthStatus) (i : Incident) : Prop where
  unresolved : i.status ≠ .resolved
  cause : i.dedupKey.label.2 = .runtime
  type : i.dedupKey.label.1 = .staleStrategyState ↔ status = .stale

def Accounted (incidents : List Incident) (h : HealthState) : Prop :=
  h.cause = some .runtime → ∃ i ∈ incidents, i.Accounts h.status

theorem Incident.Accounts.other {status status' : HealthStatus} {i : Incident} (h : i.Accounts status)
    (hstatus : status ≠ .stale) (hstatus' : status' ≠ .stale) : i.Accounts status' :=
  ⟨h.unresolved, h.cause, iff_of_false (fun htype => hstatus (h.type.mp htype)) hstatus'⟩

theorem Incident.Accounts.of_key {status : HealthStatus} {i j : Incident} (h : i.Accounts status)
    (hkey : j.dedupKey = i.dedupKey) (hstatus : j.status ≠ .resolved) : j.Accounts status :=
  ⟨hstatus, hkey ▸ h.cause, hkey ▸ h.type⟩

theorem DedupKey.label_comparison {key : DedupKey} (h : key.label.1 = .staleComparisonEvidence) :
    key.label.2 = .reference := by
  cases key with
  | finding => cases h
  | state payload =>
    by_cases hstate : payload.lookup "divergence_type" = some "stale_strategy_state"
    · simp [DedupKey.label, hstate] at h
    · by_cases hcomparison : payload.lookup "divergence_type" = some "stale_comparison_evidence"
      · simp [DedupKey.label, hcomparison]
      · simp [DedupKey.label, hstate, hcomparison] at h

theorem Incident.Accounts.not_comparison {status : HealthStatus} {i : Incident} (h : i.Accounts status) :
    i.dedupKey.label.1 ≠ .staleComparisonEvidence := by
  intro htype
  have hcause := h.cause
  rw [DedupKey.label_comparison htype] at hcause
  cases hcause

/-! ### The condition -/

/-- The incident of an observation is resolved, and this very observation is among its evidence. -/
def MonitoringStore.Settled (d : MonitoringStore) (f : StateFinding) : Prop :=
  ∃ i ∈ d.incidents, i.dedupKey = .state f.key ∧ i.status = .resolved ∧ d.Observed f i

def EvaluatorStale (policy : MonitoringPolicy) (activation : LiveStrategyActivation) (now : ℤ) : Prop :=
  policy.staleAfterSeconds * second ≤
    now - activation.lastEvaluatedAt.getD activation.activatedAt

instance (policy : MonitoringPolicy) (activation : LiveStrategyActivation) (now : ℤ) :
    Decidable (EvaluatorStale policy activation now) :=
  inferInstanceAs (Decidable (_ ≤ _))

def MonitoringStore.ComparisonStale (d : MonitoringStore) (now : ℤ) : Prop :=
  d.binding.policy.comparisonStaleAfterSeconds * second ≤
    now - d.health.lastCompleteComparisonAt.getD d.binding.registeredAt

/-- The severity that the incident about old comparison evidence has or gets. -/
def MonitoringStore.comparisonSeverity (d : MonitoringStore) (now : ℤ) : IncidentSeverity :=
  (recordState (staleComparisonEvidence d.binding
    (d.health.lastCompleteComparisonAt.getD d.binding.registeredAt) d.health.lastCompleteWindowEnd)
    now { db := d }).1

/-- No failure or stale evaluator is observed again after its incident was resolved; and when the
evaluator of a stale health is back while the comparison evidence is old, that evidence ranks higher. -/
def Unsettled (d : MonitoringStore) : MonitoringCall → Prop
  | .compare _ _ activation _ => activation.status = .error →
    ¬ d.FailureSettled (failureLabel activation none) (failureText activation none)
  | .finalize activation now now' =>
    (activation.status = .error →
      ¬ d.FailureSettled (failureLabel activation none) (failureText activation none)) ∧
    (activation.status = .active → EvaluatorStale d.binding.policy activation now' →
      ¬ d.Settled (staleState d.binding (activation.lastEvaluatedAt.getD activation.activatedAt))) ∧
    (activation.status = .active → ¬ EvaluatorStale d.binding.policy activation now' →
      d.ComparisonStale now → d.health.status = .stale →
        ∀ severity ∈ d.health.severity, projectionLt (.runtime, severity)
          (.reference, d.comparisonSeverity now))
  | .fail activation _ error _ =>
    ¬ d.FailureSettled (failureLabel activation (some "monitoring_error"))
      (failureText activation (some error))
  | .renew _ => True
  | .acknowledge .. => False
  | .resolve .. => False

/-! ### Objects -/

section
variable {d : MonitoringStore} {s : UnitOfWork}

theorem foldl_change_object {g : Incident → Incident} {row : Incident} (incidents : List Incident)
    (s : UnitOfWork) (h : ∀ i ∈ incidents, (g i).id ≠ row.id) :
    (incidents.foldl (fun s i => s.change (g i)) s).object row = s.object row := by
  induction incidents generalizing s with
  | nil => rfl
  | cons i incidents ih =>
    rw [List.foldl_cons, ih _ fun j hj => h j (List.mem_cons_of_mem _ hj), object_change,
      if_neg (h i List.mem_cons_self)]

theorem foldl_change_db {g : Incident → Incident} (incidents : List Incident) (s : UnitOfWork) :
    (incidents.foldl (fun s i => s.change (g i)) s).db = s.db ∧
    (incidents.foldl (fun s i => s.change (g i)) s).addedIncidents = s.addedIncidents := by
  induction incidents generalizing s with
  | nil => exact ⟨rfl, rfl⟩
  | cons i incidents ih => exact ih (s.change (g i))

/-- A row of another type keeps its object when stale incidents are resolved. -/
theorem recoverStale_object (hd : d.Constrained) (hs : LedgerSession d s) {type : IncidentType}
    (note : String) (now : ℤ) {row : Incident} (hrow : row ∈ d.incidents) (htype : row.type ≠ type) :
    (recoverStale type note now s).object row = s.object row := by
  refine foldl_change_object _ _ fun i hi hid => ?_
  obtain ⟨row', hrow', rfl⟩ := List.mem_map.mp hi
  obtain ⟨hmem, hselected⟩ := List.mem_filter.mp hrow'
  rw [hs.rows.incidents] at hmem
  have hsame : row' = row :=
    List.inj_on_of_nodup_map hd.ids hmem hrow ((hs.held row' hmem).1.symm.trans hid)
  simp only [Bool.and_eq_true, decide_eq_true_eq] at hselected
  exact htype (hsame ▸ hselected.1.2)

/-- A row of another key keeps its object when a state is recorded. -/
theorem recordState_object (hd : d.Constrained) (hs : LedgerSession d s) (f : StateFinding) (now : ℤ)
    {row : Incident} (hrow : row ∈ d.incidents) (hkey : row.dedupKey ≠ .state f.key) :
    (recordState f now s).2.object row = s.object row := by
  rcases recordState_cases f now s with h | ⟨row', hmem, hkey', ⟨-, h⟩ | h⟩
  · rw [h]
    rfl
  · rw [h]
  · rw [h]
    rw [hs.rows.incidents] at hmem
    have hid : (f.recurIncident (s.object row') now).id ≠ row.id := by
      intro hid
      have hsame : row' = row := List.inj_on_of_nodup_map hd.ids hmem hrow
        ((hs.held row' hmem).1.symm.trans ((f.recurIncident_fields _ now).1.symm.trans hid))
      exact hkey (hsame ▸ hkey')
    exact (object_change s _ row).trans (if_neg hid)

/-- An observation that is not settled leaves its incident open. -/
theorem recordState_unresolved (hs : LedgerSession d s) (f : StateFinding) (now : ℤ)
    (hobject : ∀ row ∈ d.incidents, row.dedupKey = .state f.key → s.object row = row)
    (hsettled : ¬ d.Settled f) : ∃ i ∈ (recordState f now s).2.written.incidents,
      i.dedupKey = .state f.key ∧ i.status ≠ .resolved := by
  rcases recordState_cases f now s with h | ⟨row, hmem, hrowKey, ⟨hseen, h⟩ | h⟩
  · rw [h]
    refine ⟨f.openIncident s.db.binding.id s.db.names now, ?_, rfl, by simp [StateFinding.openIncident]⟩
    exact List.mem_append_right _ (List.mem_append_right _ (List.mem_singleton_self _))
  · rw [h]
    have hrow' : row ∈ d.incidents := hs.rows.incidents ▸ hmem
    rw [hobject row hrow' hrowKey] at hseen
    obtain ⟨e, he, hlink⟩ := hseen
    refine ⟨s.object row, List.mem_append_left _ (List.mem_map_of_mem hmem), ?_⟩
    rw [hobject row hrow' hrowKey]
    exact ⟨hrowKey, fun hresolved =>
      hsettled ⟨row, hrow', hrowKey, hresolved, e, hs.rows.evidence ▸ he, hlink⟩⟩
  · have hrow' : row ∈ d.incidents := hs.rows.incidents ▸ hmem
    rw [h, hobject row hrow' hrowKey]
    obtain ⟨hid, hdedup, -, hstatus⟩ := f.recurIncident_fields row now
    refine ⟨f.recurIncident row now, ?_, hdedup.trans hrowKey, hstatus⟩
    refine List.mem_append_left _ (List.mem_map.mpr ⟨row, hmem, ?_⟩)
    exact (object_change s _ row).trans (if_pos hid)

/-- The rows that an account is made of are not touched by the comparison evidence. -/
theorem evaluateComparisonFreshness_object (hd : d.Constrained) (hledger : d.Ledger) (now : ℤ)
    {row : Incident} (hrow : row ∈ d.incidents) (htype : row.type ≠ .staleComparisonEvidence) :
    (evaluateComparisonFreshness now { db := d }).object row = row := by
  have hstart := LedgerSession.start hledger
  unfold evaluateComparisonFreshness
  dsimp only
  split
  · refine recordState_object hd hstart _ now hrow fun hkey => htype ?_
    have hlabel := (hledger row hrow).label
    rw [hkey] at hlabel
    exact congrArg Prod.fst hlabel
  · exact recoverStale_object hd hstart _ now hrow htype

theorem evaluateComparisonFreshness_health (haccounted : Accounted d.incidents d.health) (now : ℤ)
    (hyields : d.ComparisonStale now → d.health.status = .stale → ∀ severity ∈ d.health.severity,
      projectionLt (.runtime, severity) (.reference, d.comparisonSeverity now))
    (hcause : (evaluateComparisonFreshness now { db := d }).db.health.cause = some .runtime)
    (hstatus : (evaluateComparisonFreshness now { db := d }).db.health.status ≠ .stale) :
    ∃ i ∈ d.incidents, i.Accounts (evaluateComparisonFreshness now { db := d }).db.health.status := by
  have hrecorded := recordState_health (staleComparisonEvidence d.binding
    (d.health.lastCompleteComparisonAt.getD d.binding.registeredAt) d.health.lastCompleteWindowEnd)
    now { db := d }
  have hseverity : (recordState (staleComparisonEvidence d.binding
    (d.health.lastCompleteComparisonAt.getD d.binding.registeredAt) d.health.lastCompleteWindowEnd)
    now { db := d }).1 = d.comparisonSeverity now := rfl
  unfold evaluateComparisonFreshness at hcause hstatus ⊢
  dsimp only at hrecorded hcause hstatus ⊢
  generalize recordState _ now { db := d } = recorded at hrecorded hseverity hcause hstatus ⊢
  obtain ⟨severity, session⟩ := recorded
  dsimp only at hrecorded hseverity hcause hstatus ⊢
  subst hseverity
  split at hcause
  · rename_i hold
    rw [if_pos hold] at hstatus ⊢
    rw [hrecorded] at hcause hstatus ⊢
    cases hc : d.health.cause with
    | none =>
      rw [hc] at hcause
      cases hcause
    | some cause =>
      cases hs : d.health.severity with
      | none =>
        rw [hc, hs] at hcause
        cases hcause
      | some severity =>
        rw [hc, hs] at hcause hstatus
        by_cases hlower : projectionLt (cause, severity) (.reference, d.comparisonSeverity now)
        · simp [moreActionableProjection, hlower, setDivergentHealth, setHealth, UnitOfWork.project] at hcause
        · have hkept : cause = .runtime := by
            simpa [moreActionableProjection, hlower, setDivergentHealth, setHealth, UnitOfWork.project]
              using hcause
          subst hkept
          have hbefore : d.health.status ≠ .stale := fun hstale =>
            hlower (hyields hold hstale severity hs)
          obtain ⟨i, hi, haccounts⟩ := haccounted hc
          exact ⟨i, hi, haccounts.other hbefore hstatus⟩
  · rename_i hfresh
    have hkept : (recoverStale .staleComparisonEvidence
        "Complete comparison evidence resumed within the configured threshold." now { db := d }).db = d :=
      (foldl_change_db _ _).1
    rw [if_neg hfresh, hkept] at hstatus ⊢
    rw [hkept] at hcause
    exact haccounted hcause

theorem evaluateStaleness_accounted (hd : d.Constrained) (hledger : d.Ledger) (hs : LedgerSession d s)
    (hobject : ∀ row ∈ d.incidents, row.type ≠ .staleComparisonEvidence → s.object row = row)
    (activation : LiveStrategyActivation) (now : ℤ)
    (hsettled : EvaluatorStale d.binding.policy activation now →
      ¬ d.Settled (staleState d.binding (activation.lastEvaluatedAt.getD activation.activatedAt)))
    (hfresh : ¬ EvaluatorStale d.binding.policy activation now → s.db.health.cause = some .runtime →
      s.db.health.status ≠ .stale → ∃ i ∈ d.incidents, i.Accounts s.db.health.status) :
    Accounted (evaluateStaleness activation now s).written.incidents
      (evaluateStaleness activation now s).db.health := by
  have hread := hs.project { s.db.health with lastEvaluatedAt := activation.lastEvaluatedAt }
  by_cases hold : EvaluatorStale d.binding.policy activation now
  · intro _
    have hstale : staleState s.db.binding (activation.lastEvaluatedAt.getD activation.activatedAt) =
        staleState d.binding (activation.lastEvaluatedAt.getD activation.activatedAt) := by
      obtain ⟨names, lease, health, he⟩ := hs.rows
      rw [he]
      rfl
    have htyped : ∀ row ∈ d.incidents, row.dedupKey =
        .state (staleState d.binding (activation.lastEvaluatedAt.getD activation.activatedAt)).key →
        s.object row = row := by
      intro row hrow hkey
      refine hobject row hrow fun htype => ?_
      have hlabel := (hledger row hrow).label
      rw [hkey, htype] at hlabel
      cases congrArg Prod.fst hlabel
    obtain ⟨i, hi, hkey, hstatus⟩ := recordState_unresolved hread
      (staleState d.binding (activation.lastEvaluatedAt.getD activation.activatedAt)) now htyped
      (hsettled hold)
    have haccounts : i.Accounts .stale := by
      refine ⟨hstatus, ?_, ?_⟩
      · rw [hkey]
        rfl
      · rw [hkey]
        exact iff_of_true rfl rfl
    unfold evaluateStaleness
    dsimp only
    rw [if_pos (hs.samePolicy ▸ hold)]
    change ∃ i ∈ (recordState (staleState s.db.binding
      (activation.lastEvaluatedAt.getD activation.activatedAt)) now (s.project _)).2.written.incidents,
      i.Accounts .stale
    rw [hstale]
    exact ⟨i, hi, haccounts⟩
  · have hrecovered := foldl_change_db (g := closeStale
      "Live evaluator resumed within the configured stale threshold." now)
      ((s.project { s.db.health with lastEvaluatedAt := activation.lastEvaluatedAt }).selectIncidents
        fun i => i.bindingId = s.db.binding.id && i.type = .staleStrategyState &&
          (i.status = .open || i.status = .acknowledged))
      (s.project { s.db.health with lastEvaluatedAt := activation.lastEvaluatedAt })
    have hdb : (recoverStale .staleStrategyState
        "Live evaluator resumed within the configured stale threshold." now
        (s.project { s.db.health with lastEvaluatedAt := activation.lastEvaluatedAt })).db =
        (s.project { s.db.health with lastEvaluatedAt := activation.lastEvaluatedAt }).db := hrecovered.1
    have hkept : ∀ i ∈ d.incidents, i.Accounts s.db.health.status → s.db.health.status ≠ .stale →
        i ∈ (recoverStale .staleStrategyState
          "Live evaluator resumed within the configured stale threshold." now
          (s.project { s.db.health with lastEvaluatedAt := activation.lastEvaluatedAt })).written.incidents := by
      intro i hi haccounts hstatus
      have hlabel := (hledger i hi).label
      have hruntime : i.type ≠ .staleStrategyState := fun htype =>
        hstatus (haccounts.type.mp ((congrArg Prod.fst hlabel).symm.trans htype))
      have hcomparison : i.type ≠ .staleComparisonEvidence := fun htype =>
        haccounts.not_comparison ((congrArg Prod.fst hlabel).symm.trans htype)
      refine List.mem_append_left _ (List.mem_map.mpr ⟨i, ?_, ?_⟩)
      · rw [hdb]
        exact hs.rows.incidents ▸ hi
      · rw [recoverStale_object hd hread _ now hi hruntime]
        exact hobject i hi hcomparison
    unfold evaluateStaleness
    dsimp only
    rw [if_neg (hs.samePolicy ▸ hold)]
    split
    · intro hcause
      cases hcause
    · rename_i hstatus
      rw [hdb] at hstatus ⊢
      intro hcause
      obtain ⟨i, hi, haccounts⟩ := hfresh hold hcause hstatus
      exact ⟨i, hkept i hi haccounts hstatus, haccounts⟩

end

/-! ### Failures and evaluations -/

section
variable {d d' : MonitoringStore}

theorem failure_accounted (hd : d.Constrained) (activation : LiveStrategyActivation)
    (policy : Option MonitoringPolicy) (errorMessage runtimeStatus : Option String)
    (fallbackSeverity : Option IncidentSeverity) (now : ℤ)
    (hsettled : ¬ d.FailureSettled (failureLabel activation runtimeStatus)
      (failureText activation errorMessage))
    (h : (recordActivationRuntimeFailure activation policy errorMessage runtimeStatus fallbackSeverity
      now { db := d }).commitStates = .ok d') : Accounted d'.incidents d'.health := by
  obtain ⟨d'', hcommit, hactionable⟩ := runtimeFailure_actionable_iff hd activation policy errorMessage
    runtimeStatus fallbackSeverity now
  obtain rfl : d'' = d' := Except.ok.inj (hcommit.symm.trans h)
  obtain ⟨i, hi, hkey, hstatus⟩ := hactionable.mpr hsettled
  obtain ⟨-, -, hwritten⟩ := commitStates_ok_iff.mp h
  have herror : d''.health.status = .error := by
    rw [hwritten]
    exact congrArg HealthState.status (recordState_health _ now _)
  refine fun _ => ⟨i, hi, (IncidentLifecycle.ne_resolved_iff _).mpr hstatus, ?_, ?_⟩
  · rw [hkey]
    rfl
  · rw [hkey, herror]
    exact iff_of_false (fun hstale => by cases hstale) (fun hstale => by cases hstale)

theorem unlessActive_accounted (hd : d.Constrained) {activation : LiveStrategyActivation} {now : ℤ}
    {act : Except MonitoringError MonitoringStore}
    (hsettled : activation.status = .error →
      ¬ d.FailureSettled (failureLabel activation none) (failureText activation none))
    (h : unlessActive activation now d act = .ok d')
    (hact : activation.status = .active → act = .ok d' → Accounted d'.incidents d'.health) :
    Accounted d'.incidents d'.health := by
  rcases unlessActive_cases h with ⟨hstatus, hcommit⟩ | ⟨-, hcommit⟩ | ⟨hstatus, hact'⟩
  · exact failure_accounted hd activation _ _ _ _ now (hsettled hstatus) hcommit
  · obtain ⟨-, -, rfl⟩ := commitStates_ok_iff.mp hcommit
    intro hcause
    cases hcause
  · exact hact hstatus hact'

theorem recordBindingError_accounted (hd : d.Constrained) {activation : LiveStrategyActivation}
    {policy : Option MonitoringPolicy} {error : String} {now : ℤ}
    (hsettled : ¬ d.FailureSettled (failureLabel activation (some "monitoring_error"))
      (failureText activation (some error)))
    (h : recordBindingError activation policy error now d = .ok d') : Accounted d'.incidents d'.health := by
  unfold recordBindingError at h
  refine failure_accounted ?_ activation policy (some error) (some "monitoring_error") _ now hsettled h
  exact ⟨⟨hd.keys, hd.ids, hd.drawn, hd.findings, hd.evidence, hd.evidenceKeys, hd.keyed,
    hd.assessments, hd.assessed⟩, hd.linked, hd.kinds⟩

theorem finalizeBindingCycle_accounted (hd : d.Constrained) (hledger : d.Ledger)
    (haccounted : Accounted d.incidents d.health) {activation : LiveStrategyActivation} {now now' : ℤ}
    (hready : Unsettled d (.finalize activation now now'))
    (h : finalizeBindingCycle activation now now' d = .ok d') : Accounted d'.incidents d'.health := by
  obtain ⟨hfailure, hstale, hyields⟩ := hready
  refine unlessActive_accounted hd hfailure h fun hactive hcommit => ?_
  obtain ⟨-, -, rfl⟩ := commitStates_ok_iff.mp hcommit
  refine evaluateStaleness_accounted hd hledger ((LedgerSession.start hledger).evaluateComparisonFreshness
    hd now) (fun row hrow => evaluateComparisonFreshness_object hd hledger now hrow) activation now'
    (hstale hactive) fun hfresh hcause hstatus => ?_
  exact evaluateComparisonFreshness_health haccounted now (hyields hactive hfresh) hcause hstatus

end

/-! ### Comparison runs -/

/-- An open incident would account for an error. -/
def UnitOfWork.ExplainsError (s : UnitOfWork) : Prop :=
  ∃ i ∈ s.written.incidents, i.Accounts .error

/-- What a page loop keeps beyond `Scanning`: a projection to RUNTIME has its incident. -/
structure Justified (d : MonitoringStore) (scan : Scan) : Prop where
  scanning : Scanning d scan
  projection : ∀ p ∈ scan.projection, p.1 = .runtime → scan.session.ExplainsError
  known : ∀ p ∈ scan.knownProjection, p.1 = .runtime → scan.session.ExplainsError

section
variable {d d' : MonitoringStore} {s s' : UnitOfWork} {run : ComparisonRun} {now : ℤ}

theorem recordFinding_explains (hd : d.Constrained) {f : Finding} {c : HealthCause × IncidentSeverity}
    (hunlinked : ∀ e ∈ d.evidence, e.findingId ≠ some f.id)
    (h : recordFinding run now s f = .ok (c, s')) (hs : FindingSession d s) :
    (s.ExplainsError → s'.ExplainsError) ∧ (c.1 = .runtime → s'.ExplainsError) := by
  obtain ⟨hcause, ⟨⟨e, he, hlink⟩, -⟩ | rfl | ⟨row, hmem, hrowKey, rfl⟩⟩ := recordFinding_cases h
  · exact absurd hlink (hunlinked e (hs.rows.evidence ▸ he))
  · constructor
    · rintro ⟨i, hi, haccounts⟩
      refine ⟨i, ?_, haccounts⟩
      rcases List.mem_append.mp hi with hi | hi
      · exact List.mem_append_left _ hi
      · exact List.mem_append_right _ (List.mem_append_left _ hi)
    · intro hruntime
      refine ⟨_, List.mem_append_right _ (List.mem_append_right _ (List.mem_singleton_self _)), ?_⟩
      exact ⟨(fun hstatus => by cases hstatus), hcause.symm.trans hruntime,
        iff_of_false (fun hstale => by cases hstale) (fun hstale => by cases hstale)⟩
  · have hmem' : row ∈ d.incidents := hs.rows.incidents ▸ hmem
    obtain ⟨hid, hkey, -⟩ := hs.held row hmem'
    obtain ⟨hid', hkey', -⟩ := recurIncident_fields s.db.binding run f
      (causeForDivergence f.divergenceType) (s.object row) now
    obtain ⟨-, hstatus'⟩ := recurIncident_status s.db.binding run f
      (causeForDivergence f.divergenceType) (s.object row) now
    generalize recurIncident s.db.binding run f (causeForDivergence f.divergenceType) (s.object row) now =
      recurred at hid' hkey' hstatus' ⊢
    have hobject : ∀ i : Incident, (s.change recurred).object i =
        if recurred.id = i.id then recurred else s.object i := fun i => object_change s _ i
    constructor
    · rintro ⟨i, hi, haccounts⟩
      rcases List.mem_append.mp hi with hi | hi
      · obtain ⟨row', hrow', rfl⟩ := List.mem_map.mp hi
        refine ⟨(s.change recurred).object row', List.mem_append_left _ (List.mem_map_of_mem hrow'), ?_⟩
        rw [hobject]
        by_cases hsame : recurred.id = row'.id
        · rw [if_pos hsame]
          obtain rfl : row = row' := List.inj_on_of_nodup_map hd.ids hmem'
            (hs.rows.incidents ▸ hrow') ((hid'.trans hid).symm.trans hsame)
          exact haccounts.of_key hkey' hstatus'
        · rw [if_neg hsame]
          exact haccounts
      · exact ⟨i, List.mem_append_right _ hi, haccounts⟩
    · intro hruntime
      refine ⟨(s.change recurred).object row, List.mem_append_left _ (List.mem_map_of_mem hmem), ?_⟩
      have hlabel := (hkey'.trans hkey).trans hrowKey
      rw [hobject, if_pos (hid'.trans hid)]
      refine ⟨hstatus', ?_, ?_⟩
      · rw [hlabel]
        exact hcause.symm.trans hruntime
      · rw [hlabel]
        exact iff_of_false (fun hstale => by cases hstale) (fun hstale => by cases hstale)

theorem moreActionableProjection_cases (current : Option (HealthCause × IncidentSeverity))
    (candidate : HealthCause × IncidentSeverity) :
    moreActionableProjection current candidate = candidate ∨
      moreActionableProjection current candidate ∈ current := by
  cases current with
  | none => exact .inl rfl
  | some c =>
    by_cases hlt : projectionLt c candidate
    · exact .inl (if_pos hlt)
    · exact .inr (congrArg some (if_neg hlt).symm)

theorem Justified.start : Justified d { session := { db := d } } where
  scanning := ⟨.start, fun _ _ hopen => hopen, rfl⟩
  projection p hp := by cases hp
  known p hp := by cases hp

theorem Justified.finding (hd : d.Constrained) {scan scan' : Scan} {f : Finding}
    (hunlinked : ∀ e ∈ d.evidence, e.findingId ≠ some f.id)
    (h : scanFinding run now scan f = .ok scan') (hscan : Justified d scan) : Justified d scan' := by
  obtain ⟨c, session, hrecord, rfl⟩ := scanFinding_ok h
  obtain ⟨hfinding, hopen, hhealth⟩ := hscan.scanning
  obtain ⟨hfinding', hopen', hhealth'⟩ := recordFinding_session hd hrecord hfinding hopen
  obtain ⟨hkept, hruntime⟩ := recordFinding_explains hd hunlinked hrecord hfinding
  have hmore : ∀ current : Option (HealthCause × IncidentSeverity),
      (∀ p ∈ current, p.1 = .runtime → scan.session.ExplainsError) →
      (moreActionableProjection current c).1 = .runtime → session.ExplainsError := by
    intro current hcurrent hp
    rcases moreActionableProjection_cases current c with hc | hc
    · exact hruntime (hc ▸ hp)
    · exact hkept (hcurrent _ hc hp)
  refine ⟨⟨hfinding', hopen', hhealth'.trans hhealth⟩, fun p hp => ?_, fun p hp => ?_⟩
  · rw [← Option.some.inj hp]
    exact hmore _ hscan.projection
  · dsimp only at hp
    split at hp
    · exact fun hcause => hkept (hscan.known p hp hcause)
    · rw [← Option.some.inj hp]
      exact hmore _ hscan.known

theorem Scanning.accounted {scan : Scan} (hs : Scanning d scan)
    (haccounted : Accounted d.incidents d.health) : Accounted scan.session.written.incidents d.health := by
  obtain ⟨hfinding, hopen, -⟩ := hs
  intro hcause
  obtain ⟨i, hi, haccounts⟩ := haccounted hcause
  refine ⟨scan.session.object i, ?_,
    haccounts.of_key (hfinding.held i hi).2.1 (hopen i hi haccounts.unresolved)⟩
  exact List.mem_append_left _ (List.mem_map_of_mem (hfinding.rows.incidents ▸ hi))

/-- An error about the runtime comes from a classification that has this cause. -/
theorem setDivergentHealth_runtime {h : HealthState} {classifications : List (HealthCause × IncidentSeverity)}
    (hcause : (setDivergentHealth h classifications).cause = some .runtime) :
    (setDivergentHealth h classifications).status = .error ∧ ∃ c ∈ classifications, c.1 = .runtime := by
  cases classifications with
  | nil => cases hcause
  | cons first rest =>
    have hworst : rest.foldl (fun current c => if projectionLt current c then c else current) first ∈
        first :: rest := by
      refine List.foldlRecOn (motive := fun worst => worst ∈ first :: rest) _ _ List.mem_cons_self
        fun worst hworst c hc => ?_
      split
      · exact List.mem_cons_of_mem _ hc
      · exact hworst
    have hruntime := Option.some.inj hcause
    exact ⟨if_pos (Or.inr hruntime), _, hworst, hruntime⟩

theorem recordHealthyComparison_runtime {h : HealthState}
    (hcause : (recordHealthyComparison s h now).2.cause = some .runtime) :
    (recordHealthyComparison s h now).1 = s ∧ (recordHealthyComparison s h now).2.status = .error ∧
      ∃ i ∈ s.unresolvedIncidents, i.cause = .runtime := by
  unfold recordHealthyComparison at hcause ⊢
  dsimp only at hcause ⊢
  split at hcause
  · rename_i hfew
    rw [if_pos hfew]
    cases hunresolved : s.unresolvedIncidents with
    | nil =>
      rw [hunresolved] at hcause
      cases hcause
    | cons i rest =>
      rw [hunresolved] at hcause
      obtain ⟨hstatus, c, hc, hruntime⟩ := setDivergentHealth_runtime hcause
      obtain ⟨j, hj, rfl⟩ := List.mem_map.mp hc
      exact ⟨rfl, hstatus, j, hj, hruntime⟩
  · cases hcause

/-- Where a health with cause RUNTIME comes from. -/
theorem projectHealth_runtime {scan : Scan} {health : HealthState}
    (h : projectHealth run now scan = .ok (s, health)) (hcause : health.cause = some .runtime) :
    s = scan.session ∧ ((health.status = scan.session.db.health.status ∧
        scan.session.db.health.cause = some .runtime) ∨
      (health.status = .error ∧ ((∃ p, (p ∈ scan.projection ∨ p ∈ scan.knownProjection) ∧
        p.1 = .runtime) ∨ ∃ i ∈ scan.session.unresolvedIncidents, i.cause = .runtime))) := by
  unfold projectHealth at h
  dsimp only at h
  split at h
  · split at h
    · cases h
    · split at h
      · cases h
        exact ⟨rfl, .inl ⟨rfl, hcause⟩⟩
      · have hresult := Except.ok.inj h
        obtain ⟨hsame, hstatus, hunresolved⟩ := recordHealthyComparison_runtime
          ((congrArg (fun r => r.2.cause) hresult).trans hcause)
        rw [hresult] at hsame hstatus
        exact ⟨hsame, .inr ⟨hstatus, .inr hunresolved⟩⟩
  · split at h
    · cases h
      exact ⟨rfl, .inl ⟨rfl, hcause⟩⟩
    · cases h
      cases hknown : scan.knownProjection with
      | none =>
        rw [hknown] at hcause
        cases hcause
      | some p =>
        rw [hknown] at hcause
        obtain ⟨hstatus, c, hc, hruntime⟩ := setDivergentHealth_runtime hcause
        obtain rfl := List.mem_singleton.mp hc
        exact ⟨rfl, .inr ⟨hstatus, .inl ⟨c, .inr rfl, hruntime⟩⟩⟩
  · split at h
    · cases h
    · rename_i p hprojection
      split at h
      · cases h
        exact ⟨rfl, .inl ⟨rfl, hcause⟩⟩
      · cases h
        obtain ⟨hstatus, c, hc, hruntime⟩ := setDivergentHealth_runtime hcause
        obtain rfl := List.mem_singleton.mp hc
        exact ⟨rfl, .inr ⟨hstatus, .inl ⟨c, .inl hprojection, hruntime⟩⟩⟩

theorem projectHealth_accounted {scan : Scan} {health : HealthState} (hscan : Justified d scan)
    (hs : LedgerSession d scan.session) (haccounted : Accounted d.incidents d.health)
    (h : projectHealth run now scan = .ok (s, health)) : Accounted s.written.incidents health := by
  intro hcause
  obtain ⟨hfinding, hopen, hhealth⟩ := hscan.scanning
  obtain ⟨rfl, ⟨hstatus, hbefore⟩ | ⟨hstatus, ⟨p, hp, hruntime⟩ | ⟨i, hi, hruntime⟩⟩⟩ :=
    projectHealth_runtime h hcause
  · rw [hstatus, hhealth]
    exact hscan.scanning.accounted haccounted (hhealth ▸ hbefore)
  · rw [hstatus]
    exact hp.elim (fun hp => hscan.projection p hp hruntime) fun hp => hscan.known p hp hruntime
  · obtain ⟨row, hrow, rfl⟩ := List.mem_map.mp hi
    obtain ⟨hmem, hselected⟩ := List.mem_filter.mp hrow
    have hmem' : row ∈ d.incidents := hfinding.rows.incidents ▸ hmem
    obtain ⟨-, -, -, hbooked⟩ := hs.held row hmem'
    simp only [Bool.and_eq_true, Bool.or_eq_true, decide_eq_true_eq] at hselected
    refine ⟨_, List.mem_append_left _ (List.mem_map_of_mem hmem), ?_, ?_, ?_⟩
    · exact hopen row hmem' ((IncidentLifecycle.ne_resolved_iff _).mpr hselected.1.2)
    · exact (congrArg Prod.snd hbooked.label).symm.trans hruntime
    · refine iff_of_false (fun htype => hselected.2 ?_) (fun hstale => ?_)
      · rw [← (hfinding.held row hmem').2.2]
        exact (congrArg Prod.fst hbooked.label).trans htype
      · rw [hstatus] at hstale
        cases hstale

theorem processComparisonRun_accounted (hd : d.Constrained) (hledger : d.Ledger)
    (haccounted : Accounted d.incidents d.health) {settings : MonitoringSettings} {workerId : String}
    (hnext : nextPendingComparison d = some run)
    (h : processComparisonRun settings workerId d run = .ok d') : Accounted d'.incidents d'.health := by
  obtain ⟨-, -, -, hpending⟩ := nextPendingComparison_spec hnext
  obtain ⟨scan, hscan, -, hprocess⟩ :=
    processComparisonRun_scanned settings workerId hd.toWellFormed hnext
  rw [hprocess] at h
  cases hproject : projectHealth run (settings.clock 0) scan with
  | error e => simp [hproject, bind, Except.bind] at h
  | ok result =>
    obtain ⟨session, health⟩ := result
    simp only [hproject, bind, Except.bind] at h
    have hscanned : Justified d scan ∧ LedgerSession d scan.session := by
      refine forPages_kept (I := fun scan => Justified d scan ∧ LedgerSession d scan.session)
        (fun scan page scan' hpage hstep hI =>
          scanPage_kept (I := fun scan => Justified d scan ∧ LedgerSession d scan.session)
            (fun scan scan' f hf hfinding hI => ?_) (fun scan expiry hI => ?_) hstep hI) hscan ?_
      · obtain ⟨c, session, hrecord, hscan'⟩ := scanFinding_ok hfinding
        refine ⟨hI.1.finding hd (hd.toWellFormed.unlinked hpending (hpage hf)) hfinding, ?_⟩
        rw [hscan']
        exact recordFinding_ledger hd hrecord hI.2
      · obtain ⟨⟨⟨hfinding, hopen, hhealth⟩, hprojection, hknown⟩, hledger⟩ := hI
        exact ⟨⟨⟨⟨hfinding.rows.leased _, hfinding.held, hfinding.added, hfinding.evidence⟩, hopen,
          hhealth⟩, hprojection, hknown⟩, hledger.renewLease expiry⟩
      · exact ⟨.start, .start hledger⟩
    have haccounts := projectHealth_accounted hscanned.1 hscanned.2 haccounted hproject
    rw [commit_written h]
    exact haccounts

end

/-! ### Runs -/

section
variable {d d' : MonitoringStore} {t t' : MonitoringTables}

theorem MonitoringCall.execute_accounted (hd : d.Constrained) (hledger : d.Ledger)
    (haccounted : Accounted d.incidents d.health) {c : MonitoringCall} (hready : Unsettled d c)
    (h : c.execute d = .ok d') : Accounted d'.incidents d'.health := by
  cases c with
  | compare settings workerId activation now =>
    refine unlessActive_accounted hd hready h fun _ hact => ?_
    cases hnext : nextPendingComparison d with
    | none =>
      rw [hnext] at hact
      cases hact
      exact haccounted
    | some run =>
      rw [hnext] at hact
      exact processComparisonRun_accounted hd hledger haccounted hnext hact
  | finalize activation now now' => exact finalizeBindingCycle_accounted hd hledger haccounted hready h
  | fail activation validPolicy error now => exact recordBindingError_accounted hd hready h
  | renew leaseExpiresAt =>
    cases h
    exact haccounted
  | acknowledge => exact hready.elim
  | resolve => exact hready.elim

theorem TablesStep.accounted (ht : t.Kept) (haccounted : Accounted t.store.incidents t.store.health)
    (h : TablesStep Unsettled t t') : Accounted t'.store.incidents t'.store.health := by
  cases h with
  | call c h hready => exact c.execute_accounted ht.constrained ht.ledger haccounted hready h
  | arrive => exact haccounted
  | assess => exact haccounted

theorem MonitoringTables.Registered.accounted (h₀ : t.Registered) (hunknown : t.store.health.cause = none)
    (hrun : Relation.ReflTransGen (TablesStep Unsettled) t t') :
    t'.Kept ∧ Accounted t'.store.incidents t'.store.health := by
  induction hrun with
  | refl => exact ⟨h₀.kept, fun hcause => by rw [hunknown] at hcause; cases hcause⟩
  | tail _ hstep ih =>
    obtain ⟨hkept, haccounted⟩ := ih
    exact ⟨(hstep.kept hkept).1, hstep.accounted hkept haccounted⟩

end

/-- A health of ERROR or STALE with the cause RUNTIME has an open or acknowledged incident of this
cause. -/
def MonitoringStore.CauseJustified (d : MonitoringStore) : Prop :=
  d.health.status = .error ∨ d.health.status = .stale → d.health.cause = some .runtime →
    ∃ i ∈ d.incidents, (i.status = .open ∨ i.status = .acknowledged) ∧ i.cause = .runtime

/-- The cause is justified after every cycle, whatever the activation. -/
theorem finalized_cause_justified {t₀ t : MonitoringTables} (h₀ : t₀.Registered)
    (hunknown : t₀.store.health.cause = none)
    (hrun : Relation.ReflTransGen (TablesStep Unsettled) t₀ t) {activation : LiveStrategyActivation}
    {now now' : ℤ} {d : MonitoringStore} (hready : Unsettled t.store (.finalize activation now now'))
    (h : finalizeBindingCycle activation now now' t.store = .ok d) : d.CauseJustified := by
  have hlast : TablesStep Unsettled t { t with store := d } := .call (.finalize activation now now') h hready
  obtain ⟨hkept, haccounted⟩ := h₀.accounted hunknown (hrun.tail hlast)
  intro _ hcause
  obtain ⟨i, hi, haccounts⟩ := haccounted hcause
  refine ⟨i, hi, (IncidentLifecycle.ne_resolved_iff _).mp haccounts.unresolved, ?_⟩
  exact (congrArg Prod.snd (hkept.ledger i hi).label).trans haccounts.cause

/-! ### An evaluator that comes back late -/

/-- A binding that was just registered, without a run. -/
def unobserved : MonitoringStore := recovering 1 Nat.one_pos [] []

theorem unobserved_registered : MonitoringTables.Registered { store := unobserved } where
  wellFormed := ⟨by decide, by decide, by decide, by decide, by decide, by decide,
    by simp [unobserved, recovering, monitored], by decide, by simp [unobserved, recovering, monitored]⟩
  incidents := rfl
  evidence := rfl
  separate := ⟨List.nodup_nil, by simp⟩

/-- No evaluation in the first five minutes. -/
def unevaluated : MonitoringStore :=
  MonitoringCall.after (.finalize running (300 * second) (300 * second)) unobserved

/-- The next cycle of the stale binding. -/
def stillUnevaluated : MonitoringStore :=
  MonitoringCall.after (.finalize running (600 * second) (600 * second)) unevaluated

/-- A stale evaluator is observed while its incident is open. -/
theorem Unsettled.finalize_stale {d : MonitoringStore} {now now' : ℤ}
    (hopen : ∀ i ∈ d.incidents, i.status = .open) (hstale : EvaluatorStale d.binding.policy running now') :
    Unsettled d (.finalize running now now') := by
  refine ⟨(fun herror => by cases herror), fun _ _ hsettled => ?_, fun _ hfresh => absurd hstale hfresh⟩
  obtain ⟨i, hi, -, hresolved, -⟩ := hsettled
  rw [hopen i hi] at hresolved
  cases hresolved

theorem stillUnevaluated_justified :
    stillUnevaluated.health.status = .stale ∧ stillUnevaluated.health.cause = some .runtime ∧
    stillUnevaluated.CauseJustified := by
  have hready : Unsettled unobserved (.finalize running (300 * second) (300 * second)) :=
    .finalize_stale (by simp [unobserved, recovering, monitored]) (by decide +kernel)
  have hunevaluated : TablesStep Unsettled { store := unobserved } { store := unevaluated } :=
    .after (by decide +kernel) hready
  have hready' : Unsettled unevaluated (.finalize running (600 * second) (600 * second)) :=
    .finalize_stale (by decide +kernel) (by decide +kernel)
  refine ⟨by decide +kernel, by decide +kernel, ?_⟩
  exact finalized_cause_justified unobserved_registered rfl (.single hunevaluated) hready' (by rfl)

/-- The evaluator of the activation ran at the time. -/
def evaluatedAt (t : ℤ) : LiveStrategyActivation := { running with lastEvaluatedAt := some t }

/-- An hour later the evaluator runs again, but no comparison has arrived. -/
def evaluatedLate : MonitoringStore :=
  MonitoringCall.after (.finalize (evaluatedAt (3600 * second)) (3600 * second) (3600 * second)) unevaluated

/-- The calls of the monitor itself. -/
def ByMonitor (_ : MonitoringStore) : MonitoringCall → Prop
  | .acknowledge .. => False
  | .resolve .. => False
  | _ => True

theorem late_evaluator_unjustified : ¬ ∀ (t₀ t : MonitoringTables) (activation : LiveStrategyActivation)
    (now now' : ℤ) (d : MonitoringStore), t₀.Registered → t₀.store.health.cause = none →
    Relation.ReflTransGen (TablesStep ByMonitor) t₀ t → activation.status = .active →
    finalizeBindingCycle activation now now' t.store = .ok d → d.CauseJustified := by
  intro hall
  have hunevaluated : TablesStep ByMonitor { store := unobserved } { store := unevaluated } :=
    .after (by decide +kernel) trivial
  have hjustified := hall _ _ (evaluatedAt (3600 * second)) (3600 * second) (3600 * second) evaluatedLate
    unobserved_registered rfl (.single hunevaluated) rfl (by rfl)
  obtain ⟨i, hi, hstatus, hcause⟩ := hjustified (.inl (by decide +kernel)) (by decide +kernel)
  have hresolved : ∀ i ∈ evaluatedLate.incidents, i.cause = .runtime → i.status = .resolved := by
    decide +kernel
  rw [hresolved i hi hcause] at hstatus
  rcases hstatus with hstatus | hstatus <;> cases hstatus

end Quantive.Monitoring
