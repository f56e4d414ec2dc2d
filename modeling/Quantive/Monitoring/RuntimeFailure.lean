import Quantive.Monitoring.StateIncidents

/-!
# Runtime failures stay actionable

A failure whose evidence is already there returns before the incident is reopened. So an
error text that was seen before a recovery, or before an operator resolved the incident,
leaves the incident resolved when it comes back.
-/

namespace Quantive.Monitoring
open LiveStrategy (LiveStrategyActivation)

/-- The key of an incident that a comparison finding opened. -/
def DedupKey.isFinding : DedupKey → Bool
  | .finding .. => true
  | .state _ => false

/-- What the tables and the transactions of the monitor keep beyond `WellFormed`: the foreign key of
the evidence, and the types of the incidents that comparison findings open. -/
structure MonitoringStore.Constrained (d : MonitoringStore) : Prop extends d.WellFormed where
  linked : ∀ e ∈ d.evidence, ∃ i ∈ d.incidents, i.id = e.incidentId
  kinds : ∀ i ∈ d.incidents, i.dedupKey.isFinding → ∃ type, i.type = .divergence type

/-- The binding's evaluator failure is open or acknowledged. -/
def MonitoringStore.FailureActionable (d : MonitoringStore) : Prop :=
  ∃ i ∈ d.incidents, i.dedupKey = .state (evaluatorFailureKey d.binding) ∧
    (i.status = .open ∨ i.status = .acknowledged)

/-- The binding's evaluator failure is resolved, and this very error is among its evidence. -/
def MonitoringStore.FailureSettled (d : MonitoringStore) (statusLabel lastError : String) : Prop :=
  ∃ i ∈ d.incidents, i.dedupKey = .state (evaluatorFailureKey d.binding) ∧ i.status = .resolved ∧
    ∃ e ∈ d.evidence, e.incidentId = i.id ∧
      e.evidenceKey = .state (runtimeStateKey d.binding statusLabel lastError)

/-! ### One observation in a fresh session -/

theorem IncidentLifecycle.ne_resolved_iff (status : IncidentLifecycle) :
    status ≠ .resolved ↔ status = .open ∨ status = .acknowledged := by
  cases status <;> simp

/-- A session that changed nothing holds the rows as they are. -/
theorem map_object_unchanged {s : UnitOfWork} (h : s.changed = []) (rows : List Incident) :
    rows.map s.object = rows := by
  have hid : s.object = id := by
    funext row
    simp [UnitOfWork.object, h]
  rw [hid, List.map_id]

theorem written_unchanged {s : UnitOfWork} (h : s.changed = []) :
    s.written.incidents = s.db.incidents ++ s.addedIncidents := by
  unfold UnitOfWork.written
  rw [map_object_unchanged h]

theorem commitStates_ok_iff {s : UnitOfWork} {d' : MonitoringStore} :
    s.commitStates = .ok d' ↔ (s.written.incidents.map Incident.dedupKey).Nodup ∧
      (s.written.evidence.map fun e => (e.incidentId, e.evidenceKey)).Nodup ∧ d' = s.written := by
  unfold UnitOfWork.commitStates
  constructor
  · intro h
    split at h
    · cases h
    · rename_i hkeys
      split at h
      · cases h
      · rename_i hevidence
        exact ⟨not_not.mp hkeys, not_not.mp hevidence, (Except.ok.inj h).symm⟩
  · rintro ⟨hkeys, hevidence, rfl⟩
    rw [if_neg (not_not_intro hkeys), if_neg (not_not_intro hevidence)]

theorem commitStates_ok {s : UnitOfWork} (hkeys : (s.written.incidents.map Incident.dedupKey).Nodup)
    (hevidence : (s.written.evidence.map fun e => (e.incidentId, e.evidenceKey)).Nodup) :
    s.commitStates = .ok s.written :=
  commitStates_ok_iff.mpr ⟨hkeys, hevidence, rfl⟩

section
variable {d : MonitoringStore} {f : StateFinding}

/-- The incident that the SELECT of a fresh session finds. -/
theorem head?_selectIncidents (hd : d.WellFormed) {row : Incident} (hrow : row ∈ d.incidents)
    (h : HealthState) :
    ((UnitOfWork.project { db := d } h).selectIncidents fun i => i.dedupKey = row.dedupKey).head? =
      some row := by
  have hselect : (UnitOfWork.project { db := d } h).selectIncidents (fun i => i.dedupKey = row.dedupKey) =
      d.incidents.filter fun i => i.dedupKey = row.dedupKey := by
    unfold UnitOfWork.selectIncidents
    rw [map_object_unchanged rfl]
    rfl
  rw [hselect]
  cases hfilter : d.incidents.filter fun i => i.dedupKey = row.dedupKey with
  | nil => simpa using List.filter_eq_nil_iff.mp hfilter row hrow
  | cons i rest =>
    have hi : i ∈ d.incidents.filter fun i => i.dedupKey = row.dedupKey := by simp [hfilter]
    obtain ⟨hmem, hkey⟩ := List.mem_filter.mp hi
    have hsame : i = row := List.inj_on_of_nodup_map hd.keys hmem hrow (by simpa using hkey)
    rw [hsame]
    rfl

theorem head?_selectIncidents_none (hnone : ∀ i ∈ d.incidents, i.dedupKey ≠ .state f.key)
    (h : HealthState) :
    ((UnitOfWork.project { db := d } h).selectIncidents fun i => i.dedupKey = .state f.key).head? =
      none := by
  have hnil : (d.incidents.filter fun i => i.dedupKey = .state f.key) = [] :=
    List.filter_eq_nil_iff.mpr fun i hi => by simpa using hnone i hi
  simp [UnitOfWork.selectIncidents, UnitOfWork.project, hnil]

theorem StateFinding.recurIncident_fields (f : StateFinding) (incident : Incident) (now : ℤ) :
    (f.recurIncident incident now).id = incident.id ∧
    (f.recurIncident incident now).dedupKey = incident.dedupKey ∧
    (f.recurIncident incident now).type = incident.type ∧
    (f.recurIncident incident now).status ≠ .resolved := by
  unfold StateFinding.recurIncident
  by_cases h : incident.status = .resolved <;> simp [h]

/-- The first observation opens an incident. -/
theorem recordState_opens (hd : d.Constrained) (hnone : ∀ i ∈ d.incidents, i.dedupKey ≠ .state f.key)
    (h : HealthState) (now : ℤ) : ∃ d',
    (recordState f now (UnitOfWork.project { db := d } h)).2.commitStates = .ok d' ∧
      d'.binding = d.binding ∧
      d'.incidents = d.incidents ++ [f.openIncident d.binding.id d.names now] := by
  have hkeys : ((d.incidents ++ [f.openIncident d.binding.id d.names now]).map Incident.dedupKey).Nodup := by
    rw [List.map_append, List.nodup_append]
    refine ⟨hd.keys, by simp, fun key hkey other hother he => ?_⟩
    obtain ⟨i, hi, rfl⟩ := List.mem_map.mp hkey
    rw [List.map_singleton, List.mem_singleton] at hother
    exact hnone i hi (he.trans hother)
  have hevidence : ((d.evidence ++ [f.evidence (d.names + 1) d.names now]).map
      fun e => (e.incidentId, e.evidenceKey)).Nodup := by
    rw [List.map_append, List.nodup_append]
    refine ⟨hd.evidenceKeys, by simp, fun pair hpair other hother he => ?_⟩
    obtain ⟨e, hmem, rfl⟩ := List.mem_map.mp hpair
    rw [List.map_singleton, List.mem_singleton] at hother
    have hid : e.incidentId = d.names := congrArg Prod.fst (he.trans hother)
    obtain ⟨i, hi, hlink⟩ := hd.linked e hmem
    have hdrawn := hd.drawn i hi
    omega
  unfold recordState
  rw [head?_selectIncidents_none hnone]
  let s := ((UnitOfWork.project { db := d } h).drawn.addIncident
    (f.openIncident d.binding.id d.names now)).drawn.addEvidence (f.evidence (d.names + 1) d.names now)
  have hincidents : s.written.incidents = d.incidents ++ [f.openIncident d.binding.id d.names now] :=
    written_unchanged rfl
  exact ⟨s.written, commitStates_ok (hincidents ▸ hkeys) hevidence, rfl, hincidents⟩

/-- An evidence row of the observation hangs on the incident. -/
def MonitoringStore.Observed (d : MonitoringStore) (f : StateFinding) (incident : Incident) : Prop :=
  ∃ e ∈ d.evidence, e.incidentId = incident.id ∧ e.evidenceKey = .state f.evidenceKey

theorem selectEvidence_eq_nil (row : Incident) (h : HealthState) :
    ((UnitOfWork.project { db := d } h).selectEvidence fun e =>
      e.incidentId = row.id && e.evidenceKey = .state f.evidenceKey) = [] ↔ ¬ d.Observed f row := by
  unfold UnitOfWork.selectEvidence
  rw [List.filter_eq_nil_iff]
  simp [UnitOfWork.project, MonitoringStore.Observed]

/-- The same observation again changes the health only. -/
theorem recordState_observed (hd : d.Constrained) {row : Incident} (hrow : row ∈ d.incidents)
    (hkey : row.dedupKey = .state f.key) (hseen : d.Observed f row) (h : HealthState) (now : ℤ) :
    (recordState f now (UnitOfWork.project { db := d } h)).2.commitStates =
      .ok { d with health := h } := by
  have hselect := head?_selectIncidents hd.toWellFormed hrow h
  have hevidence := mt (selectEvidence_eq_nil row h).mp (not_not_intro hseen)
  rw [hkey] at hselect
  unfold recordState
  simp only [hselect, if_pos hevidence]
  have hwritten : (UnitOfWork.project { db := d } h).written = { d with health := h } := by
    simp [UnitOfWork.written, UnitOfWork.project, map_object_unchanged]
  rw [← hwritten]
  refine commitStates_ok ?_ ?_
  · rw [hwritten]
    exact hd.keys
  · rw [hwritten]
    exact hd.evidenceKeys

theorem change_object (s : UnitOfWork) (h : s.changed = []) (incident row : Incident) :
    (s.change incident).object row = if incident.id = row.id then incident else row := by
  rw [object_change]
  simp [UnitOfWork.object, h]

/-- A new observation reopens the incident. -/
theorem recordState_recurs (hd : d.Constrained) {row : Incident} (hrow : row ∈ d.incidents)
    (hkey : row.dedupKey = .state f.key) (hnew : ¬ d.Observed f row) (h : HealthState) (now : ℤ) :
    ∃ d', (recordState f now (UnitOfWork.project { db := d } h)).2.commitStates = .ok d' ∧
      d'.binding = d.binding ∧ f.recurIncident row now ∈ d'.incidents := by
  have hselect := head?_selectIncidents hd.toWellFormed hrow h
  have hevidence := (selectEvidence_eq_nil row h).mpr hnew
  obtain ⟨hid, hdedup, -, -⟩ := f.recurIncident_fields row now
  rw [hkey] at hselect
  unfold recordState
  simp only [hselect, ne_eq, hevidence, not_true_eq_false, if_false]
  let s := (((UnitOfWork.project { db := d } h).change (f.recurIncident row now)).drawn).addEvidence
    (f.evidence d.names (f.recurIncident row now).id now)
  have hobject : ∀ i, s.object i =
      if (f.recurIncident row now).id = i.id then f.recurIncident row now else i :=
    fun i => change_object _ rfl _ i
  refine ⟨_, commitStates_ok ?_ ?_, rfl, ?_⟩
  · have hkeys : (d.incidents.map fun i => (if (f.recurIncident row now).id = i.id then
        f.recurIncident row now else i).dedupKey) = d.incidents.map Incident.dedupKey := by
      refine List.map_congr_left fun i hi => ?_
      by_cases he : (f.recurIncident row now).id = i.id
      · have hsame : row = i := List.inj_on_of_nodup_map hd.ids hrow hi (hid.symm.trans he)
        rw [if_pos he, hdedup, hsame]
      · rw [if_neg he]
    have hmap : ((d.incidents.map s.object ++ []).map Incident.dedupKey) =
        d.incidents.map Incident.dedupKey := by
      rw [List.append_nil, List.map_map, ← hkeys]
      exact List.map_congr_left fun i _ => congrArg Incident.dedupKey (hobject i)
    exact hmap ▸ hd.keys
  · show ((d.evidence ++ [f.evidence d.names (f.recurIncident row now).id now]).map
      fun e => (e.incidentId, e.evidenceKey)).Nodup
    rw [List.map_append, List.nodup_append]
    refine ⟨hd.evidenceKeys, by simp, fun pair hpair other hother he => hnew ?_⟩
    obtain ⟨e, hmem, rfl⟩ := List.mem_map.mp hpair
    rw [List.map_singleton, List.mem_singleton] at hother
    have hpairs := he.trans hother
    exact ⟨e, hmem, (congrArg Prod.fst hpairs).trans hid, congrArg Prod.snd hpairs⟩
  · refine List.mem_append_left _ (List.mem_map.mpr ⟨row, hrow, ?_⟩)
    exact (hobject row).trans (if_pos hid)

end

/-! ### A failure is actionable unless it is settled -/

theorem recordActivationRuntimeFailure_eq (d : MonitoringStore) (activation : LiveStrategyActivation)
    (policy : Option MonitoringPolicy) (errorMessage runtimeStatus : Option String)
    (fallbackSeverity : Option IncidentSeverity) (now : ℤ) : ∃ f h,
    recordActivationRuntimeFailure activation policy errorMessage runtimeStatus fallbackSeverity now
      { db := d } = (recordState f now (UnitOfWork.project { db := d } h)).2 ∧
    f.key = evaluatorFailureKey d.binding ∧
    f.evidenceKey = runtimeStateKey d.binding (failureLabel activation runtimeStatus)
      (failureText activation errorMessage) :=
  ⟨_, _, rfl, rfl, rfl⟩

/-- The failure leaves an actionable incident unless it was resolved after the very same error. -/
theorem runtimeFailure_actionable_iff {d : MonitoringStore} (hd : d.Constrained)
    (activation : LiveStrategyActivation) (policy : Option MonitoringPolicy)
    (errorMessage runtimeStatus : Option String) (fallbackSeverity : Option IncidentSeverity) (now : ℤ) :
    ∃ d', (recordActivationRuntimeFailure activation policy errorMessage runtimeStatus
        fallbackSeverity now { db := d }).commitStates = .ok d' ∧
      (d'.FailureActionable ↔
        ¬ d.FailureSettled (failureLabel activation runtimeStatus) (failureText activation errorMessage)) := by
  obtain ⟨f, h, hrecord, hkey, hevidence⟩ := recordActivationRuntimeFailure_eq d activation policy
    errorMessage runtimeStatus fallbackSeverity now
  rw [hrecord]
  have hsettled : d.FailureSettled (failureLabel activation runtimeStatus)
      (failureText activation errorMessage) ↔
        ∃ i ∈ d.incidents, i.dedupKey = .state f.key ∧ i.status = .resolved ∧ d.Observed f i := by
    rw [MonitoringStore.FailureSettled, hkey]
    simp only [MonitoringStore.Observed, hevidence]
  rw [hsettled]
  by_cases hrow : ∃ row ∈ d.incidents, row.dedupKey = .state f.key
  · obtain ⟨row, hmem, hrowKey⟩ := hrow
    have hunique : ∀ i ∈ d.incidents, i.dedupKey = .state f.key → i = row := fun i hi he =>
      List.inj_on_of_nodup_map hd.keys hi hmem (he.trans hrowKey.symm)
    by_cases hseen : d.Observed f row
    · -- The evidence is there: the incident keeps its status.
      refine ⟨_, recordState_observed hd hmem hrowKey hseen h now, ?_⟩
      constructor
      · rintro ⟨i, hi, hiKey, hstatus⟩ ⟨j, hj, hjKey, hresolved, -⟩
        have hsame : i = j := (hunique i hi (hkey ▸ hiKey)).trans (hunique j hj hjKey).symm
        exact (IncidentLifecycle.ne_resolved_iff _).mpr hstatus (hsame ▸ hresolved)
      · intro hnot
        refine ⟨row, hmem, hkey ▸ hrowKey, (IncidentLifecycle.ne_resolved_iff _).mp ?_⟩
        exact fun hresolved => hnot ⟨row, hmem, hrowKey, hresolved, hseen⟩
    · obtain ⟨d', hcommit, hbinding, hmem'⟩ := recordState_recurs hd hmem hrowKey hseen h now
      obtain ⟨-, hdedup, -, hstatus⟩ := f.recurIncident_fields row now
      refine ⟨d', hcommit, iff_of_true ?_ ?_⟩
      · refine ⟨_, hmem', ?_, (IncidentLifecycle.ne_resolved_iff _).mp hstatus⟩
        rw [hdedup, hrowKey, hkey, hbinding]
      · rintro ⟨i, hi, hiKey, -, hobserved⟩
        exact hseen (hunique i hi hiKey ▸ hobserved)
  · have hnone : ∀ i ∈ d.incidents, i.dedupKey ≠ .state f.key := fun i hi he => hrow ⟨i, hi, he⟩
    obtain ⟨d', hcommit, hbinding, hincidents⟩ := recordState_opens hd hnone h now
    refine ⟨d', hcommit, iff_of_true ?_ ?_⟩
    · refine ⟨f.openIncident d.binding.id d.names now, ?_, ?_, Or.inl rfl⟩
      · rw [hincidents]
        exact List.mem_append_right _ (List.mem_singleton_self _)
      · rw [hbinding, ← hkey]
        rfl
    · rintro ⟨i, hi, hiKey, -⟩
      exact hnone i hi hiKey

/-! ### The same error after a recovery -/

theorem running_bounded : 1 ≤ 100 ∧ 100 ≤ 1000 := by decide

/-- A running activation; the monitor reads its status, its times and its error. -/
def running : LiveStrategyActivation :=
  { strategyDefinitionHash := "h", activatedAt := 0
    configuration := { evaluatorRevision := "1", bounded := running_bounded } }

/-- A run over the window that ends after some minutes. -/
def windowRun (id : String) (status : ComparisonStatus) (minutes : ℤ) : ComparisonRun :=
  { missedSignals with runId := id, status := status, windowEnd := minutes * minute }

/-- A binding that recovers after some healthy checks. -/
def recovering (checks : ℕ) (h : 1 ≤ checks) (runs : List ComparisonRun) (findings : List Finding) :
    MonitoringStore :=
  let d := monitored []
  { d with
    binding := { d.binding with
      policy := { d.binding.policy with recoveryHealthyChecks := checks, positive := h } }
    runs := runs, findings := findings }

/-- Before any incident. -/
def unfailed : MonitoringStore := recovering 1 Nat.one_pos [windowRun "a" .healthy 1] []

theorem unfailed_constrained : unfailed.Constrained :=
  ⟨⟨by decide, by decide, by decide, by decide, by decide, by decide,
    by simp [unfailed, recovering, monitored], by decide, by simp [unfailed, recovering, monitored]⟩,
    by decide, by simp [unfailed, recovering, monitored]⟩

/-- The first error of a binding opens its incident. -/
theorem firstError_actionable : ∃ d',
    (recordActivationRuntimeFailure running none (some "boom") none none 1
      { db := unfailed }).commitStates = .ok d' ∧
    (d'.FailureActionable ↔ ¬ unfailed.FailureSettled (failureLabel running none)
      (failureText running (some "boom"))) :=
  runtimeFailure_actionable_iff unfailed_constrained running none (some "boom") none none 1

instance (d : MonitoringStore) : Decidable d.FailureActionable :=
  inferInstanceAs (Decidable (∃ i ∈ d.incidents, _ ∧ _))

/-- An error, a healthy run that resolves its incident, and the same error again. -/
def failRecoverFail : Except MonitoringError MonitoringStore := do
  let d ← recordBindingError running (some unfailed.binding.policy) "boom" 1 unfailed
  let d ← processOneComparison onePerPage "w" running 2 d
  recordBindingError running (some d.binding.policy) "boom" 3 d

theorem repeatedError_stays_resolved :
    ∃ d, failRecoverFail = .ok d ∧ d.health.lastError = some "boom" ∧ ¬ d.FailureActionable :=
  ⟨_, rfl, by decide +kernel, by decide +kernel⟩

end Quantive.Monitoring
