import Mathlib.Logic.Relation
import Quantive.Monitoring.RuntimeFailure

/-!
# Recovery

The healthy checks are counted in the health row of the activation, and a run behind the last
complete window leaves that count alone although it opens and reopens incidents. When every
run that has findings is a current one, the count is a lower bound for the healthy runs since
any detection.
-/

namespace Quantive.Monitoring
open LiveStrategy (LiveStrategyActivation)

/-! ### What an operation can do -/

/-- The session after the first observation of a state. -/
def UnitOfWork.opened (s : UnitOfWork) (f : StateFinding) (now : ℤ) : UnitOfWork :=
  let s' := s.drawn.addIncident (f.openIncident s.db.binding.id s.db.names now)
  s'.drawn.addEvidence (f.evidence s'.db.names s.db.names now)

/-- The session after a further observation of a state. -/
def UnitOfWork.recurred (s : UnitOfWork) (f : StateFinding) (incident : Incident) (now : ℤ) : UnitOfWork :=
  let updated := f.recurIncident incident now
  (s.change updated).drawn.addEvidence (f.evidence s.db.names updated.id now)

/-- A state opens its incident, or is observed before, or recurs. -/
theorem recordState_cases (f : StateFinding) (now : ℤ) (s : UnitOfWork) :
    recordState f now s = (f.severityFor 1 Nat.one_pos, s.opened f now) ∨
    ∃ row ∈ s.db.incidents, row.dedupKey = .state f.key ∧
      (((∃ e ∈ s.db.evidence, e.incidentId = (s.object row).id ∧ e.evidenceKey = .state f.evidenceKey) ∧
        recordState f now s = ((s.object row).severity, s)) ∨
      recordState f now s =
        ((f.recurIncident (s.object row) now).severity, s.recurred f (s.object row) now)) := by
  unfold recordState
  cases hfound : (s.selectIncidents fun i => i.dedupKey = .state f.key).head? with
  | none => exact .inl rfl
  | some old =>
    obtain ⟨row, hrow, rfl⟩ := List.mem_map.mp (List.mem_of_mem_head? hfound)
    obtain ⟨hmem, hkey⟩ := List.mem_filter.mp hrow
    refine .inr ⟨row, hmem, of_decide_eq_true hkey, ?_⟩
    dsimp only
    split
    · rename_i hseen
      obtain ⟨e, he⟩ := List.exists_mem_of_ne_nil _ hseen
      obtain ⟨he, hlink⟩ := List.mem_filter.mp he
      simp only [Bool.and_eq_true, decide_eq_true_eq] at hlink
      exact .inl ⟨⟨e, he, hlink⟩, rfl⟩
    · exact .inr rfl

/-- The evidence of a finding. -/
def ComparisonRun.evidence (run : ComparisonRun) (f : Finding) (id incidentId : ℕ) (now : ℤ) :
    IncidentEvidence :=
  { id := id, incidentId := incidentId, findingId := some f.id, comparisonRunId := some run.runId
    evidenceKey := .finding f.id, observedAt := now }

/-- A finding is linked already, or it opens an incident, or a row recurs. -/
theorem recordFinding_cases {s s' : UnitOfWork} {run : ComparisonRun} {now : ℤ} {f : Finding}
    {c : HealthCause × IncidentSeverity} (h : recordFinding run now s f = .ok (c, s')) :
    c.1 = causeForDivergence f.divergenceType ∧
    (((∃ e ∈ s.db.evidence, e.findingId = some f.id) ∧ s' = s) ∨
      s' = (s.drawn.addIncident (openIncident s.db.binding run f (causeForDivergence f.divergenceType)
        s.db.names now)).drawn.addEvidence (run.evidence f (s.db.names + 1) s.db.names now) ∨
      ∃ row ∈ s.db.incidents,
        row.dedupKey = incidentDedupKey s.db.binding f (causeForDivergence f.divergenceType) ∧
        s' = (s.change (recurIncident s.db.binding run f (causeForDivergence f.divergenceType)
          (s.object row) now)).drawn.addEvidence (run.evidence f s.db.names
            (recurIncident s.db.binding run f (causeForDivergence f.divergenceType) (s.object row)
              now).id now)) := by
  unfold recordFinding at h
  dsimp only at h
  cases hexisting : (s.selectEvidence fun e => e.findingId = some f.id).head? with
  | some existing =>
    obtain ⟨hmem, hlink⟩ := List.mem_filter.mp (List.mem_of_mem_head? hexisting)
    rw [hexisting] at h
    dsimp only at h
    split at h
    · cases h
    · cases h
      exact ⟨rfl, .inl ⟨⟨existing, hmem, of_decide_eq_true hlink⟩, rfl⟩⟩
  | none =>
    rw [hexisting] at h
    dsimp only at h
    cases hfound : (s.selectIncidents fun i => i.dedupKey = incidentDedupKey s.db.binding f
        (causeForDivergence f.divergenceType)).head? with
    | none =>
      rw [hfound] at h
      cases h
      exact ⟨rfl, .inr (.inl rfl)⟩
    | some old =>
      rw [hfound] at h
      cases h
      obtain ⟨row, hrow, rfl⟩ := List.mem_map.mp (List.mem_of_mem_head? hfound)
      obtain ⟨hmem, hkey⟩ := List.mem_filter.mp hrow
      exact ⟨rfl, .inr (.inr ⟨row, hmem, of_decide_eq_true hkey, rfl⟩)⟩

/-- A transaction of a cycle records a failure, or sets the health to unknown, or acts. -/
theorem unlessActive_cases {activation : LiveStrategyActivation} {now : ℤ} {d d' : MonitoringStore}
    {act : Except MonitoringError MonitoringStore} (h : unlessActive activation now d act = .ok d') :
    (activation.status = .error ∧ (recordActivationRuntimeFailure activation (some d.binding.policy) none
      none none now { db := d }).commitStates = .ok d') ∨
    (activation.status = .deactivated ∧
      (UnitOfWork.project { db := d } (setUnknown d.health)).commitStates = .ok d') ∨
    (activation.status = .active ∧ act = .ok d') := by
  unfold unlessActive at h
  cases hstatus : activation.status with
  | active =>
    rw [hstatus] at h
    exact .inr (.inr ⟨rfl, h⟩)
  | deactivated =>
    rw [hstatus] at h
    exact .inr (.inl ⟨rfl, h⟩)
  | error =>
    rw [hstatus] at h
    exact .inl ⟨rfl, h⟩

/-! ### Sessions that compare nothing -/

/-- What a transaction without a comparison run leaves alone: the incidents of findings, and the
count of healthy checks, which it can only reset. -/
structure StateSession (d : MonitoringStore) (s : UnitOfWork) : Prop where
  rows : d.SameRows s.db
  names : d.names ≤ s.db.names
  held : ∀ row ∈ d.incidents, (s.object row).id = row.id ∧ (s.object row).dedupKey = row.dedupKey
  kept : ∀ row ∈ d.incidents, row.dedupKey.isFinding → s.object row = row
  added : ∀ i ∈ s.addedIncidents, i.dedupKey.isFinding = false ∧ d.names ≤ i.id ∧ i.id < s.db.names
  addedIds : (s.addedIncidents.map Incident.id).Nodup
  evidence : ∀ e ∈ s.addedEvidence, e.findingId = none ∧ (∃ key, e.evidenceKey = .state key) ∧
    ((∃ row ∈ d.incidents, row.id = e.incidentId) ∨ ∃ i ∈ s.addedIncidents, i.id = e.incidentId)
  checks : s.db.health.consecutiveHealthyChecks ≤ d.health.consecutiveHealthyChecks

section
variable {d : MonitoringStore} {s : UnitOfWork}

theorem StateSession.start : StateSession d { db := d } where
  rows := ⟨_, _, _, rfl⟩
  names := Nat.le_refl _
  held _ _ := ⟨rfl, rfl⟩
  kept _ _ _ := rfl
  added := by simp
  addedIds := by simp
  evidence := by simp
  checks := Nat.le_refl _

theorem StateSession.project (hs : StateSession d s) {h : HealthState}
    (hle : h.consecutiveHealthyChecks ≤ d.health.consecutiveHealthyChecks) :
    StateSession d (s.project h) :=
  ⟨hs.rows.projected h, hs.names, hs.held, hs.kept, hs.added, hs.addedIds, hs.evidence, hle⟩

theorem StateSession.drawn (hs : StateSession d s) : StateSession d s.drawn :=
  ⟨hs.rows.drawn _, Nat.le_succ_of_le hs.names, hs.held, hs.kept,
    fun i hi => ⟨(hs.added i hi).1, (hs.added i hi).2.1, Nat.lt_succ_of_lt (hs.added i hi).2.2⟩,
    hs.addedIds, hs.evidence, hs.checks⟩

/-- An object that no finding opened is changed. -/
theorem StateSession.change (hd : d.Constrained) (hs : StateSession d s) {row incident : Incident}
    (hrow : row ∈ d.incidents) (hkind : row.dedupKey.isFinding = false) (hid : incident.id = row.id)
    (hkey : incident.dedupKey = row.dedupKey) : StateSession d (s.change incident) := by
  refine ⟨hs.rows, hs.names, fun row' hrow' => ?_, fun row' hrow' hkind' => ?_, hs.added, hs.addedIds,
    hs.evidence, hs.checks⟩
  · rw [object_change]
    by_cases he : incident.id = row'.id
    · have hsame : row = row' := List.inj_on_of_nodup_map hd.ids hrow hrow' (hid.symm.trans he)
      rw [if_pos he, ← hsame]
      exact ⟨hid, hkey⟩
    · rw [if_neg he]
      exact hs.held row' hrow'
  · rw [object_change]
    by_cases he : incident.id = row'.id
    · have hsame : row = row' := List.inj_on_of_nodup_map hd.ids hrow hrow' (hid.symm.trans he)
      rw [← hsame, hkind] at hkind'
      cases hkind'
    · rw [if_neg he]
      exact hs.kept row' hrow' hkind'

theorem StateSession.addEvidence (hs : StateSession d s) {e : IncidentEvidence}
    (hfinding : e.findingId = none) (hkey : ∃ key, e.evidenceKey = .state key)
    (hincident : (∃ row ∈ d.incidents, row.id = e.incidentId) ∨
      ∃ i ∈ s.addedIncidents, i.id = e.incidentId) :
    StateSession d (s.drawn.addEvidence e) := by
  have hdrawn := hs.drawn
  refine ⟨hdrawn.rows, hdrawn.names, hs.held, hs.kept, hdrawn.added, hs.addedIds, fun e' he' => ?_,
    hs.checks⟩
  rcases List.mem_append.mp he' with he' | he'
  · exact hs.evidence e' he'
  · rw [List.mem_singleton.mp he']
    exact ⟨hfinding, hkey, hincident⟩

theorem StateSession.addIncident (hs : StateSession d s) {incident : Incident}
    (hid : incident.id = s.db.names) (hkind : incident.dedupKey.isFinding = false) :
    StateSession d (s.drawn.addIncident incident) := by
  have hdrawn := hs.drawn
  refine ⟨hdrawn.rows, hdrawn.names, hs.held, hs.kept, fun i hi => ?_, ?_, fun e he => ?_, hs.checks⟩
  · rcases List.mem_append.mp hi with hi | hi
    · exact hdrawn.added i hi
    · rw [List.mem_singleton.mp hi, hid]
      exact ⟨hkind, hs.names, Nat.lt_succ_self _⟩
  · have hfresh : ∀ i ∈ s.addedIncidents, i.id ≠ s.db.names := fun i hi =>
      Nat.ne_of_lt (hs.added i hi).2.2
    simpa [UnitOfWork.addIncident, UnitOfWork.drawn, List.nodup_append, hs.addedIds, hid] using hfresh
  · obtain ⟨hfinding, hkey, hrow | ⟨i, hi, hlink⟩⟩ := hs.evidence e he
    · exact ⟨hfinding, hkey, Or.inl hrow⟩
    · exact ⟨hfinding, hkey, Or.inr ⟨i, List.mem_append_left _ hi, hlink⟩⟩

theorem StateSession.recordState (hd : d.Constrained) (hs : StateSession d s) (f : StateFinding)
    (now : ℤ) : StateSession d (recordState f now s).2 := by
  rcases recordState_cases f now s with hopened | ⟨row, hmem, hkey, ⟨-, hseen⟩ | hrecurred⟩
  · rw [hopened]
    exact (hs.addIncident rfl rfl).addEvidence rfl ⟨_, rfl⟩
      (Or.inr ⟨_, List.mem_append_right _ (List.mem_singleton_self _), rfl⟩)
  · rw [hseen]
    exact hs
  · rw [hrecurred]
    rw [hs.rows.incidents] at hmem
    obtain ⟨hid, hdedup⟩ := hs.held row hmem
    obtain ⟨hid', hdedup', -, -⟩ := f.recurIncident_fields (s.object row) now
    have hkind : row.dedupKey.isFinding = false := by
      rw [hkey]
      rfl
    have hlinked : (f.recurIncident (s.object row) now).id = row.id := hid'.trans hid
    exact (hs.change hd hmem hkind hlinked (hdedup'.trans hdedup)).addEvidence rfl ⟨_, rfl⟩
      (Or.inl ⟨row, hmem, hlinked.symm⟩)

theorem StateSession.recoverStale (hd : d.Constrained) (hs : StateSession d s) {type : IncidentType}
    (htype : ∀ t, type ≠ .divergence t) (note : String) (now : ℤ) :
    StateSession d (recoverStale type note now s) := by
  unfold Monitoring.recoverStale
  have hheld := hs.held
  refine List.foldlRecOn _ _ hs fun s' hs' i hi => ?_
  obtain ⟨row, hrow, rfl⟩ := List.mem_map.mp hi
  obtain ⟨hmem, hselected⟩ := List.mem_filter.mp hrow
  rw [hs.rows.incidents] at hmem
  obtain ⟨hid, hkey⟩ := hheld row hmem
  refine hs'.change hd hmem ?_ hid hkey
  by_contra hkind
  obtain ⟨t, ht⟩ := hd.kinds row hmem (by simpa using hkind)
  simp only [Bool.and_eq_true, decide_eq_true_eq] at hselected
  exact htype t (hselected.1.2.symm.trans ht)

theorem setDivergentHealth_checks (h : HealthState) (classifications : List (HealthCause × IncidentSeverity)) :
    (setDivergentHealth h classifications).consecutiveHealthyChecks = 0 := by
  cases classifications <;> rfl

theorem recordState_health (f : StateFinding) (now : ℤ) (s : UnitOfWork) :
    (recordState f now s).2.db.health = s.db.health := by
  rcases recordState_cases f now s with h | ⟨row, -, -, ⟨-, h⟩ | h⟩ <;> rw [h] <;> rfl

theorem StateSession.recordActivationRuntimeFailure (hd : d.Constrained) (hs : StateSession d s)
    (activation : LiveStrategyActivation) (policy : Option MonitoringPolicy)
    (errorMessage runtimeStatus : Option String) (fallbackSeverity : Option IncidentSeverity) (now : ℤ) :
    StateSession d (recordActivationRuntimeFailure activation policy errorMessage runtimeStatus
      fallbackSeverity now s) :=
  (hs.project (Nat.zero_le _)).recordState hd _ now

theorem StateSession.evaluateStaleness (hd : d.Constrained) (hs : StateSession d s)
    (activation : LiveStrategyActivation) (now : ℤ) :
    StateSession d (evaluateStaleness activation now s) := by
  unfold Monitoring.evaluateStaleness
  have hread := hs.project (h := { s.db.health with lastEvaluatedAt := activation.lastEvaluatedAt })
    hs.checks
  dsimp only
  split
  · exact (hread.recordState hd _ now).project (Nat.zero_le _)
  · have hother : ∀ t, IncidentType.staleStrategyState ≠ .divergence t := fun t h => by cases h
    have hrecovered := hread.recoverStale hd hother
      "Live evaluator resumed within the configured stale threshold." now
    split
    · exact hrecovered.project (Nat.zero_le _)
    · exact hrecovered

theorem StateSession.evaluateComparisonFreshness (hd : d.Constrained) (hs : StateSession d s) (now : ℤ) :
    StateSession d (evaluateComparisonFreshness now s) := by
  unfold Monitoring.evaluateComparisonFreshness
  dsimp only
  split
  · refine (hs.recordState hd _ now).project ?_
    rw [setDivergentHealth_checks]
    exact Nat.zero_le _
  · exact hs.recoverStale hd (fun t h => by cases h) _ now

/-! ### Their commits -/

/-- What such a transaction keeps of the store. -/
structure StatesKept (d d' : MonitoringStore) : Prop where
  constrained : d'.Constrained
  findings : ∀ row ∈ d.incidents, row.dedupKey.isFinding → row ∈ d'.incidents
  checks : d'.health.consecutiveHealthyChecks ≤ d.health.consecutiveHealthyChecks
  policy : d'.binding.policy = d.binding.policy

theorem StateSession.commit {d' : MonitoringStore} (hd : d.Constrained) (hs : StateSession d s)
    (h : s.commitStates = .ok d') : StatesKept d d' := by
  obtain ⟨hkeys, hevidence, rfl⟩ := commitStates_ok_iff.mp h
  have hrows : ∀ i ∈ s.written.incidents, (∃ row ∈ d.incidents, i = s.object row) ∨
      i ∈ s.addedIncidents := by
    intro i hi
    rcases List.mem_append.mp hi with hi | hi
    · obtain ⟨row, hrow, rfl⟩ := List.mem_map.mp hi
      exact Or.inl ⟨row, hs.rows.incidents ▸ hrow, rfl⟩
    · exact Or.inr hi
  have hmem : ∀ row ∈ d.incidents, s.object row ∈ s.written.incidents := fun row hrow =>
    List.mem_append_left _ (List.mem_map_of_mem (hs.rows.incidents ▸ hrow))
  have hlinks : ∀ e ∈ s.written.evidence, e ∈ d.evidence ∨ e ∈ s.addedEvidence := fun e he =>
    (List.mem_append.mp he).imp_left fun he => hs.rows.evidence ▸ he
  refine ⟨⟨⟨hkeys, ?_, ?_, ?_, ?_, hevidence, ?_, ?_, ?_⟩, ?_, ?_⟩, ?_, hs.checks, ?_⟩
  · have hheld : (s.db.incidents.map s.object).map Incident.id = d.incidents.map Incident.id := by
      rw [hs.rows.incidents, List.map_map]
      exact List.map_congr_left fun row hrow => (hs.held row hrow).1
    show ((s.db.incidents.map s.object ++ s.addedIncidents).map Incident.id).Nodup
    rw [List.map_append, hheld, List.nodup_append]
    refine ⟨hd.ids, hs.addedIds, fun id hid id' hid' he => ?_⟩
    obtain ⟨i, hi, rfl⟩ := List.mem_map.mp hid
    obtain ⟨j, hj, rfl⟩ := List.mem_map.mp hid'
    have := hd.drawn i hi
    have := (hs.added j hj).2.1
    omega
  · intro i hi
    rcases hrows i hi with ⟨row, hrow, rfl⟩ | hi
    · rw [(hs.held row hrow).1]
      exact Nat.lt_of_lt_of_le (hd.drawn row hrow) hs.names
    · exact (hs.added i hi).2.2
  · show (s.db.findings.map Finding.id).Nodup
    exact hs.rows.findings ▸ hd.findings
  · have hnone : s.addedEvidence.filterMap IncidentEvidence.findingId = [] :=
      List.filterMap_eq_nil_iff.mpr fun e he => (hs.evidence e he).1
    show ((s.db.evidence ++ s.addedEvidence).filterMap IncidentEvidence.findingId).Nodup
    rw [List.filterMap_append, hnone, List.append_nil, hs.rows.evidence]
    exact hd.evidence
  · intro e he id hid
    rcases hlinks e he with he | he
    · exact hd.keyed e he id hid
    · obtain ⟨-, ⟨key, hkey⟩, -⟩ := hs.evidence e he
      rw [hkey] at hid
      cases hid
  · show (s.db.assessments.map MonitoringAssessment.comparisonRunId).Nodup
    exact hs.rows.assessments ▸ hd.assessments
  · intro e he f hf hlink
    change f ∈ s.db.findings at hf
    show f.comparisonRunId ∈ s.db.assessments.map MonitoringAssessment.comparisonRunId
    rw [hs.rows.findings] at hf
    rw [hs.rows.assessments]
    rcases hlinks e he with he | he
    · exact hd.assessed e he f hf hlink
    · rw [(hs.evidence e he).1] at hlink
      cases hlink
  · intro e he
    rcases hlinks e he with he | he
    · obtain ⟨row, hrow, hid⟩ := hd.linked e he
      exact ⟨_, hmem row hrow, (hs.held row hrow).1.trans hid⟩
    · obtain ⟨-, -, ⟨row, hrow, hid⟩ | ⟨i, hi, hid⟩⟩ := hs.evidence e he
      · exact ⟨_, hmem row hrow, (hs.held row hrow).1.trans hid⟩
      · exact ⟨i, List.mem_append_right _ hi, hid⟩
  · intro i hi hkind
    rcases hrows i hi with ⟨row, hrow, rfl⟩ | hi
    · rw [(hs.held row hrow).2] at hkind
      rw [hs.kept row hrow hkind]
      exact hd.kinds row hrow hkind
    · rw [(hs.added i hi).1] at hkind
      cases hkind
  · intro row hrow hkind
    exact hs.kept row hrow hkind ▸ hmem row hrow
  · obtain ⟨names, lease, health, he⟩ := hs.rows
    show s.db.binding.policy = d.binding.policy
    rw [he]

end

/-! ### Comparison runs -/

/-- What a session that scans findings keeps of the incidents and the evidence. -/
structure FindingSession (d : MonitoringStore) (s : UnitOfWork) : Prop where
  rows : d.SameRows s.db
  held : ∀ row ∈ d.incidents, (s.object row).id = row.id ∧ (s.object row).dedupKey = row.dedupKey ∧
    (s.object row).type = row.type
  added : ∀ i ∈ s.addedIncidents, ∃ type, i.type = .divergence type
  evidence : ∀ e ∈ s.addedEvidence, (∃ row ∈ d.incidents, row.id = e.incidentId) ∨
    ∃ i ∈ s.addedIncidents, i.id = e.incidentId

/-- No incident that is open in the rows is resolved in the session. -/
def UnitOfWork.LeavesOpen (d : MonitoringStore) (s : UnitOfWork) : Prop :=
  ∀ row ∈ d.incidents, row.status ≠ .resolved → (s.object row).status ≠ .resolved

section
variable {d : MonitoringStore} {s : UnitOfWork}

theorem FindingSession.start : FindingSession d { db := d } where
  rows := ⟨_, _, _, rfl⟩
  held _ _ := ⟨rfl, rfl, rfl⟩
  added := by simp
  evidence := by simp

theorem FindingSession.change (hd : d.Constrained) (hs : FindingSession d s) {row incident : Incident}
    (hrow : row ∈ d.incidents) (hid : incident.id = row.id) (hkey : incident.dedupKey = row.dedupKey)
    (htype : incident.type = row.type) : FindingSession d (s.change incident) := by
  refine ⟨hs.rows, fun row' hrow' => ?_, hs.added, hs.evidence⟩
  rw [object_change]
  by_cases he : incident.id = row'.id
  · have hsame : row = row' := List.inj_on_of_nodup_map hd.ids hrow hrow' (hid.symm.trans he)
    rw [if_pos he, ← hsame]
    exact ⟨hid, hkey, htype⟩
  · rw [if_neg he]
    exact hs.held row' hrow'

theorem FindingSession.addEvidence (hs : FindingSession d s) {e : IncidentEvidence}
    (hlinked : (∃ row ∈ d.incidents, row.id = e.incidentId) ∨
      ∃ i ∈ s.addedIncidents, i.id = e.incidentId) :
    FindingSession d (s.drawn.addEvidence e) := by
  refine ⟨hs.rows.drawn _, hs.held, hs.added, fun e' he' => ?_⟩
  rcases List.mem_append.mp he' with he' | he'
  · exact hs.evidence e' he'
  · rw [List.mem_singleton.mp he']
    exact hlinked

theorem FindingSession.addIncident (hs : FindingSession d s) {incident : Incident}
    (htype : ∃ type, incident.type = .divergence type) :
    FindingSession d (s.drawn.addIncident incident) := by
  refine ⟨hs.rows.drawn _, hs.held, fun i hi => ?_, fun e he => ?_⟩
  · rcases List.mem_append.mp hi with hi | hi
    · exact hs.added i hi
    · rw [List.mem_singleton.mp hi]
      exact htype
  · refine (hs.evidence e he).imp_right fun hadded => ?_
    obtain ⟨i, hi, hid⟩ := hadded
    exact ⟨i, List.mem_append_left _ hi, hid⟩

theorem LeavesOpen.change (h : s.LeavesOpen d) {incident : Incident}
    (hstatus : incident.status ≠ .resolved) : (s.change incident).LeavesOpen d := by
  intro row hrow hopen
  rw [object_change]
  by_cases he : incident.id = row.id
  · rwa [if_pos he]
  · rw [if_neg he]
    exact h row hrow hopen

theorem recurIncident_status (binding : MonitoringBinding) (run : ComparisonRun) (f : Finding)
    (cause : HealthCause) (incident : Incident) (now : ℤ) :
    (recurIncident binding run f cause incident now).type = incident.type ∧
    (recurIncident binding run f cause incident now).status ≠ .resolved := by
  unfold recurIncident
  by_cases h : incident.status = .resolved <;> simp [h]

theorem recordFinding_session (hd : d.Constrained) {run : ComparisonRun} {now : ℤ} {f : Finding}
    {c : HealthCause × IncidentSeverity} {s' : UnitOfWork}
    (h : recordFinding run now s f = .ok (c, s')) (hs : FindingSession d s) (hopen : s.LeavesOpen d) :
    FindingSession d s' ∧ s'.LeavesOpen d ∧ s'.db.health = s.db.health := by
  obtain ⟨-, ⟨-, rfl⟩ | rfl | ⟨row, hrow, -, rfl⟩⟩ := recordFinding_cases h
  · exact ⟨hs, hopen, rfl⟩
  · refine ⟨(hs.addIncident ⟨_, rfl⟩).addEvidence
      (Or.inr ⟨_, List.mem_append_right _ (List.mem_singleton_self _), rfl⟩), ?_, rfl⟩
    exact fun row hrow hstatus => hopen row hrow hstatus
  · have hmem : row ∈ d.incidents := hs.rows.incidents ▸ hrow
    obtain ⟨hid, hkey, htype⟩ := hs.held row hmem
    obtain ⟨hid', hkey', -⟩ := recurIncident_fields s.db.binding run f
      (causeForDivergence f.divergenceType) (s.object row) now
    obtain ⟨htype', hstatus'⟩ := recurIncident_status s.db.binding run f
      (causeForDivergence f.divergenceType) (s.object row) now
    refine ⟨(hs.change hd hmem (hid'.trans hid) (hkey'.trans hkey)
      (htype'.trans htype)).addEvidence (Or.inl ⟨row, hmem, (hid'.trans hid).symm⟩), ?_, rfl⟩
    exact LeavesOpen.change hopen hstatus'

/-- What the page loop keeps. -/
def Scanning (d : MonitoringStore) (scan : Scan) : Prop :=
  FindingSession d scan.session ∧ scan.session.LeavesOpen d ∧ scan.session.db.health = d.health

theorem scanPage_session (hd : d.Constrained) (settings : MonitoringSettings) {run : ComparisonRun}
    {now : ℤ} {scan scan' : Scan} {page : List Finding}
    (h : scanPage settings run now scan page = .ok scan') (hs : Scanning d scan) : Scanning d scan' := by
  unfold scanPage at h
  cases hpage : page.foldlM (scanFinding run now) scan with
  | error e => simp [hpage, bind, Except.bind] at h
  | ok scan₁ =>
    simp only [hpage, bind, Except.bind, pure, Except.pure, Except.ok.injEq] at h
    have h₁ : Scanning d scan₁ := by
      clear h
      induction page generalizing scan with
      | nil =>
        cases hpage
        exact hs
      | cons f page ih =>
        rw [List.foldlM_cons] at hpage
        cases hrecord : recordFinding run now scan.session f with
        | error e => simp [scanFinding, hrecord, bind, Except.bind] at hpage
        | ok result =>
          simp only [scanFinding, hrecord, bind, Except.bind, pure, Except.pure] at hpage
          obtain ⟨hsession, hopen, hhealth⟩ := recordFinding_session hd hrecord hs.1 hs.2.1
          exact ih ⟨hsession, hopen, hhealth.trans hs.2.2⟩ hpage
    rw [← h]
    exact ⟨⟨h₁.1.rows.leased _, h₁.1.held, h₁.1.added, h₁.1.evidence⟩, h₁.2⟩

theorem FindingSession.policy (hs : FindingSession d s) : s.db.binding.policy = d.binding.policy := by
  obtain ⟨names, lease, health, he⟩ := hs.rows
  rw [he]

/-- The projection of a run that is not healthy. -/
theorem projectHealth_unhealthy {run : ComparisonRun} {now : ℤ} {scan : Scan} {health : HealthState}
    (hproject : projectHealth run now scan = .ok (s, health)) (hstatus : run.status ≠ .healthy) :
    s = scan.session ∧
    health.consecutiveHealthyChecks ≤ scan.session.db.health.consecutiveHealthyChecks ∧
    (currentWindow scan.session.db.health run → health.consecutiveHealthyChecks = 0) := by
  have hcurrent : currentWindow { scan.session.db.health with lastComparisonAt := some now } run =
      currentWindow scan.session.db.health run := rfl
  unfold projectHealth at hproject
  cases hs : run.status with
  | healthy => exact absurd hs hstatus
  | insufficientReference =>
    simp only [hs, hcurrent] at hproject
    cases hc : currentWindow scan.session.db.health run with
    | false =>
      simp only [hc, Bool.not_false, if_true, Except.ok.injEq, Prod.mk.injEq] at hproject
      obtain ⟨rfl, rfl⟩ := hproject
      exact ⟨rfl, Nat.le_refl _, fun h => by cases h⟩
    | true =>
      simp only [hc, Bool.not_true, Bool.false_eq_true, if_false, Except.ok.injEq, Prod.mk.injEq]
        at hproject
      obtain ⟨rfl, rfl⟩ := hproject
      cases scan.knownProjection <;> exact ⟨rfl, Nat.zero_le _, fun _ => rfl⟩
  | divergent =>
    simp only [hs, hcurrent] at hproject
    cases hp : scan.projection with
    | none => simp [hp] at hproject
    | some p =>
      simp only [hp] at hproject
      cases hc : currentWindow scan.session.db.health run with
      | false =>
        simp only [hc, Bool.not_false, if_true, Except.ok.injEq, Prod.mk.injEq] at hproject
        obtain ⟨rfl, rfl⟩ := hproject
        exact ⟨rfl, Nat.le_refl _, fun h => by cases h⟩
      | true =>
        simp only [hc, Bool.not_true, Bool.false_eq_true, if_false, Except.ok.injEq, Prod.mk.injEq]
          at hproject
        obtain ⟨rfl, rfl⟩ := hproject
        exact ⟨rfl, Nat.zero_le _, fun _ => rfl⟩

theorem recordHealthyComparison_checks (h : HealthState) (now : ℤ) :
    (recordHealthyComparison s h now).2.consecutiveHealthyChecks = h.consecutiveHealthyChecks + 1 := by
  unfold recordHealthyComparison
  dsimp only
  split
  · split <;> rfl
  · rfl

/-- A healthy run is projected on the rows as they are. -/
theorem projectHealth_healthy {run : ComparisonRun} {now : ℤ} {health : HealthState}
    (hproject : projectHealth run now { session := { db := d } } = .ok (s, health))
    (hstatus : run.status = .healthy) :
    (s = { db := d } ∧ health.consecutiveHealthyChecks = d.health.consecutiveHealthyChecks) ∨
    ∃ h : HealthState, h.consecutiveHealthyChecks = d.health.consecutiveHealthyChecks ∧
      (s, health) = recordHealthyComparison { db := d } h now := by
  unfold projectHealth at hproject
  simp only [hstatus, ne_eq, not_true_eq_false, if_false] at hproject
  cases hc : currentWindow { d.health with lastComparisonAt := some now } run with
  | false =>
    simp only [hc, Bool.not_false, if_true, Except.ok.injEq, Prod.mk.injEq] at hproject
    obtain ⟨rfl, rfl⟩ := hproject
    exact Or.inl ⟨rfl, rfl⟩
  | true =>
    simp only [hc, Bool.not_true, Bool.false_eq_true, if_false, Except.ok.injEq] at hproject
    exact Or.inr ⟨_, by rfl, hproject.symm⟩

/-- Recovery resolves incidents after enough checks only. -/
theorem recordHealthyComparison_session (hd : d.Constrained) (h : HealthState) (now : ℤ) :
    FindingSession d (recordHealthyComparison { db := d } h now).1 ∧
    (h.consecutiveHealthyChecks + 1 < d.binding.policy.recoveryHealthyChecks →
      (recordHealthyComparison { db := d } h now).1.LeavesOpen d) := by
  unfold recordHealthyComparison
  dsimp only
  split
  · rename_i hfew
    split <;> exact ⟨FindingSession.start, fun _ row _ hopen => hopen⟩
  · rename_i henough
    refine ⟨?_, fun hfew => absurd hfew henough⟩
    have hheld : ∀ i ∈ ({ db := d } : UnitOfWork).unresolvedIncidents, i ∈ d.incidents := by
      intro i hi
      obtain ⟨row, hrow, rfl⟩ := List.mem_map.mp hi
      exact (List.mem_filter.mp hrow).1
    refine List.foldlRecOn _ _ .start fun s hs i hi => ?_
    exact hs.change hd (hheld i hi) rfl rfl rfl

theorem commit_written {assessment : MonitoringAssessment} {d' : MonitoringStore}
    (h : s.commit assessment = .ok d') :
    d' = { s.written with assessments := s.db.assessments ++ [assessment] } := by
  unfold UnitOfWork.commit at h
  dsimp only at h
  split at h
  · cases h
  · split at h
    · cases h
    · split at h
      · cases h
      · split at h
        · cases h
        · exact (Except.ok.inj h).symm

/-- The commit of a session that scanned findings. -/
theorem FindingSession.constrained (hd : d.Constrained) (hs : FindingSession d s)
    (hwell : { s.written with assessments := assessments }.WellFormed) :
    { s.written with assessments := assessments }.Constrained := by
  refine ⟨hwell, fun e he => ?_, fun i hi hkind => ?_⟩
  · have hmem : ∀ row ∈ d.incidents, s.object row ∈ s.written.incidents := fun row hrow =>
      List.mem_append_left _ (List.mem_map_of_mem (hs.rows.incidents ▸ hrow))
    rcases List.mem_append.mp he with he | he
    · obtain ⟨row, hrow, hid⟩ := hd.linked e (hs.rows.evidence ▸ he)
      exact ⟨_, hmem row hrow, (hs.held row hrow).1.trans hid⟩
    · rcases hs.evidence e he with ⟨row, hrow, hid⟩ | ⟨i, hi, hid⟩
      · exact ⟨_, hmem row hrow, (hs.held row hrow).1.trans hid⟩
      · exact ⟨i, List.mem_append_right _ hi, hid⟩
  · rcases List.mem_append.mp hi with hi | hi
    · obtain ⟨row, hrow, rfl⟩ := List.mem_map.mp hi
      rw [hs.rows.incidents] at hrow
      obtain ⟨-, hkey, htype⟩ := hs.held row hrow
      obtain ⟨t, ht⟩ := hd.kinds row hrow (hkey ▸ hkind)
      exact ⟨t, htype.trans ht⟩
    · exact hs.added i hi

/-- No incident of a key that was open before is resolved. -/
theorem LeavesOpen.written (hs : FindingSession d s) (hopen : s.LeavesOpen d)
    (hkeys : (s.written.incidents.map Incident.dedupKey).Nodup) {row i : Incident}
    (hrow : row ∈ d.incidents) (hstatus : row.status ≠ .resolved) (hi : i ∈ s.written.incidents)
    (hkey : i.dedupKey = row.dedupKey) : i.status ≠ .resolved := by
  have hmem : s.object row ∈ s.written.incidents :=
    List.mem_append_left _ (List.mem_map_of_mem (hs.rows.incidents ▸ hrow))
  have hsame : i = s.object row :=
    List.inj_on_of_nodup_map hkeys hi hmem (hkey.trans (hs.held row hrow).2.1.symm)
  rw [hsame]
  exact hopen row hrow hstatus

end

/-- What a committed comparison run does to the incidents and to the count of healthy checks. -/
structure RunEffect (d : MonitoringStore) (run : ComparisonRun) (d' : MonitoringStore) : Prop where
  constrained : d'.Constrained
  policy : d'.binding.policy = d.binding.policy
  resolves : ∀ row ∈ d.incidents, row.status ≠ .resolved → ∀ i ∈ d'.incidents,
    i.dedupKey = row.dedupKey → i.status = .resolved → run.status = .healthy ∧
      d.binding.policy.recoveryHealthyChecks ≤ d.health.consecutiveHealthyChecks + 1
  healthy : run.status = .healthy → d.findingsOf run.runId = [] ∧
    d'.health.consecutiveHealthyChecks ≤ d.health.consecutiveHealthyChecks + 1
  unhealthy : run.status ≠ .healthy →
    d'.health.consecutiveHealthyChecks ≤ d.health.consecutiveHealthyChecks ∧
    (currentWindow d.health run → d'.health.consecutiveHealthyChecks = 0)

section
variable {settings : MonitoringSettings} {workerId : String} {d d' : MonitoringStore}
  {run : ComparisonRun}

theorem processComparisonRun_effect (hd : d.Constrained) (hnext : nextPendingComparison d = some run)
    (h : processComparisonRun settings workerId d run = .ok d') : RunEffect d run d' := by
  have hgood : d.NewKeysDiffer (d.findingsOf run.runId) ∧ run.Fits (d.findingsOf run.runId) := by
    by_contra hbad
    obtain ⟨e, he⟩ := processComparisonRun_fails settings workerId hd.toWellFormed hnext hbad
    rw [h] at he
    cases he
  obtain ⟨d'', hok, -, hwell⟩ :=
    processComparisonRun_groups settings workerId hd.toWellFormed hnext hgood.1 hgood.2
  obtain rfl : d' = d'' := Except.ok.inj (h.symm.trans hok)
  obtain ⟨scan, hscan, hscanned, hprocess⟩ :=
    processComparisonRun_scanned settings workerId hd.toWellFormed hnext
  rw [hprocess] at h
  cases hproject : projectHealth run (settings.clock 0) scan with
  | error e => simp [hproject, bind, Except.bind] at h
  | ok result =>
    obtain ⟨session, health⟩ := result
    simp only [hproject, bind, Except.bind] at h
    have hwritten := commit_written h
    have heffect : ∀ hs : FindingSession d session, d'.Constrained ∧
        d'.binding.policy = d.binding.policy ∧ d'.health = health ∧
        (session.LeavesOpen d → ∀ row ∈ d.incidents, row.status ≠ .resolved → ∀ i ∈ d'.incidents,
          i.dedupKey = row.dedupKey → i.status ≠ .resolved) := by
      intro hs
      have hs' : FindingSession d { session with db := { session.db with health := health } } :=
        ⟨hs.rows.projected health, hs.held, hs.added, hs.evidence⟩
      subst hwritten
      refine ⟨hs'.constrained hd hwell, hs.policy, rfl, ?_⟩
      intro hopen row hrow hstatus i hi hkey
      exact LeavesOpen.written hs' hopen hwell.keys hrow hstatus hi hkey
    by_cases hstatus : run.status = .healthy
    · have hempty := hgood.2.1 hstatus
      rw [hempty] at hscan
      obtain rfl : scan = { session := { db := d } } := by
        simpa [forPages, afterCursor] using hscan.symm
      rcases projectHealth_healthy hproject hstatus with ⟨rfl, hchecks⟩ | ⟨complete, hchecks, hrecord⟩
      · obtain ⟨hconstrained, hpolicy, rfl, hleaves⟩ := heffect .start
        refine ⟨hconstrained, hpolicy, fun row hrow hopen i hi hkey hresolved => ?_, fun _ => ⟨hempty, ?_⟩,
          fun hne => absurd hstatus hne⟩
        · exact absurd hresolved (hleaves (fun _ _ hopen => hopen) row hrow hopen i hi hkey)
        · omega
      · obtain ⟨hsession, hfew⟩ := recordHealthyComparison_session hd complete (settings.clock 0)
        have hcount := recordHealthyComparison_checks (s := { db := d }) complete (settings.clock 0)
        rw [← hrecord] at hsession hfew hcount
        dsimp only at hsession hfew hcount
        obtain ⟨hconstrained, hpolicy, rfl, hleaves⟩ := heffect hsession
        refine ⟨hconstrained, hpolicy, fun row hrow hopen i hi hkey hresolved => ⟨hstatus, ?_⟩,
          fun _ => ⟨hempty, by omega⟩, fun hne => absurd hstatus hne⟩
        by_contra hless
        exact hleaves (hfew (by omega)) row hrow hopen i hi hkey hresolved
    · obtain ⟨rfl, hchecks, hcurrent⟩ := projectHealth_unhealthy hproject hstatus
      have hstart : Scanning d { session := { db := d } } :=
        ⟨.start, fun _ _ hopen => hopen, rfl⟩
      obtain ⟨hsession, hopens, hhealth⟩ := forPages_kept
        (fun s page s' _ hpage hs => scanPage_session hd settings hpage hs) hscan hstart
      obtain ⟨hconstrained, hpolicy, rfl, hleaves⟩ := heffect hsession
      rw [hhealth] at hchecks hcurrent
      refine ⟨hconstrained, hpolicy, fun row hrow hopen i hi hkey hresolved => ?_,
        fun he => absurd he hstatus, fun _ => ⟨hchecks, hcurrent⟩⟩
      exact absurd hresolved (hleaves hopens row hrow hopen i hi hkey)

end

/-! ### Runs of the monitor -/

/-- A comparison run that was processed, with the keys its findings were recorded under. -/
structure Processed where
  run : ComparisonRun
  detected : List DedupKey

/-- The store, and what was processed so far, the latest first. -/
structure MonitoringWorld where
  store : MonitoringStore
  log : List Processed := []

/-- The healthy runs since the last detection of a key. -/
def healthySince (key : DedupKey) : List Processed → ℕ
  | [] => 0
  | p :: log =>
    if key ∈ p.detected then 0
    else if p.run.status = .healthy then healthySince key log + 1
    else healthySince key log

/-- A comparison run and its findings, as the comparison service commits them. -/
def MonitoringStore.arrived (d : MonitoringStore) (run : ComparisonRun) (findings : List Finding) :
    MonitoringStore :=
  { d with runs := d.runs ++ [run], findings := d.findings ++ findings }

/-- The keys of the arrived rows: the ids are new, and the findings are those of the run. -/
structure Arrives (d : MonitoringStore) (run : ComparisonRun) (findings : List Finding) : Prop where
  new : run.runId ∉ d.runs.map ComparisonRun.runId
  ids : ((d.findings ++ findings).map Finding.id).Nodup
  belong : ∀ f ∈ findings, f.comparisonRunId = run.runId
  unlinked : ∀ f ∈ findings, ∀ e ∈ d.evidence, e.findingId ≠ some f.id

/-- The log after a transaction of `_process_one_comparison`. -/
def MonitoringWorld.compared (w : MonitoringWorld) (activation : LiveStrategyActivation) :
    List Processed :=
  match activation.status, nextPendingComparison w.store with
  | .active, some run => ⟨run, (w.store.findingsOf run.runId).map w.store.keyOf⟩ :: w.log
  | _, _ => w.log

/-- The transactions of the monitor and of the comparison service. `allowed` restricts the runs
that are processed. -/
inductive MonitoringStep (allowed : MonitoringStore → ComparisonRun → Prop) :
    MonitoringWorld → MonitoringWorld → Prop
  | arrive {w : MonitoringWorld} {run : ComparisonRun} {findings : List Finding}
      (h : Arrives w.store run findings) :
      MonitoringStep allowed w { w with store := w.store.arrived run findings }
  | compare {w : MonitoringWorld} {settings : MonitoringSettings} {workerId : String}
      {activation : LiveStrategyActivation} {now : ℤ} {d' : MonitoringStore}
      (h : processOneComparison settings workerId activation now w.store = .ok d')
      (ha : ∀ run, nextPendingComparison w.store = some run → allowed w.store run) :
      MonitoringStep allowed w ⟨d', w.compared activation⟩
  | finalize {w : MonitoringWorld} {activation : LiveStrategyActivation} {now now' : ℤ}
      {d' : MonitoringStore} (h : finalizeBindingCycle activation now now' w.store = .ok d') :
      MonitoringStep allowed w { w with store := d' }
  | fail {w : MonitoringWorld} {activation : LiveStrategyActivation} {policy : Option MonitoringPolicy}
      {error : String} {now : ℤ} {d' : MonitoringStore}
      (h : recordBindingError activation policy error now w.store = .ok d') :
      MonitoringStep allowed w { w with store := d' }
  | lease {w : MonitoringWorld} (expiry : ℤ) :
      MonitoringStep allowed w { w with
        store := { w.store with binding := { w.store.binding with leaseExpiresAt := expiry } } }

/-- A binding that was just registered. -/
structure MonitoringWorld.Registered (w : MonitoringWorld) : Prop where
  wellFormed : w.store.WellFormed
  incidents : w.store.incidents = []
  evidence : w.store.evidence = []
  checks : w.store.health.consecutiveHealthyChecks = 0
  log : w.log = []

/-- An incident of a finding is resolved after enough healthy runs since its last detection. -/
def ResolvedAfterChecks (w w' : MonitoringWorld) : Prop :=
  ∀ row ∈ w.store.incidents, row.dedupKey.isFinding → row.status ≠ .resolved →
    ∀ i ∈ w'.store.incidents, i.dedupKey = row.dedupKey → i.status = .resolved →
      w.store.binding.policy.recoveryHealthyChecks ≤ healthySince row.dedupKey w'.log

/-- A run with findings is not behind the last complete window. -/
def DetectsInWindow (d : MonitoringStore) (run : ComparisonRun) : Prop :=
  d.findingsOf run.runId ≠ [] → currentWindow d.health run

section
variable {d d' : MonitoringStore}

theorem StatesKept.refl (hd : d.Constrained) : StatesKept d d :=
  ⟨hd, fun _ hrow _ => hrow, Nat.le_refl _, rfl⟩

theorem unlessActive_session (hd : d.Constrained) {activation : LiveStrategyActivation} {now : ℤ}
    {act : Except MonitoringError MonitoringStore} (h : unlessActive activation now d act = .ok d') :
    (activation.status ≠ .active ∧ ∃ s, StateSession d s ∧ s.commitStates = .ok d') ∨
      (activation.status = .active ∧ act = .ok d') := by
  rcases unlessActive_cases h with ⟨hstatus, hcommit⟩ | ⟨hstatus, hcommit⟩ | ⟨hstatus, hact⟩
  · exact Or.inl ⟨by simp [hstatus], _,
      StateSession.start.recordActivationRuntimeFailure hd _ _ _ _ _ _, hcommit⟩
  · exact Or.inl ⟨by simp [hstatus], _, StateSession.start.project (Nat.zero_le _), hcommit⟩
  · exact Or.inr ⟨hstatus, hact⟩

theorem finalizeBindingCycle_session (hd : d.Constrained) {activation : LiveStrategyActivation}
    {now now' : ℤ} (h : finalizeBindingCycle activation now now' d = .ok d') :
    ∃ s, StateSession d s ∧ s.commitStates = .ok d' := by
  rcases unlessActive_session hd h with ⟨-, hsession⟩ | ⟨-, hcommit⟩
  · exact hsession
  · have hsession := (StateSession.start.evaluateComparisonFreshness hd now).evaluateStaleness hd
      activation now'
    exact ⟨_, hsession, hcommit⟩

theorem recordBindingError_session (hd : d.Constrained) {activation : LiveStrategyActivation}
    {policy : Option MonitoringPolicy} {error : String} {now : ℤ}
    (h : recordBindingError activation policy error now d = .ok d') :
    ∃ s, StateSession d s ∧ s.commitStates = .ok d' := by
  have hprojected : StateSession d { db := { d with health :=
      { setHealth d.health .error .runtime (runtimeSeverity policy none 1 (Nat.le_refl 1)) with
        lastError := some error } } } :=
    StateSession.start.project (Nat.zero_le _)
  exact ⟨_, hprojected.recordActivationRuntimeFailure hd _ _ _ _ _ _, h⟩

theorem Constrained.arrived (hd : d.Constrained) {run : ComparisonRun} {findings : List Finding}
    (h : Arrives d run findings) : (d.arrived run findings).Constrained := by
  refine ⟨⟨hd.keys, hd.ids, hd.drawn, h.ids, hd.evidence, hd.evidenceKeys, hd.keyed, hd.assessments,
    fun e he f hf hlink => ?_⟩, hd.linked, hd.kinds⟩
  rcases List.mem_append.mp hf with hf | hf
  · exact hd.assessed e he f hf hlink
  · exact absurd hlink (h.unlinked f hf e he)

end

/-- Processing a run. -/
def MonitoringWorld.logged (w : MonitoringWorld) (run : ComparisonRun) : List Processed :=
  ⟨run, (w.store.findingsOf run.runId).map w.store.keyOf⟩ :: w.log

section
variable {allowed : MonitoringStore → ComparisonRun → Prop} {w w' w₀ : MonitoringWorld}

/-- A step processes a run or leaves the incidents of findings alone. -/
theorem MonitoringStep.effect (hd : w.store.Constrained) (h : MonitoringStep allowed w w') :
    (StatesKept w.store w'.store ∧ w'.log = w.log) ∨
    ∃ run, allowed w.store run ∧ RunEffect w.store run w'.store ∧ w'.log = w.logged run := by
  cases h with
  | arrive h =>
    exact Or.inl ⟨⟨Constrained.arrived hd h, fun _ hrow _ => hrow, Nat.le_refl _, rfl⟩, rfl⟩
  | @compare settings workerId activation now d' h ha =>
    rcases unlessActive_session hd h with ⟨hstatus, s, hs, hcommit⟩ | ⟨hstatus, hact⟩
    · refine Or.inl ⟨hs.commit hd hcommit, ?_⟩
      simp only [MonitoringWorld.compared]
      split
      · exact absurd ‹_› hstatus
      · rfl
    · cases hnext : nextPendingComparison w.store with
      | none =>
        rw [hnext] at hact
        cases hact
        exact Or.inl ⟨.refl hd, by simp [MonitoringWorld.compared, hnext]⟩
      | some run =>
        rw [hnext] at hact
        refine Or.inr ⟨run, ha run hnext, processComparisonRun_effect hd hnext hact, ?_⟩
        simp [MonitoringWorld.compared, MonitoringWorld.logged, hnext, hstatus]
  | finalize h =>
    obtain ⟨s, hs, hcommit⟩ := finalizeBindingCycle_session hd h
    exact Or.inl ⟨hs.commit hd hcommit, rfl⟩
  | fail h =>
    obtain ⟨s, hs, hcommit⟩ := recordBindingError_session hd h
    exact Or.inl ⟨hs.commit hd hcommit, rfl⟩
  | lease expiry =>
    have hleased : ({ w.store with binding := { w.store.binding with leaseExpiresAt := expiry } } :
        MonitoringStore).Constrained :=
      ⟨⟨hd.keys, hd.ids, hd.drawn, hd.findings, hd.evidence, hd.evidenceKeys, hd.keyed, hd.assessments,
        hd.assessed⟩, hd.linked, hd.kinds⟩
    exact Or.inl ⟨⟨hleased, fun _ hrow _ => hrow, Nat.le_refl _, rfl⟩, rfl⟩

theorem MonitoringStep.constrained (hd : w.store.Constrained) (h : MonitoringStep allowed w w') :
    w'.store.Constrained := by
  rcases h.effect hd with ⟨hkept, -⟩ | ⟨run, -, heffect, -⟩
  · exact hkept.constrained
  · exact heffect.constrained

/-- The count is a lower bound for the healthy runs since any detection. -/
structure CountsHealthy (w : MonitoringWorld) : Prop where
  constrained : w.store.Constrained
  checks : ∀ key, w.store.health.consecutiveHealthyChecks ≤ healthySince key w.log

theorem CountsHealthy.step (hw : CountsHealthy w) (h : MonitoringStep DetectsInWindow w w') :
    CountsHealthy w' := by
  refine ⟨h.constrained hw.constrained, fun key => ?_⟩
  have hchecks := hw.checks key
  rcases h.effect hw.constrained with ⟨hkept, hlog⟩ | ⟨run, hallowed, heffect, hlog⟩
  · rw [hlog]
    exact Nat.le_trans hkept.checks hchecks
  · rw [hlog]
    unfold MonitoringWorld.logged healthySince
    dsimp only
    by_cases hstatus : run.status = .healthy
    · obtain ⟨hempty, hcount⟩ := heffect.healthy hstatus
      simp only [hempty, List.map_nil, List.not_mem_nil, if_false, hstatus, if_true]
      omega
    · obtain ⟨hcount, hreset⟩ := heffect.unhealthy hstatus
      simp only [hstatus, if_false]
      by_cases hdetected : key ∈ (w.store.findingsOf run.runId).map w.store.keyOf
      · -- A detection happens in the current window, which resets the count.
        have hfindings : w.store.findingsOf run.runId ≠ [] := by
          intro hnil
          simp [hnil] at hdetected
        have hzero := hreset (hallowed hfindings)
        omega
      · rw [if_neg hdetected]
        omega

theorem CountsHealthy.resolves (hw : CountsHealthy w) (h : MonitoringStep DetectsInWindow w w') :
    ResolvedAfterChecks w w' := by
  intro row hrow hkind hopen i hi hkey hresolved
  rcases h.effect hw.constrained with ⟨hkept, -⟩ | ⟨run, -, heffect, hlog⟩
  · have hsame : i = row :=
      List.inj_on_of_nodup_map hkept.constrained.keys hi (hkept.findings row hrow hkind) hkey
    exact absurd (hsame ▸ hresolved) hopen
  · obtain ⟨hstatus, henough⟩ := heffect.resolves row hrow hopen i hi hkey hresolved
    obtain ⟨hempty, -⟩ := heffect.healthy hstatus
    have hchecks := hw.checks row.dedupKey
    simp only [hlog, MonitoringWorld.logged, healthySince, hempty, List.map_nil, List.not_mem_nil,
      if_false, hstatus, if_true]
    omega

theorem MonitoringWorld.Registered.countsHealthy (h : w.Registered) : CountsHealthy w where
  constrained := ⟨h.wellFormed, by simp [h.evidence], by simp [h.incidents]⟩
  checks key := by
    rw [h.checks]
    exact Nat.zero_le _

/-- Every run of the monitor in which findings are only detected in the current window resolves an
incident after enough healthy runs since its last detection. -/
theorem resolved_after_healthyChecks (h₀ : w₀.Registered)
    (hrun : Relation.ReflTransGen (MonitoringStep DetectsInWindow) w₀ w)
    (hstep : MonitoringStep DetectsInWindow w w') : ResolvedAfterChecks w w' := by
  have hw : CountsHealthy w := by
    clear hstep
    induction hrun with
    | refl => exact h₀.countsHealthy
    | tail _ hlast ih => exact ih.step hlast
  exact hw.resolves hstep

end

/-! ### A late run -/

/-- The missed signal of a late run. -/
def lateFinding : Finding := { missedSignal 7 with comparisonRunId := "b" }

/-- The store after `_process_one_comparison`. -/
def comparedStore (d : MonitoringStore) : MonitoringStore :=
  match processOneComparison onePerPage "w" running 2 d with
  | .ok d' => d'
  | .error _ => d

theorem two_checks_positive : 1 ≤ 2 := by decide

/-- Two healthy checks are needed. -/
def twoChecks : MonitoringWorld := ⟨recovering 2 two_checks_positive [windowRun "a" .healthy 1] [], []⟩

def onceHealthy : MonitoringWorld := ⟨comparedStore twoChecks.store, twoChecks.compared running⟩

/-- A run over an earlier window arrives, with a finding. -/
def lateArrived : MonitoringWorld :=
  { onceHealthy with store := onceHealthy.store.arrived (windowRun "b" .divergent 0) [lateFinding] }

def lateDetected : MonitoringWorld := ⟨comparedStore lateArrived.store, lateArrived.compared running⟩

def nextArrived : MonitoringWorld :=
  { lateDetected with store := lateDetected.store.arrived (windowRun "c" .healthy 2) [] }

def twiceHealthy : MonitoringWorld := ⟨comparedStore nextArrived.store, nextArrived.compared running⟩

theorem twoChecks_registered : twoChecks.Registered :=
  ⟨⟨by decide, by decide, by decide, by decide, by decide, by decide, by simp [twoChecks, recovering, monitored],
    by decide, by simp [twoChecks, recovering, monitored]⟩, rfl, rfl, rfl, rfl⟩

theorem MonitoringStep.compareRunning {allowed : MonitoringStore → ComparisonRun → Prop}
    {w : MonitoringWorld} (h : (processOneComparison onePerPage "w" running 2 w.store).isOk)
    (ha : ∀ run, nextPendingComparison w.store = some run → allowed w.store run) :
    MonitoringStep allowed w ⟨comparedStore w.store, w.compared running⟩ := by
  cases hp : processOneComparison onePerPage "w" running 2 w.store with
  | error e => simp [hp, Except.isOk, Except.toBool] at h
  | ok d' =>
    have hstore : comparedStore w.store = d' := by simp [comparedStore, hp]
    rw [hstore]
    exact .compare hp ha

/-- The incident of the late run is resolved by the first healthy run after it. -/
theorem lateIncident_resolved_early : ¬ ∀ w₀ w w' : MonitoringWorld, w₀.Registered →
    Relation.ReflTransGen (MonitoringStep fun _ _ => True) w₀ w →
    MonitoringStep (fun _ _ => True) w w' → ResolvedAfterChecks w w' := by
  intro hall
  have h₁ : MonitoringStep (fun _ _ => True) twoChecks onceHealthy :=
    .compareRunning (by decide +kernel) fun _ _ => trivial
  have h₂ : MonitoringStep (fun _ _ => True) onceHealthy lateArrived :=
    .arrive ⟨by decide +kernel, by decide +kernel, by decide +kernel, by decide +kernel⟩
  have h₃ : MonitoringStep (fun _ _ => True) lateArrived lateDetected :=
    .compareRunning (by decide +kernel) fun _ _ => trivial
  have h₄ : MonitoringStep (fun _ _ => True) lateDetected nextArrived :=
    .arrive ⟨by decide +kernel, by decide +kernel, by simp, by simp⟩
  have h₅ : MonitoringStep (fun _ _ => True) nextArrived twiceHealthy :=
    .compareRunning (by decide +kernel) fun _ _ => trivial
  have hrun : Relation.ReflTransGen (MonitoringStep fun _ _ => True) twoChecks nextArrived :=
    (((Relation.ReflTransGen.single h₁).tail h₂).tail h₃).tail h₄
  have hresolved := hall twoChecks nextArrived twiceHealthy twoChecks_registered hrun h₅
  unfold ResolvedAfterChecks at hresolved
  revert hresolved
  decide +kernel

/-- A detection and two healthy runs, in the order of their windows. -/
def inOrder : MonitoringWorld :=
  ⟨recovering 2 two_checks_positive
    [windowRun "b" .divergent 0, windowRun "a" .healthy 1, windowRun "c" .healthy 2] [lateFinding], []⟩

def detectedFirst : MonitoringWorld := ⟨comparedStore inOrder.store, inOrder.compared running⟩

def checkedOnce : MonitoringWorld := ⟨comparedStore detectedFirst.store, detectedFirst.compared running⟩

def checkedTwice : MonitoringWorld := ⟨comparedStore checkedOnce.store, checkedOnce.compared running⟩

theorem inOrder_resolved : checkedTwice.store.incidents.map Incident.status = [.resolved] ∧
    ResolvedAfterChecks checkedOnce checkedTwice := by
  have hwindow : ∀ d : MonitoringStore, (∀ run ∈ nextPendingComparison d, d.findingsOf run.runId ≠ [] →
      currentWindow d.health run) → ∀ run, nextPendingComparison d = some run → DetectsInWindow d run :=
    fun d h run hrun => h run hrun
  have hregistered : inOrder.Registered :=
    ⟨⟨by decide, by decide, by decide, by decide, by decide, by decide, by simp [inOrder, recovering, monitored],
      by decide, by simp [inOrder, recovering, monitored]⟩, rfl, rfl, rfl, rfl⟩
  have h₁ : MonitoringStep DetectsInWindow inOrder detectedFirst :=
    .compareRunning (by decide +kernel) (hwindow _ (by decide +kernel))
  have h₂ : MonitoringStep DetectsInWindow detectedFirst checkedOnce :=
    .compareRunning (by decide +kernel) (hwindow _ (by decide +kernel))
  have h₃ : MonitoringStep DetectsInWindow checkedOnce checkedTwice :=
    .compareRunning (by decide +kernel) (hwindow _ (by decide +kernel))
  exact ⟨by decide +kernel, resolved_after_healthyChecks hregistered
    ((Relation.ReflTransGen.single h₁).tail h₂) h₃⟩

end Quantive.Monitoring
