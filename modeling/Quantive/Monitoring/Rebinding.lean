import Mathlib.Data.Fintype.EquivFin
import Quantive.Monitoring.HealthCause

/-!
# Rebinding

The health row belongs to the activation, and a registration sets it to unknown but keeps when the
last comparison completed and which window it covered. A new binding reads both as its own.
-/

namespace Quantive.Monitoring
open LiveStrategy (LiveStrategyActivation)

/-! ### Registration -/

/-- What `register` leaves of the store when it creates a binding, `strategy_monitoring.py:240-278`:
the incidents and the evidence of the former binding are not those of the new one. The uuids are drawn
from `names` on. -/
def MonitoringStore.register (d : MonitoringStore) (binding : MonitoringBinding) (names : ℕ) :
    MonitoringStore :=
  { d with
    binding := binding, incidents := [], evidence := [], names := names
    health := { setUnknown d.health with lastError := none } }

/-- The status, cause and severity of a health. -/
def HealthState.projection (h : HealthState) :
    HealthStatus × Option HealthCause × Option IncidentSeverity :=
  (h.status, h.cause, h.severity)

/-- The runs that the binding has to assess. -/
def MonitoringStore.pending (d : MonitoringStore) : List ComparisonRun :=
  d.runs.filter fun r => r.activationId = d.binding.activationId &&
    r.referenceRunId = d.binding.referenceRunId && r.policyHash = d.binding.comparisonPolicyHash &&
    !d.assessments.any fun a => a.comparisonRunId = r.runId

/-- The run is not there yet, so no foreign key refers to it. -/
structure ArrivesUnseen (d : MonitoringStore) (run : ComparisonRun) (findings : List Finding) : Prop
    extends Arrives d run findings where
  unassessed : run.runId ∉ d.assessed
  unreported : ∀ f ∈ d.findings, f.comparisonRunId ≠ run.runId

/-- The same event in two histories. A call that raises changes nothing. -/
inductive SharedStep : MonitoringStore × MonitoringStore → MonitoringStore × MonitoringStore → Prop
  | call {d e : MonitoringStore} (c : MonitoringCall) : SharedStep (d, e) (c.after d, c.after e)
  | arrive {d e : MonitoringStore} {run : ComparisonRun} {findings : List Finding}
      (hd : ArrivesUnseen d run findings) (he : ArrivesUnseen e run findings) :
      SharedStep (d, e) (d.arrived run findings, e.arrived run findings)

/-! ### Alike stores -/

/-- Two healths that freshness, recovery and window ordering do not tell apart. -/
structure HealthState.Alike (registeredAt : ℤ) (h k : HealthState) : Prop where
  projection : k.projection = h.projection
  checks : k.consecutiveHealthyChecks = h.consecutiveHealthyChecks
  comparedAt : k.lastCompleteComparisonAt.getD registeredAt = h.lastCompleteComparisonAt.getD registeredAt
  windowEnd : k.lastCompleteWindowEnd = h.lastCompleteWindowEnd

/-- The store with the comparison runs, the assessments and the health of another one. -/
def MonitoringStore.over (d e : MonitoringStore) : MonitoringStore :=
  { d with runs := e.runs, findings := e.findings, assessments := e.assessments, health := e.health }

def UnitOfWork.over (s : UnitOfWork) (e : MonitoringStore) : UnitOfWork := { s with db := s.db.over e }

/-- Two stores with the same binding, incidents and evidence, and with the same runs to assess. -/
structure MonitoringStore.Alike (d e : MonitoringStore) : Prop where
  rows : e = d.over e
  health : d.health.Alike d.binding.registeredAt e.health
  pending : e.pending = d.pending
  findings : ∀ r ∈ d.pending, e.findingsOf r.runId = d.findingsOf r.runId

section
variable {d e : MonitoringStore} {s : UnitOfWork} {registeredAt : ℤ} {h k : HealthState}

theorem HealthState.Alike.symm (hk : h.Alike registeredAt k) : k.Alike registeredAt h :=
  ⟨hk.projection.symm, hk.checks.symm, hk.comparedAt.symm, hk.windowEnd.symm⟩

theorem HealthState.Alike.status (hk : h.Alike registeredAt k) : k.status = h.status :=
  congrArg Prod.fst hk.projection

theorem HealthState.Alike.cause (hk : h.Alike registeredAt k) : k.cause = h.cause :=
  congrArg (fun p => p.2.1) hk.projection

theorem HealthState.Alike.severity (hk : h.Alike registeredAt k) : k.severity = h.severity :=
  congrArg (fun p => p.2.2) hk.projection

theorem MonitoringStore.Alike.symm (ha : d.Alike e) : e.Alike d where
  rows := by
    rw [ha.rows]
    rfl
  health := by
    have hregistered : e.binding.registeredAt = d.binding.registeredAt := by rw [ha.rows]; rfl
    rw [hregistered]
    exact ha.health.symm
  pending := ha.pending.symm
  findings r hr := (ha.findings r (ha.pending ▸ hr)).symm

theorem nextPendingComparison_mem {run : ComparisonRun} (hnext : nextPendingComparison d = some run) :
    run ∈ d.pending :=
  (List.mem_insertionSort _).mp (List.mem_of_mem_head? hnext)

theorem MonitoringStore.Alike.next (ha : d.Alike e) :
    nextPendingComparison e = nextPendingComparison d := by
  have hpending := ha.pending
  unfold MonitoringStore.pending at hpending
  unfold nextPendingComparison
  rw [hpending]

/-! ### Sessions over another store -/

theorem recordState_over (f : StateFinding) (now : ℤ) :
    recordState f now (s.over e) = ((recordState f now s).1, (recordState f now s).2.over e) := by
  unfold recordState
  have hselect : ((s.over e).selectIncidents fun i => i.dedupKey = .state f.key) =
      s.selectIncidents fun i => i.dedupKey = .state f.key := rfl
  rw [hselect]
  cases (s.selectIncidents fun i => i.dedupKey = .state f.key).head? with
  | none => rfl
  | some old =>
    dsimp only
    have hevidence : ((s.over e).selectEvidence fun e' =>
        e'.incidentId = old.id && e'.evidenceKey = .state f.evidenceKey) =
          s.selectEvidence fun e' => e'.incidentId = old.id && e'.evidenceKey = .state f.evidenceKey := rfl
    rw [hevidence]
    split <;> rfl

theorem foldl_change_over {g : Incident → Incident} (incidents : List Incident) (s : UnitOfWork) :
    incidents.foldl (fun s i => s.change (g i)) (s.over e) =
      (incidents.foldl (fun s i => s.change (g i)) s).over e := by
  induction incidents generalizing s with
  | nil => rfl
  | cons i incidents ih => exact ih (s.change (g i))

theorem recoverStale_over (type : IncidentType) (note : String) (now : ℤ) :
    recoverStale type note now (s.over e) = (recoverStale type note now s).over e :=
  foldl_change_over _ s

theorem commitStates_over {d' : MonitoringStore} (hcommit : s.commitStates = .ok d') :
    (s.over e).commitStates = .ok (d'.over e) := by
  obtain ⟨hkeys, hevidence, rfl⟩ := commitStates_ok_iff.mp hcommit
  exact commitStates_ok hkeys hevidence

/-- The session over the rows of `e`, with a health alike. -/
def UnitOfWork.Mirrored (e : MonitoringStore) (s t : UnitOfWork) : Prop :=
  ∃ k, t = s.over { e with health := k } ∧ s.db.health.Alike s.db.binding.registeredAt k

variable {t : UnitOfWork}

theorem MonitoringStore.Alike.start (ha : d.Alike e) :
    UnitOfWork.Mirrored e { db := d } { db := e } := by
  refine ⟨e.health, ?_, ha.health⟩
  exact congrArg (fun db => ({ db := db } : UnitOfWork)) ha.rows

theorem HealthState.Alike.setHealth (hk : h.Alike registeredAt k) (status : HealthStatus)
    (cause : HealthCause) (severity : IncidentSeverity) (error error' : Option String) :
    HealthState.Alike registeredAt { setHealth h status cause severity with lastError := error }
      { setHealth k status cause severity with lastError := error' } :=
  ⟨rfl, rfl, hk.comparedAt, hk.windowEnd⟩

theorem HealthState.Alike.setUnknown (hk : h.Alike registeredAt k) (error error' : Option String) :
    HealthState.Alike registeredAt { setUnknown h with lastError := error }
      { setUnknown k with lastError := error' } :=
  ⟨rfl, rfl, hk.comparedAt, hk.windowEnd⟩

theorem HealthState.Alike.setDivergentHealth (hk : h.Alike registeredAt k)
    (classifications : List (HealthCause × IncidentSeverity)) (error error' : Option String) :
    HealthState.Alike registeredAt { setDivergentHealth h classifications with lastError := error }
      { setDivergentHealth k classifications with lastError := error' } := by
  cases classifications <;> exact ⟨rfl, rfl, hk.comparedAt, hk.windowEnd⟩

theorem UnitOfWork.Mirrored.project (hm : UnitOfWork.Mirrored e s t)
    (hk : h.Alike s.db.binding.registeredAt k) : UnitOfWork.Mirrored e (s.project h) (t.project k) := by
  obtain ⟨k', rfl, -⟩ := hm
  exact ⟨k, rfl, hk⟩

theorem recordState_binding (f : StateFinding) (now : ℤ) (s : UnitOfWork) :
    (recordState f now s).2.db.binding = s.db.binding := by
  rcases recordState_cases f now s with h | ⟨row, -, -, ⟨-, h⟩ | h⟩ <;> rw [h] <;> rfl

theorem UnitOfWork.Mirrored.recordState (hm : UnitOfWork.Mirrored e s t) (f : StateFinding) (now : ℤ) :
    (recordState f now t).1 = (recordState f now s).1 ∧
    UnitOfWork.Mirrored e (recordState f now s).2 (recordState f now t).2 := by
  obtain ⟨k, rfl, hk⟩ := hm
  rw [recordState_over]
  refine ⟨rfl, k, rfl, ?_⟩
  rw [recordState_health, recordState_binding]
  exact hk

theorem UnitOfWork.Mirrored.recoverStale (hm : UnitOfWork.Mirrored e s t) (type : IncidentType)
    (note : String) (now : ℤ) :
    UnitOfWork.Mirrored e (recoverStale type note now s) (recoverStale type note now t) := by
  obtain ⟨k, rfl, hk⟩ := hm
  have hdb : (Monitoring.recoverStale type note now s).db = s.db := (foldl_change_db _ s).1
  refine ⟨k, recoverStale_over type note now, ?_⟩
  rw [hdb]
  exact hk

theorem UnitOfWork.Mirrored.binding (hm : UnitOfWork.Mirrored e s t) : t.db.binding = s.db.binding := by
  obtain ⟨k, rfl, -⟩ := hm
  rfl

theorem UnitOfWork.Mirrored.health (hm : UnitOfWork.Mirrored e s t) :
    s.db.health.Alike s.db.binding.registeredAt t.db.health := by
  obtain ⟨k, rfl, hk⟩ := hm
  exact hk

theorem UnitOfWork.Mirrored.recordActivationRuntimeFailure (hm : UnitOfWork.Mirrored e s t)
    (activation : LiveStrategyActivation) (policy : Option MonitoringPolicy)
    (errorMessage runtimeStatus : Option String) (fallbackSeverity : Option IncidentSeverity) (now : ℤ) :
    UnitOfWork.Mirrored e
      (recordActivationRuntimeFailure activation policy errorMessage runtimeStatus fallbackSeverity now s)
      (recordActivationRuntimeFailure activation policy errorMessage runtimeStatus fallbackSeverity now
        t) := by
  unfold Monitoring.recordActivationRuntimeFailure
  rw [hm.binding]
  exact ((hm.project (hm.health.setHealth _ _ _ _ _)).recordState _ now).2

theorem UnitOfWork.Mirrored.evaluateStaleness (hm : UnitOfWork.Mirrored e s t)
    (activation : LiveStrategyActivation) (now : ℤ) :
    UnitOfWork.Mirrored e (evaluateStaleness activation now s) (evaluateStaleness activation now t) := by
  have hhealth := hm.health
  have hread : UnitOfWork.Mirrored e
      (s.project { s.db.health with lastEvaluatedAt := activation.lastEvaluatedAt })
      (t.project { t.db.health with lastEvaluatedAt := activation.lastEvaluatedAt }) :=
    hm.project ⟨hhealth.projection, hhealth.checks, hhealth.comparedAt, hhealth.windowEnd⟩
  unfold Monitoring.evaluateStaleness
  dsimp only
  generalize s.project _ = s₁ at hread ⊢
  generalize t.project _ = t₁ at hread ⊢
  rw [hread.binding]
  split
  · obtain ⟨hseverity, hrecorded⟩ := hread.recordState (staleState s₁.db.binding
      (activation.lastEvaluatedAt.getD activation.activatedAt)) now
    refine hrecorded.project ?_
    rw [hseverity]
    exact hrecorded.health.setHealth _ _ _ _ _
  · have hrecovered := hread.recoverStale .staleStrategyState
      "Live evaluator resumed within the configured stale threshold." now
    rw [hrecovered.health.status]
    split
    · exact hrecovered.project (hrecovered.health.setUnknown _ _)
    · exact hrecovered

theorem UnitOfWork.Mirrored.evaluateComparisonFreshness (hm : UnitOfWork.Mirrored e s t) (now : ℤ) :
    UnitOfWork.Mirrored e (evaluateComparisonFreshness now s) (evaluateComparisonFreshness now t) := by
  have hhealth := hm.health
  unfold Monitoring.evaluateComparisonFreshness
  dsimp only
  rw [hm.binding, hhealth.comparedAt, hhealth.windowEnd]
  split
  · obtain ⟨hseverity, hrecorded⟩ := hm.recordState (staleComparisonEvidence s.db.binding
      (s.db.health.lastCompleteComparisonAt.getD s.db.binding.registeredAt)
      s.db.health.lastCompleteWindowEnd) now
    refine hrecorded.project ?_
    rw [hseverity, hrecorded.health.cause, hrecorded.health.severity]
    exact hrecorded.health.setDivergentHealth _ _ _
  · exact hm.recoverStale _ _ now

/-! ### Comparison runs over another store -/

def Scan.over (scan : Scan) (e : MonitoringStore) : Scan :=
  { scan with session := scan.session.over e }

variable {run : ComparisonRun} {now : ℤ}

theorem recordFinding_over (f : Finding) :
    recordFinding run now (s.over e) f =
      (recordFinding run now s f).map fun r => (r.1, r.2.over e) := by
  have hevidence : ((s.over e).selectEvidence fun e' => e'.findingId = some f.id) =
      s.selectEvidence fun e' => e'.findingId = some f.id := rfl
  unfold recordFinding
  rw [hevidence]
  cases (s.selectEvidence fun e' => e'.findingId = some f.id).head? with
  | some existing =>
    have hselect : ((s.over e).selectIncidents fun i => i.id = existing.incidentId) =
        s.selectIncidents fun i => i.id = existing.incidentId := rfl
    dsimp only
    rw [hselect]
    cases (s.selectIncidents fun i => i.id = existing.incidentId).head? <;> rfl
  | none =>
    have hselect : ((s.over e).selectIncidents fun i => i.dedupKey = incidentDedupKey s.db.binding f
        (causeForDivergence f.divergenceType)) = s.selectIncidents fun i => i.dedupKey =
          incidentDedupKey s.db.binding f (causeForDivergence f.divergenceType) := rfl
    have hbinding : (s.over e).db.binding = s.db.binding := rfl
    dsimp only
    rw [hbinding, hselect]
    cases (s.selectIncidents fun i => i.dedupKey = incidentDedupKey s.db.binding f
      (causeForDivergence f.divergenceType)).head? <;> rfl

theorem scanFinding_over (scan : Scan) (f : Finding) :
    scanFinding run now (scan.over e) f = (scanFinding run now scan f).map fun s => s.over e := by
  have hover : recordFinding run now (scan.session.over e) f =
      (recordFinding run now scan.session f).map fun r => (r.1, r.2.over e) := recordFinding_over f
  unfold scanFinding
  change (recordFinding run now (scan.session.over e) f >>= _) = _
  rw [hover]
  cases recordFinding run now scan.session f <;> rfl

theorem scanPage_over (settings : MonitoringSettings) (scan : Scan) (page : List Finding) :
    scanPage settings run now (scan.over e) page =
      (scanPage settings run now scan page).map fun s => s.over e := by
  have hfold : page.foldlM (scanFinding run now) (scan.over e) =
      (page.foldlM (scanFinding run now) scan).map fun s => s.over e := by
    induction page generalizing scan with
    | nil => rfl
    | cons f page ih =>
      rw [List.foldlM_cons, List.foldlM_cons, scanFinding_over]
      cases scanFinding run now scan f with
      | error _ => rfl
      | ok scan' => exact ih scan'
  unfold scanPage
  rw [hfold]
  cases page.foldlM (scanFinding run now) scan <;> rfl

theorem recordHealthyComparison_over (hk : h.Alike registeredAt k) (s : UnitOfWork) (now : ℤ) :
    (recordHealthyComparison (s.over e) k now).1 = (recordHealthyComparison s h now).1.over e ∧
    (recordHealthyComparison s h now).2.Alike registeredAt (recordHealthyComparison (s.over e) k now).2 := by
  have hunresolved : (s.over e).unresolvedIncidents = s.unresolvedIncidents := rfl
  have hbinding : (s.over e).db.binding = s.db.binding := rfl
  unfold recordHealthyComparison
  rw [hunresolved, hbinding, hk.checks]
  dsimp only
  split
  · cases s.unresolvedIncidents with
    | nil => exact ⟨rfl, rfl, rfl, hk.comparedAt, hk.windowEnd⟩
    | cons i rest => exact ⟨rfl, rfl, rfl, hk.comparedAt, hk.windowEnd⟩
  · exact ⟨foldl_change_over _ s, rfl, rfl, hk.comparedAt, hk.windowEnd⟩

theorem recordHealthyComparison_db (s : UnitOfWork) (h : HealthState) (now : ℤ) :
    (recordHealthyComparison s h now).1.db = s.db := by
  unfold recordHealthyComparison
  dsimp only
  split
  · split <;> rfl
  · exact (foldl_change_db _ s).1

theorem HealthState.Alike.currentWindow (hk : h.Alike registeredAt k) (run : ComparisonRun) :
    currentWindow k run = currentWindow h run := by
  unfold Monitoring.currentWindow
  rw [hk.windowEnd]

theorem projectHealth_over {scan : Scan} {s' : UnitOfWork} {health : HealthState}
    (hk : scan.session.db.health.Alike registeredAt e.health)
    (hproject : projectHealth run now scan = .ok (s', health)) :
    ∃ health', projectHealth run now (scan.over e) = .ok (s'.over e, health') ∧
      health.Alike registeredAt health' := by
  have hcompared : HealthState.Alike registeredAt
      { scan.session.db.health with lastComparisonAt := some now }
      { e.health with lastComparisonAt := some now } :=
    ⟨hk.projection, hk.checks, hk.comparedAt, hk.windowEnd⟩
  have hcomplete : HealthState.Alike registeredAt
      { scan.session.db.health with
        lastComparisonAt := some now, lastCompleteComparisonAt := some now
        lastCompleteWindowEnd := some run.windowEnd }
      { e.health with
        lastComparisonAt := some now, lastCompleteComparisonAt := some now
        lastCompleteWindowEnd := some run.windowEnd } :=
    ⟨hk.projection, hk.checks, rfl, rfl⟩
  have hcurrent := hcompared.currentWindow run
  have hhealth : (scan.over e).session.db.health = e.health := rfl
  unfold projectHealth at hproject ⊢
  rw [hhealth]
  dsimp only at hproject hcurrent ⊢
  rw [hcurrent]
  cases hstatus : run.status with
  | healthy =>
    rw [hstatus] at hproject
    dsimp only at hproject ⊢
    split at hproject
    · cases hproject
    · rename_i hnone
      rw [if_neg (show ¬ (scan.over e).findingCount ≠ 0 from hnone)]
      split at hproject
      · rename_i hold
        cases hproject
        exact ⟨_, if_pos hold, hcompared⟩
      · rename_i hnew
        obtain ⟨hsession, hhealth'⟩ := recordHealthyComparison_over (e := e) hcomplete scan.session now
        rw [Except.ok.inj hproject] at hsession hhealth'
        refine ⟨_, (if_neg hnew).trans (congrArg Except.ok ?_), hhealth'⟩
        exact Prod.ext hsession rfl
  | insufficientReference =>
    rw [hstatus] at hproject
    dsimp only at hproject ⊢
    split at hproject
    · rename_i hold
      cases hproject
      exact ⟨_, if_pos hold, hcompared⟩
    · rename_i hnew
      cases hproject
      refine ⟨_, if_neg hnew, ?_⟩
      have hknown : (scan.over e).knownProjection = scan.knownProjection := rfl
      rw [hknown]
      cases scan.knownProjection with
      | none => exact hcompared.setUnknown _ _
      | some p => exact hcompared.setDivergentHealth _ _ _
  | divergent =>
    rw [hstatus] at hproject
    dsimp only at hproject ⊢
    have hprojection : (scan.over e).projection = scan.projection := rfl
    rw [hprojection]
    cases hp : scan.projection with
    | none =>
      rw [hp] at hproject
      cases hproject
    | some p =>
      rw [hp] at hproject
      dsimp only at hproject ⊢
      split at hproject
      · rename_i hold
        cases hproject
        exact ⟨_, if_pos hold, hcompared⟩
      · rename_i hnew
        cases hproject
        exact ⟨_, if_neg hnew, ⟨rfl, rfl, rfl, rfl⟩⟩

theorem commit_over {assessment : MonitoringAssessment} {d' : MonitoringStore}
    (hcommit : s.commit assessment = .ok d')
    (hnew : ((e.assessments ++ [assessment]).map MonitoringAssessment.comparisonRunId).Nodup) :
    (s.over e).commit assessment =
      .ok (d'.over { e with assessments := e.assessments ++ [assessment] }) := by
  have hwritten := commit_written hcommit
  unfold UnitOfWork.commit at hcommit ⊢
  dsimp only at hcommit ⊢
  split at hcommit
  · cases hcommit
  · rename_i hkeys
    split at hcommit
    · cases hcommit
    · rename_i hevidence
      split at hcommit
      · cases hcommit
      · rename_i hlinks
        refine (if_neg hkeys).trans ((if_neg hevidence).trans ((if_neg hlinks).trans ?_))
        refine (if_neg (not_not_intro hnew)).trans ?_
        rw [hwritten]
        rfl

/-! ### What a transaction does to the runs to assess -/

theorem pending_sameRows {d' : MonitoringStore} (hrows : d.SameRows d') : d'.pending = d.pending := by
  obtain ⟨names, lease, health, rfl⟩ := hrows
  rfl

/-- The runs to assess are read with the keys of the binding. -/
theorem pending_over (ha : d.Alike e) {d' e' : MonitoringStore} (hrows : d.SameRows d')
    (hruns : e'.runs = e.runs) (hassessments : e'.assessments = e.assessments) :
    (d'.over e').pending = e.pending := by
  obtain ⟨names, lease, health, rfl⟩ := hrows
  have hbinding : e.binding = d.binding := by
    rw [ha.rows]
    rfl
  unfold MonitoringStore.pending
  rw [hbinding, ← hruns, ← hassessments]
  rfl

/-- An assessment takes its run from those that are pending. -/
theorem pending_assessed {d' : MonitoringStore} {assessment : MonitoringAssessment}
    (hassessments : d'.assessments = d.assessments ++ [assessment]) (hruns : d'.runs = d.runs)
    (hbinding : d'.binding.activationId = d.binding.activationId ∧
      d'.binding.referenceRunId = d.binding.referenceRunId ∧
      d'.binding.comparisonPolicyHash = d.binding.comparisonPolicyHash) :
    d'.pending = d.pending.filter fun r => r.runId ≠ assessment.comparisonRunId := by
  obtain ⟨hactivation, hreference, hpolicy⟩ := hbinding
  unfold MonitoringStore.pending
  rw [hruns, hassessments, hactivation, hreference, hpolicy, List.filter_filter]
  refine List.filter_congr fun r _ => ?_
  rw [List.any_append]
  by_cases hsame : r.runId = assessment.comparisonRunId
  · simp [hsame]
  · have hother : assessment.comparisonRunId ≠ r.runId := fun h => hsame h.symm
    simp [hsame, hother]

/-! ### Transactions -/

theorem findingsOf_congr {d' : MonitoringStore} (h : d'.findings = d.findings) (runId : String) :
    d'.findingsOf runId = d.findingsOf runId := by
  unfold MonitoringStore.findingsOf
  rw [h]

theorem MonitoringStore.Alike.commitStates (ha : d.Alike e) (hrows : d.SameRows s.db)
    (hm : UnitOfWork.Mirrored e s t) {d' : MonitoringStore} (hcommit : s.commitStates = .ok d') :
    ∃ e', t.commitStates = .ok e' ∧ d'.Alike e' := by
  obtain ⟨k, rfl, hk⟩ := hm
  refine ⟨_, commitStates_over hcommit, ?_⟩
  obtain ⟨-, -, rfl⟩ := commitStates_ok_iff.mp hcommit
  have hrowsPending := pending_sameRows hrows
  have hpending : s.written.pending = d.pending := hrowsPending
  have hpending' : (s.db.over { e with health := k }).pending = e.pending := pending_over ha hrows rfl rfl
  refine ⟨rfl, hk, ?_, fun r hr => ?_⟩
  · rw [hpending]
    exact hpending'.trans ha.pending
  · have hfindings : s.written.findingsOf r.runId = d.findingsOf r.runId :=
      findingsOf_congr hrows.findings r.runId
    rw [hfindings]
    exact ha.findings r (hpending ▸ hr)

theorem unlessActive_alike (hd : d.Constrained) (ha : d.Alike e) {activation : LiveStrategyActivation}
    {now : ℤ} {act act' : Except MonitoringError MonitoringStore} {d' : MonitoringStore}
    (h : unlessActive activation now d act = .ok d')
    (hact : act = .ok d' → ∃ e', act' = .ok e' ∧ d'.Alike e') :
    ∃ e', unlessActive activation now e act' = .ok e' ∧ d'.Alike e' := by
  unfold unlessActive at h ⊢
  cases hstatus : activation.status with
  | active =>
    rw [hstatus] at h
    exact hact h
  | deactivated =>
    rw [hstatus] at h
    refine ha.commitStates ⟨_, _, _, rfl⟩ (ha.start.project ?_) h
    exact ⟨rfl, rfl, ha.health.comparedAt, ha.health.windowEnd⟩
  | error =>
    rw [hstatus] at h
    have hpolicy : e.binding.policy = d.binding.policy := by
      rw [ha.rows]
      rfl
    dsimp only at h ⊢
    rw [hpolicy]
    exact ha.commitStates (StateSession.start.recordActivationRuntimeFailure hd activation _ _ _ _ now).rows
      (ha.start.recordActivationRuntimeFailure activation _ _ _ _ now) h

/-- The same run is assessed in both stores. -/
theorem MonitoringStore.Alike.assessed (ha : d.Alike e) {d' e' : MonitoringStore} {lease : ℤ}
    {assessment : MonitoringAssessment} (hrows : e' = d'.over e')
    (hbinding : d'.binding = { d.binding with leaseExpiresAt := lease }) (hruns : d'.runs = d.runs)
    (hruns' : e'.runs = e.runs) (hfindings : d'.findings = d.findings)
    (hfindings' : e'.findings = e.findings) (hassessments : d'.assessments = d.assessments ++ [assessment])
    (hassessments' : e'.assessments = e.assessments ++ [assessment])
    (hhealth : d'.health.Alike d.binding.registeredAt e'.health) : d'.Alike e' := by
  have hshared : e.binding = d.binding := by
    rw [ha.rows]
    rfl
  have hbinding' : e'.binding = { d.binding with leaseExpiresAt := lease } := by
    rw [hrows]
    exact hbinding
  have hpending := pending_assessed hassessments hruns (by rw [hbinding]; exact ⟨rfl, rfl, rfl⟩)
  have hpending' := pending_assessed hassessments' hruns'
    (by rw [hbinding', hshared]; exact ⟨rfl, rfl, rfl⟩)
  refine ⟨hrows, ?_, ?_, fun r hr => ?_⟩
  · rw [hbinding]
    exact hhealth
  · rw [hpending, hpending', ha.pending]
  · rw [findingsOf_congr hfindings, findingsOf_congr hfindings']
    rw [hpending] at hr
    exact ha.findings r (List.mem_of_mem_filter hr)

theorem processComparisonRun_alike (hd : d.Constrained) (he : e.Constrained) (ha : d.Alike e)
    {settings : MonitoringSettings} {workerId : String} {d' : MonitoringStore}
    (hnext : nextPendingComparison d = some run)
    (h : processComparisonRun settings workerId d run = .ok d') :
    ∃ e', processComparisonRun settings workerId e run = .ok e' ∧ d'.Alike e' := by
  have hmem := nextPendingComparison_mem hnext
  have hfindings := ha.findings run hmem
  have hnext' : nextPendingComparison e = some run := ha.next.trans hnext
  obtain ⟨-, -, -, hpending⟩ := nextPendingComparison_spec hnext'
  obtain ⟨scan, hscan, -, hprocess⟩ :=
    processComparisonRun_scanned settings workerId hd.toWellFormed hnext
  obtain ⟨scan', hscan', -, hprocess'⟩ :=
    processComparisonRun_scanned settings workerId he.toWellFormed hnext'
  have hsame : scan' = scan.over e := by
    have hmapped := forPages_map (φ := fun scan : Scan => scan.over e)
      (fun scan page => scanPage_over settings scan page) hscan
    rw [hfindings] at hscan'
    have hstart : ({ session := { db := e } } : Scan) = Scan.over { session := { db := d } } e :=
      congrArg (fun db => ({ session := { db := db } } : Scan)) ha.rows
    rw [hstart] at hscan'
    exact Except.ok.inj (Option.some.inj (hscan'.symm.trans hmapped))
  have hscanned : Scanning d scan := forPages_kept (I := Scanning d)
    (fun scan page scan' _ hpage hs => scanPage_session hd settings hpage hs) hscan
    ⟨.start, fun _ _ hopen => hopen, rfl⟩
  obtain ⟨hfinding, -, hhealth⟩ := hscanned
  rw [hprocess] at h
  rw [hprocess', hsame]
  cases hproject : projectHealth run (settings.clock 0) scan with
  | error x => simp [hproject, bind, Except.bind] at h
  | ok result =>
    obtain ⟨session, health⟩ := result
    simp only [hproject, bind, Except.bind] at h
    have hk : scan.session.db.health.Alike d.binding.registeredAt e.health := by
      rw [hhealth]
      exact ha.health
    obtain ⟨health', hproject', hhealth'⟩ := projectHealth_over hk hproject
    have hsession : d.SameRows session.db := by
      rcases projectHealth_session hproject with rfl | ⟨complete, rfl⟩
      · exact hfinding.rows
      · rw [recordHealthyComparison_db]
        exact hfinding.rows
    have hcommit := commit_over (e := { e with health := health' }) h
      (commit_assessments he.toWellFormed hpending)
    simp only [hproject', bind, Except.bind]
    refine ⟨_, hcommit, ?_⟩
    rw [commit_written h]
    have hassessments := hsession.assessments
    have hrowsFindings := hsession.findings
    obtain ⟨names, lease, health₀, hdb⟩ := hsession
    have hbinding : session.db.binding = { d.binding with leaseExpiresAt := lease } := by rw [hdb]
    have hruns : session.db.runs = d.runs := by rw [hdb]
    refine ha.assessed rfl hbinding hruns rfl hrowsFindings rfl ?_ rfl hhealth'
    exact congrArg (fun assessments => assessments ++ [_]) hassessments

theorem UnitOfWork.Mirrored.change (hm : UnitOfWork.Mirrored e s t) (i : Incident) :
    UnitOfWork.Mirrored e (s.change i) (t.change i) := by
  obtain ⟨k, rfl, hk⟩ := hm
  exact ⟨k, rfl, hk⟩

theorem MonitoringStore.Alike.lockedIncident (ha : d.Alike e) (incidentId : ℕ) :
    UnitOfWork.lockedIncident { db := e } incidentId = UnitOfWork.lockedIncident { db := d } incidentId := by
  rw [ha.rows]
  rfl

theorem acknowledgeIncident_alike (ha : d.Alike e) {incidentId : ℕ} {actor : String}
    {note : Option String} {d' : MonitoringStore} (h : acknowledgeIncident incidentId actor note d = .ok d') :
    ∃ e', acknowledgeIncident incidentId actor note e = .ok e' ∧ d'.Alike e' := by
  have hsame : d.SameRows d := ⟨_, _, _, rfl⟩
  unfold acknowledgeIncident at h ⊢
  dsimp only at h ⊢
  rw [ha.lockedIncident]
  split at h
  · cases h
  · rename_i hactor
    rw [if_neg hactor]
    split at h
    · cases h
    · rename_i hnote
      rw [if_neg hnote]
      cases hfound : UnitOfWork.lockedIncident { db := d } incidentId with
      | none =>
        rw [hfound] at h
        cases h
      | some incident =>
        rw [hfound] at h
        dsimp only at h ⊢
        split at h
        · cases h
        · rename_i hunresolved
          rw [if_neg hunresolved]
          split at h
          · rename_i hopen
            rw [if_pos hopen]
            exact ha.commitStates hsame (ha.start.change _) h
          · rename_i hacknowledged
            rw [if_neg hacknowledged]
            exact ha.commitStates hsame ha.start h

theorem resolveIncidentBy_alike (ha : d.Alike e) {incidentId : ℕ} {actor : String}
    {note : Option String} {d' : MonitoringStore}
    (h : resolveIncidentBy incidentId actor note now d = .ok d') :
    ∃ e', resolveIncidentBy incidentId actor note now e = .ok e' ∧ d'.Alike e' := by
  have hsame : d.SameRows d := ⟨_, _, _, rfl⟩
  unfold resolveIncidentBy at h ⊢
  dsimp only at h ⊢
  rw [ha.lockedIncident]
  split at h
  · cases h
  · rename_i hactor
    rw [if_neg hactor]
    split at h
    · cases h
    · rename_i hnote
      rw [if_neg hnote]
      cases hfound : UnitOfWork.lockedIncident { db := d } incidentId with
      | none =>
        rw [hfound] at h
        cases h
      | some incident =>
        rw [hfound] at h
        dsimp only at h ⊢
        split at h
        · rename_i hunresolved
          rw [if_pos hunresolved]
          exact ha.commitStates hsame (ha.start.change _) h
        · rename_i hresolved
          rw [if_neg hresolved]
          exact ha.commitStates hsame ha.start h

theorem MonitoringCall.execute_alike (hd : d.Constrained) (he : e.Constrained) (ha : d.Alike e)
    {c : MonitoringCall} {d' : MonitoringStore} (h : c.execute d = .ok d') :
    ∃ e', c.execute e = .ok e' ∧ d'.Alike e' := by
  have hsame : d.SameRows d := ⟨_, _, _, rfl⟩
  have hbinding : e.binding = d.binding := by
    rw [ha.rows]
    rfl
  cases c with
  | compare settings workerId activation now =>
    refine unlessActive_alike hd ha h fun hact => ?_
    rw [ha.next]
    cases hnext : nextPendingComparison d with
    | none =>
      rw [hnext] at hact
      cases hact
      exact ⟨e, rfl, ha⟩
    | some run =>
      rw [hnext] at hact
      exact processComparisonRun_alike hd he ha hnext hact
  | finalize activation now now' =>
    refine unlessActive_alike hd ha h fun hact => ?_
    have hrows := ((StateSession.start (d := d)).evaluateComparisonFreshness hd now).evaluateStaleness hd
      activation now'
    exact ha.commitStates hrows.rows
      ((ha.start.evaluateComparisonFreshness now).evaluateStaleness activation now') hact
  | fail activation validPolicy error now =>
    have hpolicy : e.binding.policy = d.binding.policy := congrArg MonitoringBinding.policy hbinding
    unfold MonitoringCall.execute at h ⊢
    dsimp only at h ⊢
    rw [hpolicy]
    generalize (if validPolicy then some d.binding.policy else none) = policy at h ⊢
    have hset := ha.health.setHealth .error .runtime (runtimeSeverity policy none 1 (Nat.le_refl 1))
      (some error) (some error)
    have hstart : StateSession d (UnitOfWork.project { db := d } { setHealth d.health .error .runtime
        (runtimeSeverity policy none 1 (Nat.le_refl 1)) with lastError := some error }) :=
      StateSession.start.project (Nat.zero_le _)
    refine ha.commitStates ?_ ((ha.start.project hset).recordActivationRuntimeFailure activation policy
      (some error) (some "monitoring_error") _ now) h
    exact (hstart.recordActivationRuntimeFailure hd activation policy (some error)
      (some "monitoring_error") _ now).rows
  | renew leaseExpiresAt =>
    cases h
    refine ⟨_, rfl, ?_, ?_, ?_, ?_⟩
    · rw [ha.rows]
      rfl
    · exact ha.health
    · have hpending := ha.pending
      unfold MonitoringStore.pending at hpending ⊢
      exact hpending
    · exact ha.findings
  | acknowledge incidentId actor note => exact acknowledgeIncident_alike ha h
  | resolve incidentId actor note now => exact resolveIncidentBy_alike ha h

theorem MonitoringCall.after_cases (hd : d.Constrained) (c : MonitoringCall) :
    (c.execute d = .ok (c.after d) ∧ (c.after d).Constrained) ∨
      ((∀ d', c.execute d ≠ .ok d') ∧ c.after d = d) := by
  unfold MonitoringCall.after
  cases hexecute : c.execute d with
  | error x => exact .inr ⟨(fun d' h => by cases h), rfl⟩
  | ok d' =>
    refine .inl ⟨rfl, ?_⟩
    rcases c.execute_links hd hexecute with hkept | ⟨run, hrun⟩
    · exact hkept.constrained
    · exact hrun.constrained

end

/-! ### Two histories -/

/-- The stores of two histories, which the next events do not tell apart. -/
structure Paired (p : MonitoringStore × MonitoringStore) : Prop where
  first : p.1.Constrained
  second : p.2.Constrained
  alike : p.1.Alike p.2

section
variable {d e : MonitoringStore} {p q : MonitoringStore × MonitoringStore}

theorem Paired.call (hp : Paired (d, e)) (c : MonitoringCall) : Paired (c.after d, c.after e) := by
  obtain ⟨hd, he, ha⟩ := hp
  rcases c.after_cases hd with ⟨hok, hafter⟩ | ⟨hfails, hsame⟩
  · obtain ⟨e', hexecute, halike⟩ := MonitoringCall.execute_alike hd he ha hok
    rcases c.after_cases he with ⟨hok', hafter'⟩ | ⟨hfails', -⟩
    · obtain rfl : c.after e = e' := Except.ok.inj (hok'.symm.trans hexecute)
      exact ⟨hafter, hafter', halike⟩
    · exact absurd hexecute (hfails' e')
  · rcases c.after_cases he with ⟨hok', -⟩ | ⟨-, hsame'⟩
    · obtain ⟨d', hexecute, -⟩ := MonitoringCall.execute_alike he hd ha.symm hok'
      exact absurd hexecute (hfails d')
    · rw [hsame, hsame']
      exact ⟨hd, he, ha⟩

theorem findingsOf_arrived {run : ComparisonRun} {findings : List Finding} (runId : String) :
    (d.arrived run findings).findingsOf runId =
      ((d.findings.filter fun f => f.comparisonRunId = runId) ++
        findings.filter fun f => f.comparisonRunId = runId).insertionSort
          fun f g => f.pageKey ≤ g.pageKey := by
  unfold MonitoringStore.findingsOf MonitoringStore.arrived
  rw [List.filter_append]

/-- What a run of another id brings does not change the findings of a run. -/
theorem ArrivesUnseen.findingsOf_old {run r : ComparisonRun} {findings : List Finding}
    (h : ArrivesUnseen d run findings) (hr : r ∈ d.pending) :
    (d.arrived run findings).findingsOf r.runId = d.findingsOf r.runId := by
  have hother : r.runId ≠ run.runId := fun hsame =>
    h.new (hsame ▸ List.mem_map_of_mem (List.mem_filter.mp hr).1)
  have hnone : (findings.filter fun f => f.comparisonRunId = r.runId) = [] :=
    List.filter_eq_nil_iff.mpr fun f hf hbelongs =>
      hother ((of_decide_eq_true hbelongs).symm.trans (h.belong f hf))
  rw [findingsOf_arrived, hnone, List.append_nil]
  rfl

theorem ArrivesUnseen.findingsOf_new {run : ComparisonRun} {findings : List Finding}
    (h : ArrivesUnseen d run findings) : (d.arrived run findings).findingsOf run.runId =
      (findings.filter fun f => f.comparisonRunId = run.runId).insertionSort
        fun f g => f.pageKey ≤ g.pageKey := by
  have hnone : (d.findings.filter fun f => f.comparisonRunId = run.runId) = [] :=
    List.filter_eq_nil_iff.mpr fun f hf hbelongs => h.unreported f hf (of_decide_eq_true hbelongs)
  rw [findingsOf_arrived, hnone, List.nil_append]

/-- The run is for the binding. -/
def MonitoringBinding.Matches (b : MonitoringBinding) (run : ComparisonRun) : Bool :=
  run.activationId = b.activationId && run.referenceRunId = b.referenceRunId &&
    run.policyHash = b.comparisonPolicyHash

theorem ArrivesUnseen.pending {run : ComparisonRun} {findings : List Finding}
    (h : ArrivesUnseen d run findings) :
    (d.arrived run findings).pending = d.pending ++ if d.binding.Matches run then [run] else [] := by
  have hunassessed : (d.assessments.any fun a => a.comparisonRunId = run.runId) = false := by
    rw [List.any_eq_false]
    intro a hmem hsame
    exact h.unassessed (List.mem_map.mpr ⟨a, hmem, of_decide_eq_true hsame⟩)
  unfold MonitoringStore.pending MonitoringStore.arrived MonitoringBinding.Matches
  rw [List.filter_append]
  congr 1
  dsimp only
  rw [List.filter_singleton, hunassessed]
  simp

theorem Paired.arrive {run : ComparisonRun} {findings : List Finding} (hp : Paired (d, e))
    (hd : ArrivesUnseen d run findings) (he : ArrivesUnseen e run findings) :
    Paired (d.arrived run findings, e.arrived run findings) := by
  obtain ⟨hd', he', ha⟩ := hp
  change d.Alike e at ha
  have hbinding : e.binding = d.binding := by
    rw [ha.rows]
    rfl
  refine ⟨Constrained.arrived hd' hd.toArrives, Constrained.arrived he' he.toArrives, ?_, ha.health, ?_,
    fun r hr => ?_⟩
  · show { e with runs := e.runs ++ [run], findings := e.findings ++ findings } = _
    rw [ha.rows]
    rfl
  · rw [hd.pending, he.pending, ha.pending, hbinding]
  · rw [hd.pending] at hr
    rcases List.mem_append.mp hr with hold | hnew
    · rw [hd.findingsOf_old hold, he.findingsOf_old (ha.pending ▸ hold)]
      exact ha.findings r hold
    · have hsame : r = run := by
        split at hnew
        · exact List.mem_singleton.mp hnew
        · cases hnew
      rw [hsame, hd.findingsOf_new, he.findingsOf_new]

theorem SharedStep.paired (hp : Paired p) (h : SharedStep p q) : Paired q := by
  cases h with
  | call c => exact hp.call c
  | arrive hd he => exact hp.arrive hd he

theorem MonitoringStore.register_constrained (hd : d.WellFormed) (binding : MonitoringBinding)
    (names : ℕ) : (d.register binding names).Constrained where
  keys := List.nodup_nil
  ids := List.nodup_nil
  drawn i hi := by cases hi
  findings := hd.findings
  evidence := List.nodup_nil
  evidenceKeys := List.nodup_nil
  keyed e he := by cases he
  assessments := hd.assessments
  assessed e he := by cases he
  linked e he := by cases he
  kinds i hi := by cases hi

end

/-- The two histories have the same runs for the new binding. -/
structure SamePending (d e : MonitoringStore) : Prop where
  pending : e.pending = d.pending
  findings : ∀ r ∈ d.pending, e.findingsOf r.runId = d.findingsOf r.runId

/-- When the last comparison of the activation completed, or the new binding was registered, and the
window that it covered. -/
def MonitoringStore.evidenceOrigin (d : MonitoringStore) (registeredAt : ℤ) : ℤ × Option ℤ :=
  (d.health.lastCompleteComparisonAt.getD registeredAt, d.health.lastCompleteWindowEnd)

theorem alike_of_origin {d₁ d₂ : MonitoringStore} (h₁ : d₁.WellFormed) (h₂ : d₂.WellFormed)
    {binding : MonitoringBinding} {names : ℕ}
    (hruns : SamePending (d₁.register binding names) (d₂.register binding names))
    (horigin : d₁.evidenceOrigin binding.registeredAt = d₂.evidenceOrigin binding.registeredAt)
    {p : MonitoringStore × MonitoringStore}
    (hrun : Relation.ReflTransGen SharedStep
      (d₁.register binding names, d₂.register binding names) p) :
    p.1.health.projection = p.2.health.projection := by
  have hstart : Paired (d₁.register binding names, d₂.register binding names) := by
    refine ⟨MonitoringStore.register_constrained h₁ binding names,
      MonitoringStore.register_constrained h₂ binding names, rfl, ⟨rfl, rfl, ?_, ?_⟩, hruns.pending,
      hruns.findings⟩
    · exact (congrArg Prod.fst horigin).symm
    · exact (congrArg Prod.snd horigin).symm
  have hpaired : Paired p := by
    clear hruns horigin h₁ h₂
    induction hrun with
    | refl => exact hstart
    | tail _ hstep ih => exact hstep.paired ih
  exact hpaired.alike.health.projection.symm

/-! ### Events that tell two origins apart -/

section
variable {d : MonitoringStore}

/-- A binding without incidents whose health is unknown. -/
structure MonitoringStore.Fresh (d : MonitoringStore) : Prop where
  incidents : d.incidents = []
  evidence : d.evidence = []
  status : d.health.status = .unknown
  cause : d.health.cause = none

theorem selectIncidents_nil {s : UnitOfWork} (h : s.db.incidents = []) (condition : Incident → Bool) :
    s.selectIncidents condition = [] := by
  unfold UnitOfWork.selectIncidents
  rw [h]
  rfl

theorem nodup_of_length_le_one {α : Type} {l : List α} (h : l.length ≤ 1) : l.Nodup := by
  cases l with
  | nil => exact List.nodup_nil
  | cons a l =>
    obtain rfl : l = [] := List.length_eq_zero_iff.mp (Nat.le_zero.mp (Nat.le_of_succ_le_succ h))
    exact List.nodup_singleton a

/-- A fresh evaluator changes nothing about a binding whose health is not stale. -/
theorem evaluateStaleness_fresh {s : UnitOfWork} {activation : LiveStrategyActivation} {now : ℤ}
    (hfresh : ¬ EvaluatorStale s.db.binding.policy activation now) (hincidents : s.db.incidents = [])
    (hstatus : s.db.health.status ≠ .stale) : evaluateStaleness activation now s =
      s.project { s.db.health with lastEvaluatedAt := activation.lastEvaluatedAt } := by
  have hnone := selectIncidents_nil (s := s.project { s.db.health with
    lastEvaluatedAt := activation.lastEvaluatedAt }) hincidents
  unfold evaluateStaleness
  refine (if_neg hfresh).trans ?_
  unfold recoverStale
  rw [hnone]
  exact if_neg hstatus

theorem recordState_first {s : UnitOfWork} (h : s.db.incidents = []) (f : StateFinding) (now : ℤ) :
    recordState f now s = (f.severityFor 1 Nat.one_pos, s.opened f now) := by
  unfold recordState
  rw [selectIncidents_nil h]
  rfl

/-- What the freshness of the comparison evidence does to a fresh binding. -/
theorem evaluateComparisonFreshness_fresh (hd : d.Fresh) (now : ℤ) :
    ∃ s, evaluateComparisonFreshness now { db := d } = s ∧ s.db.incidents = [] ∧ s.db.evidence = [] ∧
      s.db.binding = d.binding ∧ s.addedIncidents.length ≤ 1 ∧ s.addedEvidence.length ≤ 1 ∧
      ((d.ComparisonStale now ∧ s.db.health.status = .degraded) ∨
        (¬ d.ComparisonStale now ∧ s.db.health.status = .unknown)) := by
  by_cases hold : d.ComparisonStale now
  · have hrecorded := recordState_first (s := { db := d }) hd.incidents (staleComparisonEvidence d.binding
      (d.health.lastCompleteComparisonAt.getD d.binding.registeredAt) d.health.lastCompleteWindowEnd) now
    have hcause : (UnitOfWork.opened { db := d } (staleComparisonEvidence d.binding
        (d.health.lastCompleteComparisonAt.getD d.binding.registeredAt) d.health.lastCompleteWindowEnd)
          now).db.health.cause = none := hd.cause
    have hthreshold : d.binding.policy.comparisonStaleAfterSeconds * second ≤
        now - d.health.lastCompleteComparisonAt.getD d.binding.registeredAt := hold
    unfold evaluateComparisonFreshness
    dsimp only
    rw [if_pos hthreshold, hrecorded]
    dsimp only
    rw [hcause]
    exact ⟨_, rfl, hd.incidents, hd.evidence, rfl, Nat.le_refl _, Nat.le_refl _, .inl ⟨hold, rfl⟩⟩
  · refine ⟨_, if_neg hold, ?_⟩
    unfold recoverStale
    rw [selectIncidents_nil hd.incidents]
    exact ⟨hd.incidents, hd.evidence, rfl, Nat.zero_le _, Nat.zero_le _, .inr ⟨hold, hd.status⟩⟩

/-- A cycle with a fresh evaluator shows whether the comparison evidence is old. -/
theorem freshness_shown (hd : d.Fresh) (now : ℤ) :
    (MonitoringCall.after (.finalize (evaluatedAt now) now now)
      d).health.status = .degraded ↔ d.ComparisonStale now := by
  have hfresh : ¬ EvaluatorStale d.binding.policy (evaluatedAt now) now := by
    have hpositive := d.binding.policy.positiveTimeouts.1
    have hsecond : (0 : ℤ) < second := by decide
    have hpos : (0 : ℤ) < d.binding.policy.staleAfterSeconds * second :=
      Int.mul_pos (by omega) hsecond
    show ¬ _ ≤ now - now
    omega
  obtain ⟨s, hs, hincidents, hevidence, hbinding, hadded, haddedEvidence, hstatus⟩ :=
    evaluateComparisonFreshness_fresh hd now
  have hstale : s.db.health.status ≠ .stale := by
    rcases hstatus with ⟨-, hstatus⟩ | ⟨-, hstatus⟩ <;> simp [hstatus]
  have hcommit : (s.project { s.db.health with lastEvaluatedAt := some now }).commitStates =
      .ok (s.project { s.db.health with lastEvaluatedAt := some now }).written := by
    refine commitStates_ok ?_ ?_
    · refine nodup_of_length_le_one ?_
      show ((s.db.incidents.map s.object ++ s.addedIncidents).map Incident.dedupKey).length ≤ 1
      rw [hincidents, List.length_map]
      exact hadded
    · refine nodup_of_length_le_one ?_
      show ((s.db.evidence ++ s.addedEvidence).map _).length ≤ 1
      rw [hevidence, List.length_map]
      exact haddedEvidence
  have hexecute : (MonitoringCall.finalize (evaluatedAt now) now now).execute d =
      .ok (s.project { s.db.health with lastEvaluatedAt := some now }).written := by
    show (evaluateStaleness _ now (evaluateComparisonFreshness now { db := d })).commitStates = _
    rw [hs, evaluateStaleness_fresh (hbinding ▸ hfresh) hincidents hstale]
    exact hcommit
  unfold MonitoringCall.after
  rw [hexecute]
  show s.db.health.status = .degraded ↔ _
  rcases hstatus with ⟨hold, hstatus⟩ | ⟨hrecent, hstatus⟩
  · exact iff_of_true hstatus hold
  · refine iff_of_false (fun hdegraded => ?_) hrecent
    rw [hstatus] at hdegraded
    cases hdegraded

/-- A healthy check of a binding without incidents. -/
theorem recordHealthyComparison_fresh {s : UnitOfWork} (h : s.db.incidents = []) (health : HealthState)
    (now : ℤ) : (recordHealthyComparison s health now).1 = s ∧
      (recordHealthyComparison s health now).2.status = .healthy := by
  have hunresolved : s.unresolvedIncidents = [] := selectIncidents_nil h _
  unfold recordHealthyComparison
  rw [hunresolved]
  dsimp only
  split <;> exact ⟨rfl, rfl⟩

/-- The projection of a healthy run without findings on a fresh binding. -/
theorem projectHealth_fresh (hd : d.Fresh) {run : ComparisonRun} (hstatus : run.status = .healthy)
    (now : ℤ) : ∃ health, projectHealth run now { session := { db := d } } = .ok ({ db := d }, health) ∧
      (health.status = .healthy ↔ currentWindow d.health run) := by
  have hcurrent : currentWindow { d.health with lastComparisonAt := some now } run =
      currentWindow d.health run := rfl
  unfold projectHealth
  dsimp only
  rw [hstatus, hcurrent]
  dsimp only
  rw [if_neg (not_not_intro rfl)]
  cases currentWindow d.health run with
  | false =>
    refine ⟨_, rfl, iff_of_false (fun hhealthy => ?_) (by simp)⟩
    rw [show d.health.status = .unknown from hd.status] at hhealthy
    cases hhealthy
  | true =>
    obtain ⟨hsession, hhealthy⟩ := recordHealthyComparison_fresh (s := { db := d }) hd.incidents
      { d.health with
        lastComparisonAt := some now, lastCompleteComparisonAt := some now
        lastCompleteWindowEnd := some run.windowEnd } now
    refine ⟨_, congrArg Except.ok (Prod.ext hsession rfl), iff_of_true hhealthy rfl⟩

theorem commit_fresh (hd : d.Fresh) (health : HealthState) (assessment : MonitoringAssessment)
    (hnew : ((d.assessments ++ [assessment]).map MonitoringAssessment.comparisonRunId).Nodup) :
    ∃ d', UnitOfWork.commit { db := { d with health := health } } assessment = .ok d' ∧
      d'.health = health := by
  unfold UnitOfWork.commit
  dsimp only
  rw [hd.incidents, hd.evidence, if_neg (not_not_intro hnew)]
  exact ⟨_, rfl, rfl⟩

/-- A healthy run shows whether its window is behind the last complete one. -/
theorem window_shown (hc : d.Constrained) (hd : d.Fresh) (hpending : d.pending = []) {run : ComparisonRun}
    (hrun : ArrivesUnseen d run []) (hmatches : d.binding.Matches run) (hstatus : run.status = .healthy) :
    (MonitoringCall.after (.compare onePerPage "w" running 0) (d.arrived run [])).health.status = .healthy ↔
      currentWindow d.health run := by
  have hwell := (Constrained.arrived hc hrun.toArrives).toWellFormed
  have hfresh : (d.arrived run []).Fresh := ⟨hd.incidents, hd.evidence, hd.status, hd.cause⟩
  have hnext : nextPendingComparison (d.arrived run []) = some run := by
    have hone : (d.arrived run []).pending = [run] := by
      rw [hrun.pending, hpending, if_pos hmatches]
      rfl
    unfold MonitoringStore.pending at hone
    unfold nextPendingComparison
    rw [hone]
    rfl
  have hnone : (d.arrived run []).findingsOf run.runId = [] := hrun.findingsOf_new
  obtain ⟨-, -, -, hunassessed⟩ := nextPendingComparison_spec hnext
  obtain ⟨scan, hscan, -, hprocess⟩ := processComparisonRun_scanned onePerPage "w" hwell hnext
  rw [hnone] at hscan
  obtain rfl : { session := { db := d.arrived run [] } } = scan := Except.ok.inj (Option.some.inj hscan)
  obtain ⟨health, hproject, hshown⟩ := projectHealth_fresh hfresh hstatus (onePerPage.clock 0)
  rw [hproject] at hprocess
  obtain ⟨d', hcommit, hhealth⟩ := commit_fresh hfresh health
    { comparisonRunId := run.runId, comparisonStatus := run.status, findingCount := 0
      processorWorkerId := "w", processedAt := onePerPage.clock 0 }
    (commit_assessments hwell hunassessed)
  have hexecute : (MonitoringCall.compare onePerPage "w" running 0).execute (d.arrived run []) = .ok d' := by
    show processOneComparison onePerPage "w" running 0 (d.arrived run []) = _
    unfold processOneComparison
    rw [hnext]
    exact hprocess.trans hcommit
  unfold MonitoringCall.after
  rw [hexecute]
  show d'.health.status = _ ↔ _
  rw [hhealth]
  exact hshown

theorem MonitoringStore.register_fresh (d : MonitoringStore) (binding : MonitoringBinding) (names : ℕ) :
    (d.register binding names).Fresh := ⟨rfl, rfl, rfl, rfl⟩

/-- A healthy run of the binding over the window that ends at `windowEnd`. -/
def MonitoringBinding.healthyRun (b : MonitoringBinding) (runId : String) (windowEnd : ℤ) : ComparisonRun :=
  { missedSignals with
    runId := runId, activationId := b.activationId, referenceRunId := b.referenceRunId
    policyHash := b.comparisonPolicyHash, windowEnd := windowEnd, status := .healthy }

/-- A run id that no row has. -/
theorem exists_unseen (d e : MonitoringStore) : ∃ runId, ∀ d' ∈ [d, e],
    runId ∉ d'.runs.map ComparisonRun.runId ∧ runId ∉ d'.assessed ∧
      ∀ f ∈ d'.findings, f.comparisonRunId ≠ runId := by
  let ids (d : MonitoringStore) := d.runs.map ComparisonRun.runId ++ d.assessed ++
    d.findings.map Finding.comparisonRunId
  obtain ⟨runId, hnew⟩ := Infinite.exists_notMem_finset (ids d ++ ids e).toFinset
  have hids : ∀ d' ∈ [d, e], runId ∉ ids d' := by
    intro d' hd' hmem
    refine hnew (List.mem_toFinset.mpr (List.mem_append.mpr ?_))
    rcases List.mem_cons.mp hd' with rfl | hd'
    · exact .inl hmem
    · rw [List.mem_singleton.mp hd'] at hmem
      exact .inr hmem
  refine ⟨runId, fun d' hd' => ⟨fun hmem => ?_, fun hmem => ?_, fun f hf hsame => ?_⟩⟩
  · exact hids d' hd' (List.mem_append_left _ (List.mem_append_left _ hmem))
  · exact hids d' hd' (List.mem_append_left _ (List.mem_append_right _ hmem))
  · exact hids d' hd' (List.mem_append_right _ (List.mem_map.mpr ⟨f, hf, hsame⟩))

end

section
variable {d₁ d₂ : MonitoringStore} {binding : MonitoringBinding} {names : ℕ}

/-- The health of the new binding shows when the comparison evidence gets old. -/
theorem comparedAt_shown (hsame : ∀ p, Relation.ReflTransGen SharedStep
      (d₁.register binding names, d₂.register binding names) p →
        p.1.health.projection = p.2.health.projection) :
    (d₁.evidenceOrigin binding.registeredAt).1 = (d₂.evidenceOrigin binding.registeredAt).1 := by
  have hstale : ∀ now, (d₁.register binding names).ComparisonStale now ↔
      (d₂.register binding names).ComparisonStale now := by
    intro now
    have hprojection := hsame _ (.single (.call (.finalize (evaluatedAt now) now now)))
    have hstatus : (MonitoringCall.after (.finalize (evaluatedAt now) now now)
        (d₁.register binding names)).health.status = (MonitoringCall.after
          (.finalize (evaluatedAt now) now now) (d₂.register binding names)).health.status :=
      congrArg Prod.fst hprojection
    have hfirst := freshness_shown (d₁.register_fresh binding names) now
    have hsecond := freshness_shown (d₂.register_fresh binding names) now
    rw [hstatus] at hfirst
    exact hfirst.symm.trans hsecond
  have hthreshold : ∀ now, (binding.policy.comparisonStaleAfterSeconds * second ≤
      now - d₁.health.lastCompleteComparisonAt.getD binding.registeredAt) ↔
      (binding.policy.comparisonStaleAfterSeconds * second ≤
        now - d₂.health.lastCompleteComparisonAt.getD binding.registeredAt) := hstale
  show d₁.health.lastCompleteComparisonAt.getD binding.registeredAt =
    d₂.health.lastCompleteComparisonAt.getD binding.registeredAt
  generalize d₁.health.lastCompleteComparisonAt.getD binding.registeredAt = b₁ at hthreshold ⊢
  generalize d₂.health.lastCompleteComparisonAt.getD binding.registeredAt = b₂ at hthreshold ⊢
  generalize binding.policy.comparisonStaleAfterSeconds * second = threshold at hthreshold
  have hle := (hthreshold (threshold + b₁)).mp (by omega)
  have hge := (hthreshold (threshold + b₂)).mpr (by omega)
  omega

/-- The health of the new binding shows which windows it takes for old ones. -/
theorem windowEnd_shown (h₁ : d₁.WellFormed) (h₂ : d₂.WellFormed)
    (hpending₁ : (d₁.register binding names).pending = [])
    (hpending₂ : (d₂.register binding names).pending = [])
    (hsame : ∀ p, Relation.ReflTransGen SharedStep
      (d₁.register binding names, d₂.register binding names) p →
        p.1.health.projection = p.2.health.projection) :
    (d₁.evidenceOrigin binding.registeredAt).2 = (d₂.evidenceOrigin binding.registeredAt).2 := by
  obtain ⟨runId, hunseen⟩ := exists_unseen (d₁.register binding names) (d₂.register binding names)
  have harrives : ∀ d ∈ [d₁.register binding names, d₂.register binding names], d.WellFormed →
      ∀ windowEnd, ArrivesUnseen d (binding.healthyRun runId windowEnd) [] := by
    intro d hmem hd windowEnd
    obtain ⟨hnew, hunassessed, hunreported⟩ := hunseen d hmem
    refine ⟨⟨hnew, ?_, by simp, by simp⟩, hunassessed, hunreported⟩
    rw [List.append_nil]
    exact hd.findings
  have hc₁ := MonitoringStore.register_constrained h₁ binding names
  have hc₂ := MonitoringStore.register_constrained h₂ binding names
  have hcurrent : ∀ windowEnd, currentWindow (d₁.register binding names).health
      (binding.healthyRun runId windowEnd) = currentWindow (d₂.register binding names).health
        (binding.healthyRun runId windowEnd) := by
    intro windowEnd
    have hfirst := harrives _ List.mem_cons_self hc₁.toWellFormed windowEnd
    have hsecond := harrives _ (List.mem_cons_of_mem _ (List.mem_singleton_self _)) hc₂.toWellFormed
      windowEnd
    have hmatches : binding.Matches (binding.healthyRun runId windowEnd) := by
      simp [MonitoringBinding.Matches, MonitoringBinding.healthyRun]
    have hprojection := hsame _ ((Relation.ReflTransGen.single (.arrive hfirst hsecond)).tail
      (.call (.compare onePerPage "w" running 0)))
    have hshown := window_shown hc₁ (d₁.register_fresh binding names) hpending₁ hfirst hmatches rfl
    have hshown' := window_shown hc₂ (d₂.register_fresh binding names) hpending₂ hsecond hmatches rfl
    have hstatus := congrArg Prod.fst hprojection
    dsimp only [HealthState.projection] at hstatus
    rw [hstatus] at hshown
    exact Bool.eq_iff_iff.mpr (hshown.symm.trans hshown')
  have hends : ∀ windowEnd, currentWindow d₁.health (binding.healthyRun runId windowEnd) =
      currentWindow d₂.health (binding.healthyRun runId windowEnd) := hcurrent
  show d₁.health.lastCompleteWindowEnd = d₂.health.lastCompleteWindowEnd
  unfold currentWindow at hends
  cases hfirst : d₁.health.lastCompleteWindowEnd with
  | none =>
    cases hsecond : d₂.health.lastCompleteWindowEnd with
    | none => rfl
    | some w =>
      have hbefore := hends (w - 1)
      rw [hfirst, hsecond] at hbefore
      have hle : w ≤ w - 1 := of_decide_eq_true hbefore.symm
      omega
  | some v =>
    cases hsecond : d₂.health.lastCompleteWindowEnd with
    | none =>
      have hbefore := hends (v - 1)
      rw [hfirst, hsecond] at hbefore
      have hle : v ≤ v - 1 := of_decide_eq_true hbefore
      omega
    | some w =>
      have hv := hends v
      have hw := hends w
      rw [hfirst, hsecond] at hv hw
      have hwv : w ≤ v := of_decide_eq_true (hv.symm.trans (decide_eq_true (le_refl v)))
      have hvw : v ≤ w := of_decide_eq_true (hw.trans (decide_eq_true (le_refl w)))
      rw [le_antisymm hvw hwv]

/-- The health of a new binding is independent of the earlier ones if no complete comparison of
theirs tells: where none is pending at the registration, only then. -/
theorem rebinding_independent (h₁ : d₁.WellFormed) (h₂ : d₂.WellFormed)
    (hruns : SamePending (d₁.register binding names) (d₂.register binding names)) :
    (d₁.evidenceOrigin binding.registeredAt = d₂.evidenceOrigin binding.registeredAt →
      ∀ p, Relation.ReflTransGen SharedStep (d₁.register binding names, d₂.register binding names) p →
        p.1.health.projection = p.2.health.projection) ∧
    ((d₁.register binding names).pending = [] →
      (∀ p, Relation.ReflTransGen SharedStep (d₁.register binding names, d₂.register binding names) p →
        p.1.health.projection = p.2.health.projection) →
      d₁.evidenceOrigin binding.registeredAt = d₂.evidenceOrigin binding.registeredAt) := by
  refine ⟨fun horigin p hrun => alike_of_origin h₁ h₂ hruns horigin hrun, fun hpending hsame => ?_⟩
  exact Prod.ext (comparedAt_shown hsame)
    (windowEnd_shown h₁ h₂ hpending (hruns.pending.trans hpending) hsame)

end

/-! ### An earlier binding that was compared -/

theorem MonitoringCall.after_constrained {d : MonitoringStore} (hd : d.Constrained) (c : MonitoringCall) :
    (c.after d).Constrained := by
  rcases c.after_cases hd with ⟨-, hafter⟩ | ⟨-, hsame⟩
  · exact hafter
  · rw [hsame]
    exact hd

/-- The binding of an activation that is registered two hours later. -/
def nextBinding : MonitoringBinding :=
  { unfailed.binding with id := 2, policyHash := "n", registeredAt := 7200 * second }

/-- A history in which the earlier binding failed tells nothing. -/
theorem rebinding_independent_failed :
    (MonitoringCall.after (.compare onePerPage "w" running 0)
      (failedStore.register nextBinding 1)).health.projection = (.healthy, none, none) ∧
    (MonitoringCall.after (.compare onePerPage "w" running 0)
      (unfailed.register nextBinding 1)).health.projection =
        (MonitoringCall.after (.compare onePerPage "w" running 0)
          (failedStore.register nextBinding 1)).health.projection := by
  have hfailed : failedStore.WellFormed :=
    (MonitoringCall.after_constrained unfailed_constrained (.fail running true "boom" 1)).toWellFormed
  have hruns : SamePending (unfailed.register nextBinding 1) (failedStore.register nextBinding 1) :=
    ⟨by decide +kernel, by decide +kernel⟩
  refine ⟨by decide +kernel, ?_⟩
  exact (rebinding_independent unfailed_constrained.toWellFormed hfailed hruns).1 (by decide +kernel) _
    (.single (.call (.compare onePerPage "w" running 0)))

/-- The history of an activation whose binding assessed a healthy run. -/
def comparedBefore : MonitoringStore := MonitoringCall.after (.compare onePerPage "w" running 0) unfailed

theorem comparedBefore_told : ¬ ∀ (d₁ d₂ : MonitoringStore) (binding : MonitoringBinding) (names : ℕ),
    d₁.WellFormed → d₂.WellFormed →
    SamePending (d₁.register binding names) (d₂.register binding names) →
    ∀ p, Relation.ReflTransGen SharedStep (d₁.register binding names, d₂.register binding names) p →
      p.1.health.projection = p.2.health.projection := by
  intro hall
  have hcompared : comparedBefore.WellFormed :=
    (MonitoringCall.after_constrained unfailed_constrained
      (.compare onePerPage "w" running 0)).toWellFormed
  have hruns : SamePending (unobserved.register nextBinding 1) (comparedBefore.register nextBinding 1) :=
    ⟨by decide +kernel, by decide +kernel⟩
  have hsame := hall unobserved comparedBefore nextBinding 1 unobserved_registered.wellFormed hcompared hruns
    _ (.single (.call (.finalize (evaluatedAt (7200 * second)) (7200 * second) (7200 * second))))
  have hunknown : (MonitoringCall.after (.finalize (evaluatedAt (7200 * second)) (7200 * second)
      (7200 * second)) (unobserved.register nextBinding 1)).health.status = .unknown := by decide +kernel
  have hdegraded : (MonitoringCall.after (.finalize (evaluatedAt (7200 * second)) (7200 * second)
      (7200 * second)) (comparedBefore.register nextBinding 1)).health.status = .degraded := by
    decide +kernel
  have hstatus := congrArg Prod.fst hsame
  dsimp only [HealthState.projection] at hstatus
  rw [hunknown, hdegraded] at hstatus
  cases hstatus

end Quantive.Monitoring
