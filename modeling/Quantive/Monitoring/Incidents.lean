import Mathlib.Data.List.Sort
import Mathlib.Data.Prod.Lex
import Mathlib.Data.String.Basic
import Quantive.Clock
import Quantive.Keyset
import Quantive.Monitoring.Contracts

/-!
# Incident aggregation

`_process_comparison_run` and `_record_finding` of `services/strategy_monitoring.py`. The
session runs with `autoflush=False`: a SELECT finds rows of the database only, a found
row is the object the session already holds for it, and an object that was added is first
written by the flush of the commit. The tables hold the rows of one binding.
-/

namespace Quantive.Monitoring

/-! ### Rows -/

/-- The JSON object of a finding's value: its members with the JSON text of each. -/
abbrev Value := List (String × String)

/-- `stable_keys` of `_stable_value_discriminator`. -/
def stableKeys : List String :=
  ["asset_id", "event_type", "signal_id", "side", "direction", "position_state", "error_code",
    "configuration_hash", "strategy_id", "strategy_version_id", "strategy_version_number",
    "strategy_definition_hash", "revision", "reference_complete", "observed_complete"]

/-- `_stable_value_discriminator`. -/
def stableValueDiscriminator (value : Value) : Value :=
  stableKeys.filterMap fun key => (value.lookup key).map fun v => (key, v)

structure ComparisonRun where
  runId : String
  activationId : ℕ
  referenceRunId : String
  policyHash : String
  strategyId : ℕ
  strategyVersionId : ℕ
  strategyDefinitionHash : String
  windowEnd : ℤ
  status : ComparisonStatus
  createdAt : ℤ
  deriving DecidableEq

structure Finding where
  id : ℕ
  comparisonRunId : String
  strategyId : ℕ
  strategyVersionId : ℕ
  strategyDefinitionHash : String
  assetId : Option ℕ
  divergenceType : DivergenceType
  severity : IncidentSeverity
  category : String
  expectedValue : Value
  observedValue : Value
  createdAt : ℤ
  deriving DecidableEq

structure MonitoringBinding where
  id : ℕ
  activationId : ℕ
  referenceRunId : String
  policyHash : String
  comparisonPolicyHash : String
  policy : MonitoringPolicy
  registeredAt : ℤ
  leaseExpiresAt : ℤ

/-- The divergence type of an incident: a comparator's or one the monitor gives itself. -/
inductive IncidentType where
  | divergence (type : DivergenceType)
  | staleStrategyState
  | staleComparisonEvidence
  deriving DecidableEq

/-- What `_hash_payload` hashes to a `dedup_key`: of a finding, or of a state the monitor found. -/
inductive DedupKey where
  | finding (bindingId : ℕ) (referenceRunId policyHash : String) (strategyId strategyVersionId : ℕ)
      (strategyDefinitionHash : String) (divergenceType : DivergenceType) (category : String)
      (cause : HealthCause) (assetId : Option ℕ) (expected observed : Value)
  | state (payload : Value)
  deriving DecidableEq

/-- What it hashes to an `evidence_key`. -/
inductive EvidenceKey where
  | finding (id : ℕ)
  | state (payload : Value)
  deriving DecidableEq

structure Incident where
  id : ℕ
  dedupKey : DedupKey
  bindingId : ℕ
  assetId : Option ℕ
  type : IncidentType
  category : String
  cause : HealthCause
  severity : IncidentSeverity
  status : IncidentLifecycle
  firstDetectedAt : ℤ
  lastDetectedAt : ℤ
  occurrenceCount : ℕ
  latestComparisonRunId : Option String := none
  latestFindingId : Option ℕ := none
  resolvedAt : Option ℤ := none
  resolvedBy : Option String := none
  resolutionNote : Option String := none
  deriving DecidableEq

structure IncidentEvidence where
  id : ℕ
  incidentId : ℕ
  findingId : Option ℕ
  comparisonRunId : Option String
  evidenceKey : EvidenceKey
  observedAt : ℤ
  deriving DecidableEq

structure MonitoringAssessment where
  comparisonRunId : String
  comparisonStatus : ComparisonStatus
  findingCount : ℕ
  processorWorkerId : String
  processedAt : ℤ
  deriving DecidableEq

structure HealthState where
  status : HealthStatus := .unknown
  cause : Option HealthCause := none
  severity : Option IncidentSeverity := none
  lastComparisonAt : Option ℤ := none
  lastCompleteComparisonAt : Option ℤ := none
  lastCompleteWindowEnd : Option ℤ := none
  lastHealthyAt : Option ℤ := none
  lastEvaluatedAt : Option ℤ := none
  consecutiveHealthyChecks : ℕ := 0
  lastError : Option String := none
  deriving DecidableEq

/-- `names` is the first uuid that was not drawn yet. -/
structure MonitoringStore where
  binding : MonitoringBinding
  runs : List ComparisonRun
  findings : List Finding
  incidents : List Incident
  evidence : List IncidentEvidence
  assessments : List MonitoringAssessment
  health : HealthState
  names : ℕ

/-- `unfinished` is a page loop that ran out of fuel. -/
inductive MonitoringError where
  | monitoring (message : String)
  | integrity (constraint : String)
  | unfinished
  deriving DecidableEq, Repr

/-! ### The session -/

/-- The unit of work: what SELECT reads, the incident objects that were changed (the latest state
first), and the objects that were added. -/
structure UnitOfWork where
  db : MonitoringStore
  changed : List Incident := []
  addedIncidents : List Incident := []
  addedEvidence : List IncidentEvidence := []

namespace UnitOfWork

/-- The object the session holds for a row. -/
def object (s : UnitOfWork) (row : Incident) : Incident :=
  (s.changed.find? fun i => i.id = row.id).getD row

/-- `SELECT … FOR UPDATE` of incidents: the condition is evaluated on the rows. -/
def selectIncidents (s : UnitOfWork) (condition : Incident → Bool) : List Incident :=
  (s.db.incidents.filter condition).map s.object

def selectEvidence (s : UnitOfWork) (condition : IncidentEvidence → Bool) : List IncidentEvidence :=
  s.db.evidence.filter condition

def change (s : UnitOfWork) (incident : Incident) : UnitOfWork :=
  { s with changed := incident :: s.changed }

/-- `uuid.uuid4()` -/
def drawn (s : UnitOfWork) : UnitOfWork := { s with db := { s.db with names := s.db.names + 1 } }

def addIncident (s : UnitOfWork) (incident : Incident) : UnitOfWork :=
  { s with addedIncidents := s.addedIncidents ++ [incident] }

def addEvidence (s : UnitOfWork) (evidence : IncidentEvidence) : UnitOfWork :=
  { s with addedEvidence := s.addedEvidence ++ [evidence] }

/-- The flush and the commit: `uq_strategy_incidents_dedup_key`,
`uq_strategy_incident_evidence_key`, `uq_strategy_incident_evidence_finding` and the primary key
of the assessments. -/
def commit (s : UnitOfWork) (assessment : MonitoringAssessment) : Except MonitoringError MonitoringStore :=
  let incidents := s.db.incidents.map s.object ++ s.addedIncidents
  let evidence := s.db.evidence ++ s.addedEvidence
  let assessments := s.db.assessments ++ [assessment]
  if ¬ (incidents.map Incident.dedupKey).Nodup then
    .error (.integrity "uq_strategy_incidents_dedup_key")
  else if ¬ (evidence.map fun e => (e.incidentId, e.evidenceKey)).Nodup then
    .error (.integrity "uq_strategy_incident_evidence_key")
  else if ¬ (evidence.filterMap IncidentEvidence.findingId).Nodup then
    .error (.integrity "uq_strategy_incident_evidence_finding")
  else if ¬ (assessments.map MonitoringAssessment.comparisonRunId).Nodup then
    .error (.integrity "strategy_monitoring_assessments_pkey")
  else .ok { s.db with incidents := incidents, evidence := evidence, assessments := assessments }

end UnitOfWork

/-! ### Aggregation -/

/-- `incident_dedup_key`. -/
def incidentDedupKey (binding : MonitoringBinding) (finding : Finding) (cause : HealthCause) : DedupKey :=
  .finding binding.id binding.referenceRunId binding.policyHash finding.strategyId
    finding.strategyVersionId finding.strategyDefinitionHash finding.divergenceType finding.category
    cause finding.assetId (stableValueDiscriminator finding.expectedValue)
    (stableValueDiscriminator finding.observedValue)

/-- The incident that a first finding opens. -/
def openIncident (binding : MonitoringBinding) (run : ComparisonRun) (finding : Finding)
    (cause : HealthCause) (id : ℕ) (now : ℤ) : Incident :=
  { id := id, dedupKey := incidentDedupKey binding finding cause, bindingId := binding.id
    assetId := finding.assetId, type := .divergence finding.divergenceType
    category := finding.category, cause := cause
    severity := maxSeverity (binding.policy.severityFor cause 1 Nat.one_pos) finding.severity
    status := .open, firstDetectedAt := now, lastDetectedAt := now, occurrenceCount := 1
    latestComparisonRunId := some run.runId, latestFindingId := some finding.id }

theorem recurrence_counted (incident : Incident) : 1 ≤ incident.occurrenceCount + 1 :=
  Nat.succ_pos _

/-- What a further finding makes of its incident. -/
def recurIncident (binding : MonitoringBinding) (run : ComparisonRun) (finding : Finding)
    (cause : HealthCause) (incident : Incident) (now : ℤ) : Incident :=
  let occurrenceCount := incident.occurrenceCount + 1
  let policySeverity := binding.policy.severityFor cause occurrenceCount (recurrence_counted incident)
  let updated := { incident with
    occurrenceCount := occurrenceCount
    lastDetectedAt := max incident.lastDetectedAt now
    severity := maxSeverity (maxSeverity incident.severity policySeverity) finding.severity
    latestComparisonRunId := some run.runId
    latestFindingId := some finding.id }
  if incident.status = .resolved then
    { updated with status := .open, resolvedAt := none, resolvedBy := none, resolutionNote := none }
  else updated

/-- `_record_finding`, `strategy_monitoring.py:1104-1218`. -/
def recordFinding (run : ComparisonRun) (now : ℤ) (s : UnitOfWork) (finding : Finding) :
    Except MonitoringError ((HealthCause × IncidentSeverity) × UnitOfWork) :=
  let binding := s.db.binding
  let cause := causeForDivergence finding.divergenceType
  match (s.selectEvidence fun e => e.findingId = some finding.id).head? with
  | some existing =>
    match (s.selectIncidents fun i => i.id = existing.incidentId).head? with
    | none => .error (.monitoring "incident evidence references a missing incident")
    | some incident => .ok ((cause, incident.severity), s)
  | none =>
    let key := incidentDedupKey binding finding cause
    let found := (s.selectIncidents fun i => i.dedupKey = key).head?
    let (incident, s) := match found with
      | none =>
        let incident := openIncident binding run finding cause s.db.names now
        (incident, s.drawn.addIncident incident)
      | some old =>
        let incident := recurIncident binding run finding cause old now
        (incident, s.change incident)
    let evidence : IncidentEvidence :=
      { id := s.db.names, incidentId := incident.id, findingId := some finding.id
        comparisonRunId := some run.runId, evidenceKey := .finding finding.id, observedAt := now }
    .ok ((cause, incident.severity), s.drawn.addEvidence evidence)

/-- The local variables of the page loop. -/
structure Scan where
  session : UnitOfWork
  findingCount : ℕ := 0
  projection : Option (HealthCause × IncidentSeverity) := none
  knownProjection : Option (HealthCause × IncidentSeverity) := none
  renewals : ℕ := 0

/-- The body of the loop over the findings of a page. -/
def scanFinding (run : ComparisonRun) (now : ℤ) (s : Scan) (finding : Finding) :
    Except MonitoringError Scan := do
  let (classification, session) ← recordFinding run now s.session finding
  pure { s with
    session := session
    findingCount := s.findingCount + 1
    projection := some (moreActionableProjection s.projection classification)
    knownProjection :=
      if classification.1 = .reference then s.knownProjection
      else some (moreActionableProjection s.knownProjection classification) }

/-- `binding.lease_expires_at = …` -/
def UnitOfWork.renewLease (s : UnitOfWork) (expiry : ℤ) : UnitOfWork :=
  { s with db := { s.db with binding := { s.db.binding with leaseExpiresAt := expiry } } }

/-- `STRATEGY_MONITORING_FINDING_PAGE_SIZE`, `STRATEGY_MONITORING_BINDING_LEASE_SECONDS`, and the
clock: `clock n` is the `n`-th reading of `_now()`. -/
structure MonitoringSettings where
  findingPageSize : ℕ := 1000
  bindingLeaseSeconds : ℕ := 300
  clock : ℕ → ℤ
  positive : 0 < findingPageSize := by decide

/-- One page: its findings, then the renewal of the lease. -/
def scanPage (settings : MonitoringSettings) (run : ComparisonRun) (now : ℤ) (s : Scan)
    (page : List Finding) : Except MonitoringError Scan := do
  let s ← page.foldlM (scanFinding run now) s
  let expiry := settings.clock (s.renewals + 1) + settings.bindingLeaseSeconds * second
  pure { s with session := s.session.renewLease expiry, renewals := s.renewals + 1 }

/-- The order of the pages. -/
def Finding.pageKey (f : Finding) : ℤ ×ₗ ℕ := toLex (f.createdAt, f.id)

/-- The findings of a run in page order. -/
def MonitoringStore.findingsOf (d : MonitoringStore) (runId : String) : List Finding :=
  (d.findings.filter fun f => f.comparisonRunId = runId).insertionSort
    fun f g => f.pageKey ≤ g.pageKey

def setUnknown (h : HealthState) : HealthState :=
  { h with status := .unknown, cause := none, severity := none, consecutiveHealthyChecks := 0 }

def setHealthy (h : HealthState) : HealthState :=
  { h with status := .healthy, cause := none, severity := none }

def setHealth (h : HealthState) (status : HealthStatus) (cause : HealthCause)
    (severity : IncidentSeverity) : HealthState :=
  { h with
    status := status, cause := some cause, severity := some severity, consecutiveHealthyChecks := 0 }

/-- `_set_divergent_health`. -/
def setDivergentHealth (h : HealthState) (classifications : List (HealthCause × IncidentSeverity)) :
    HealthState :=
  match classifications with
  | [] => setUnknown h
  | first :: rest =>
    let worst := rest.foldl (fun current c => if projectionLt current c then c else current) first
    let status : HealthStatus :=
      if worst.1 = .strategyFailure ∨ worst.1 = .runtime then .error else .degraded
    setHealth h status worst.1 worst.2

/-- `_unresolved_incidents(binding.id, include_stale=False)`. -/
def UnitOfWork.unresolvedIncidents (s : UnitOfWork) : List Incident :=
  s.selectIncidents fun i => i.bindingId = s.db.binding.id &&
    (i.status = .open || i.status = .acknowledged) && i.type ≠ .staleStrategyState

/-- An incident that recovery resolves after some healthy checks. -/
def resolveIncident (checks : ℕ) (now : ℤ) (incident : Incident) : Incident :=
  { incident with
    status := .resolved
    resolvedAt := some now
    resolvedBy := some "strategy-monitoring-recovery"
    resolutionNote := some s!"Resolved after {checks} complete healthy comparison check(s)." }

/-- `_record_healthy_comparison`, `strategy_monitoring.py:1220-1258`. -/
def recordHealthyComparison (s : UnitOfWork) (h : HealthState) (now : ℤ) : UnitOfWork × HealthState :=
  let checks := h.consecutiveHealthyChecks + 1
  let h := { h with consecutiveHealthyChecks := checks, lastHealthyAt := some now, lastError := none }
  let unresolved := s.unresolvedIncidents
  if checks < s.db.binding.policy.recoveryHealthyChecks then
    match unresolved with
    | [] => (s, setHealthy h)
    | _ =>
      let h := setDivergentHealth h (unresolved.map fun i => (i.cause, i.severity))
      (s, { h with consecutiveHealthyChecks := checks })
  else
    (unresolved.foldl (fun s i => s.change (resolveIncident checks now i)) s, setHealthy h)

/-- The window of the run is not behind the last complete one. -/
def currentWindow (h : HealthState) (run : ComparisonRun) : Bool :=
  match h.lastCompleteWindowEnd with
  | none => true
  | some windowEnd => windowEnd ≤ run.windowEnd

/-- The checks of the status against the findings, and the health projection. -/
def projectHealth (run : ComparisonRun) (now : ℤ) (s : Scan) :
    Except MonitoringError (UnitOfWork × HealthState) :=
  let h := { s.session.db.health with lastComparisonAt := some now }
  let complete := { h with
    lastCompleteComparisonAt := some now, lastCompleteWindowEnd := some run.windowEnd }
  match run.status with
  | .healthy =>
    if s.findingCount ≠ 0 then
      .error (.monitoring "healthy comparison cannot contain divergence findings")
    else if !currentWindow h run then .ok (s.session, h)
    else .ok (recordHealthyComparison s.session complete now)
  | .insufficientReference =>
    if !currentWindow h run then .ok (s.session, h)
    else
      let h := match s.knownProjection with
        | none => setUnknown h
        | some p => setDivergentHealth h [p]
      .ok (s.session, { h with lastError := some "comparison coverage is incomplete" })
  | .divergent =>
    match s.projection with
    | none => .error (.monitoring "divergent comparison must contain at least one finding")
    | some p =>
      if !currentWindow h run then .ok (s.session, h)
      else .ok (s.session, setDivergentHealth complete [p])

/-- `_process_comparison_run`, `strategy_monitoring.py:980-1102`, and the commit of its
transaction. -/
def processComparisonRun (settings : MonitoringSettings) (workerId : String) (d : MonitoringStore)
    (run : ComparisonRun) : Except MonitoringError MonitoringStore := do
  if run.activationId ≠ d.binding.activationId then
    throw (.monitoring "comparison run does not belong to the monitoring binding activation")
  if run.referenceRunId ≠ d.binding.referenceRunId then
    throw (.monitoring "comparison run does not belong to the monitoring binding reference")
  if run.policyHash ≠ d.binding.comparisonPolicyHash then
    throw (.monitoring "comparison run does not use the binding's explicit comparison policy")
  let now := settings.clock 0
  let findings := d.findingsOf run.runId
  match forPages Finding.pageKey (scanPage settings run now) findings settings.findingPageSize
      (findings.length + 1) none { session := { db := d } } with
  | none => throw .unfinished
  | some (.error e) => throw e
  | some (.ok scan) =>
    let (session, health) ← projectHealth run now scan
    let assessment : MonitoringAssessment :=
      { comparisonRunId := run.runId, comparisonStatus := run.status
        findingCount := scan.findingCount, processorWorkerId := workerId, processedAt := now }
    { session with db := { session.db with health := health } }.commit assessment

/-- `_next_pending_comparison`. -/
def nextPendingComparison (d : MonitoringStore) : Option ComparisonRun :=
  ((d.runs.filter fun r => r.activationId = d.binding.activationId &&
    r.referenceRunId = d.binding.referenceRunId && r.policyHash = d.binding.comparisonPolicyHash &&
    !d.assessments.any fun a => a.comparisonRunId = r.runId).insertionSort
      fun r s => toLex (r.windowEnd, toLex (r.createdAt, r.runId)) ≤
        toLex (s.windowEnd, toLex (s.createdAt, s.runId))).head?

end Quantive.Monitoring
