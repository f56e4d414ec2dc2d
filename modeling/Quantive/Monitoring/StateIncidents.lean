import Quantive.LiveStrategy.Service
import Quantive.Monitoring.Grouping

/-!
# Incidents about the binding itself

What the monitor records without a comparison run: a runtime failure, an evaluator that
stopped, comparison evidence that got too old. Each has one incident for the binding, and an
evidence row for every new observation of it. The status of the binding, which decides who
may claim it, is not part of the store.
-/

namespace Quantive.Monitoring
open LiveStrategy (LiveStrategyActivation LiveStrategyActivationStatus)

/-- The values of `LiveStrategyActivationStatus`. -/
def statusValue : LiveStrategyActivationStatus → String
  | .active => "active"
  | .deactivated => "deactivated"
  | .error => "error"

/-- An observation about the binding: the payloads of its two keys and the severity of its `n`-th
occurrence. -/
structure StateFinding where
  key : Value
  evidenceKey : Value
  type : IncidentType
  category : String
  cause : HealthCause
  severityFor : (n : ℕ) → 1 ≤ n → IncidentSeverity

namespace StateFinding

def openIncident (f : StateFinding) (bindingId id : ℕ) (now : ℤ) : Incident :=
  { id := id, dedupKey := .state f.key, bindingId := bindingId, assetId := none, type := f.type
    category := f.category, cause := f.cause, severity := f.severityFor 1 Nat.one_pos
    status := .open, firstDetectedAt := now, lastDetectedAt := now, occurrenceCount := 1 }

/-- A further observation reopens a resolved incident. -/
def recurIncident (f : StateFinding) (incident : Incident) (now : ℤ) : Incident :=
  let occurrenceCount := incident.occurrenceCount + 1
  let updated := { incident with
    occurrenceCount := occurrenceCount
    lastDetectedAt := now
    severity := maxSeverity incident.severity (f.severityFor occurrenceCount (recurrence_counted incident)) }
  if incident.status = .resolved then
    { updated with status := .open, resolvedAt := none, resolvedBy := none, resolutionNote := none }
  else updated

def evidence (f : StateFinding) (id incidentId : ℕ) (now : ℤ) : IncidentEvidence :=
  { id := id, incidentId := incidentId, findingId := none, comparisonRunId := none
    evidenceKey := .state f.evidenceKey, observedAt := now }

end StateFinding

/-- The common part of `_record_activation_runtime_failure`, `_record_stale_state` and
`_record_stale_comparison_evidence`: an observation whose evidence is there changes nothing. -/
def recordState (f : StateFinding) (now : ℤ) (s : UnitOfWork) : IncidentSeverity × UnitOfWork :=
  match (s.selectIncidents fun i => i.dedupKey = .state f.key).head? with
  | none =>
    let incident := f.openIncident s.db.binding.id s.db.names now
    let s := s.drawn.addIncident incident
    (incident.severity, s.drawn.addEvidence (f.evidence s.db.names incident.id now))
  | some old =>
    if (s.selectEvidence fun e =>
        e.incidentId = old.id && e.evidenceKey = .state f.evidenceKey) ≠ [] then (old.severity, s)
    else
      let incident := f.recurIncident old now
      let s := s.change incident
      (incident.severity, s.drawn.addEvidence (f.evidence s.db.names incident.id now))

/-- The health row of the session. -/
def UnitOfWork.project (s : UnitOfWork) (h : HealthState) : UnitOfWork :=
  { s with db := { s.db with health := h } }

/-- The rows that the flush writes. -/
def UnitOfWork.written (s : UnitOfWork) : MonitoringStore :=
  { s.db with
    incidents := s.db.incidents.map s.object ++ s.addedIncidents
    evidence := s.db.evidence ++ s.addedEvidence }

/-- The commit of a transaction that assesses no run. -/
def UnitOfWork.commitStates (s : UnitOfWork) : Except MonitoringError MonitoringStore :=
  if ¬ (s.written.incidents.map Incident.dedupKey).Nodup then
    .error (.integrity "uq_strategy_incidents_dedup_key")
  else if ¬ (s.written.evidence.map fun e => (e.incidentId, e.evidenceKey)).Nodup then
    .error (.integrity "uq_strategy_incident_evidence_key")
  else .ok s.written

/-! ### Runtime failures -/

/-- `text or default`: an empty text is false. -/
def orText (text : Option String) (default : String) : String :=
  match text with
  | none => default
  | some t => if t = "" then default else t

/-- `policy.severity_for(RUNTIME, n)`, or the fallback where the stored policy is corrupt. -/
def runtimeSeverity (policy : Option MonitoringPolicy) (fallbackSeverity : Option IncidentSeverity)
    (n : ℕ) (hn : 1 ≤ n) : IncidentSeverity :=
  match policy with
  | some policy => policy.severityFor .runtime n hn
  | none => fallbackSeverity.getD .critical

def evaluatorFailureKey (binding : MonitoringBinding) : Value :=
  [("binding_id", toString binding.id), ("reference_run_id", binding.referenceRunId),
    ("policy_hash", binding.policyHash), ("divergence_type", "evaluator_failure"),
    ("category", "runtime_state"), ("activation_id", toString binding.activationId)]

def runtimeStateKey (binding : MonitoringBinding) (statusLabel lastError : String) : Value :=
  [("binding_id", toString binding.id), ("kind", "runtime_state"),
    ("activation_status", statusLabel), ("last_error", lastError)]

def runtimeFailure (binding : MonitoringBinding) (policy : Option MonitoringPolicy)
    (fallbackSeverity : Option IncidentSeverity) (statusLabel lastError : String) : StateFinding where
  key := evaluatorFailureKey binding
  evidenceKey := runtimeStateKey binding statusLabel lastError
  type := .divergence .evaluatorFailure
  category := "runtime_state"
  cause := .runtime
  severityFor := runtimeSeverity policy fallbackSeverity

/-- `health.last_error` after a runtime failure. -/
def failureText (activation : LiveStrategyActivation) (errorMessage : Option String) : String :=
  orText errorMessage (orText activation.lastError "live strategy activation entered error state")

/-- `runtime_status or activation.status` -/
def failureLabel (activation : LiveStrategyActivation) (runtimeStatus : Option String) : String :=
  orText runtimeStatus (statusValue activation.status)

/-- `_record_activation_runtime_failure`, `strategy_monitoring.py:670-793`. -/
def recordActivationRuntimeFailure (activation : LiveStrategyActivation)
    (policy : Option MonitoringPolicy) (errorMessage runtimeStatus : Option String)
    (fallbackSeverity : Option IncidentSeverity) (now : ℤ) (s : UnitOfWork) : UnitOfWork :=
  let lastError := failureText activation errorMessage
  let h := setHealth s.db.health .error .runtime
    (runtimeSeverity policy fallbackSeverity 1 (Nat.le_refl 1))
  (recordState (runtimeFailure s.db.binding policy fallbackSeverity
    (failureLabel activation runtimeStatus) lastError) now
    (s.project { h with lastError := some lastError })).2

/-- `_record_binding_error`, `strategy_monitoring.py:636-668`, and its commit; `error` is
`str(error)[:2000]` and `policy` what `_validated_policy` returns. -/
def recordBindingError (activation : LiveStrategyActivation) (policy : Option MonitoringPolicy)
    (error : String) (now : ℤ) (d : MonitoringStore) : Except MonitoringError MonitoringStore :=
  let severity := runtimeSeverity policy none 1 (Nat.le_refl 1)
  let h := { setHealth d.health .error .runtime severity with lastError := some error }
  (recordActivationRuntimeFailure activation policy (some error) (some "monitoring_error")
    (some severity) now { db := { d with health := h } }).commitStates

/-! ### Staleness -/

/-- The text of `_iso`. -/
def isoText : Option ℤ → String
  | none => "null"
  | some t => toString t

def staleState (binding : MonitoringBinding) (baseline : ℤ) : StateFinding where
  key := [("binding_id", toString binding.id), ("reference_run_id", binding.referenceRunId),
    ("policy_hash", binding.policyHash), ("divergence_type", "stale_strategy_state"),
    ("category", "runtime_state")]
  evidenceKey := [("binding_id", toString binding.id), ("kind", "stale_strategy_state"),
    ("last_evaluated_at", isoText (some baseline))]
  type := .staleStrategyState
  category := "runtime_state"
  cause := .runtime
  severityFor := binding.policy.severityFor .runtime

def staleComparisonEvidence (binding : MonitoringBinding) (baseline : ℤ)
    (latestWindowEnd : Option ℤ) : StateFinding where
  key := [("binding_id", toString binding.id), ("reference_run_id", binding.referenceRunId),
    ("comparison_policy_hash", binding.comparisonPolicyHash),
    ("monitoring_policy_hash", binding.policyHash),
    ("divergence_type", "stale_comparison_evidence"), ("category", "coverage")]
  evidenceKey := [("binding_id", toString binding.id), ("kind", "stale_comparison_evidence"),
    ("last_complete_comparison_at", isoText (some baseline)),
    ("last_complete_window_end", isoText latestWindowEnd)]
  type := .staleComparisonEvidence
  category := "coverage"
  cause := .reference
  severityFor := binding.policy.severityFor .reference

def closeStale (note : String) (now : ℤ) (incident : Incident) : Incident :=
  { incident with
    status := .resolved
    resolvedAt := some now
    resolvedBy := some "strategy-monitoring-recovery"
    resolutionNote := some note }

/-- `_recover_stale_state` and `_recover_stale_comparison_evidence`. -/
def recoverStale (type : IncidentType) (note : String) (now : ℤ) (s : UnitOfWork) : UnitOfWork :=
  (s.selectIncidents fun i => i.bindingId = s.db.binding.id && i.type = type &&
    (i.status = .open || i.status = .acknowledged)).foldl
      (fun s i => s.change (closeStale note now i)) s

/-- `_evaluate_staleness`, `strategy_monitoring.py:1256-1290`. -/
def evaluateStaleness (activation : LiveStrategyActivation) (now : ℤ) (s : UnitOfWork) : UnitOfWork :=
  let s := s.project { s.db.health with lastEvaluatedAt := activation.lastEvaluatedAt }
  let baseline := activation.lastEvaluatedAt.getD activation.activatedAt
  if s.db.binding.policy.staleAfterSeconds * second ≤ now - baseline then
    let (severity, s) := recordState (staleState s.db.binding baseline) now s
    s.project { setHealth s.db.health .stale .runtime severity with
      lastError := some
        "live strategy runtime has not evaluated canonical data within the configured stale threshold" }
  else
    let s := recoverStale .staleStrategyState
      "Live evaluator resumed within the configured stale threshold." now s
    if s.db.health.status = .stale then
      s.project { setUnknown s.db.health with lastError := none }
    else s

/-- `_evaluate_comparison_freshness`, `strategy_monitoring.py:1292-1333`. -/
def evaluateComparisonFreshness (now : ℤ) (s : UnitOfWork) : UnitOfWork :=
  let baseline := s.db.health.lastCompleteComparisonAt.getD s.db.binding.registeredAt
  if s.db.binding.policy.comparisonStaleAfterSeconds * second ≤ now - baseline then
    let (severity, s) := recordState
      (staleComparisonEvidence s.db.binding baseline s.db.health.lastCompleteWindowEnd) now s
    let current := match s.db.health.cause, s.db.health.severity with
      | some cause, some severity => some (cause, severity)
      | _, _ => none
    let h := setDivergentHealth s.db.health [moreActionableProjection current (.reference, severity)]
    s.project { h with lastError := some (h.lastError.getD
      "no complete comparison evidence exists within the configured freshness threshold") }
  else
    recoverStale .staleComparisonEvidence
      "Complete comparison evidence resumed within the configured threshold." now s

/-! ### The transactions of a cycle -/

/-- What both transactions of a cycle do with an activation that is not active. -/
def unlessActive (activation : LiveStrategyActivation) (now : ℤ) (d : MonitoringStore)
    (act : Except MonitoringError MonitoringStore) : Except MonitoringError MonitoringStore :=
  match activation.status with
  | .error => (recordActivationRuntimeFailure activation (some d.binding.policy) none none none now
      { db := d }).commitStates
  | .deactivated => (UnitOfWork.project { db := d } (setUnknown d.health)).commitStates
  | .active => act

/-- `_process_one_comparison`, `strategy_monitoring.py:555-594`. -/
def processOneComparison (settings : MonitoringSettings) (workerId : String)
    (activation : LiveStrategyActivation) (now : ℤ) (d : MonitoringStore) :
    Except MonitoringError MonitoringStore :=
  unlessActive activation now d <|
    match nextPendingComparison d with
    | none => .ok d
    | some run => processComparisonRun settings workerId d run

/-- `_finalize_binding_cycle`, `strategy_monitoring.py:596-634`; the two readings of the clock. -/
def finalizeBindingCycle (activation : LiveStrategyActivation) (now now' : ℤ) (d : MonitoringStore) :
    Except MonitoringError MonitoringStore :=
  unlessActive activation now d <|
    (evaluateStaleness activation now'
      (evaluateComparisonFreshness now { db := d })).commitStates

end Quantive.Monitoring
