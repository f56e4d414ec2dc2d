import Quantive.Monitoring.Tables

/-!
# Monitoring sessions

`StrategyMonitoringService` and `StrategyComparisonProducerService` as sessions over the monitoring
tables. Every SELECT reads the tables anew, FOR UPDATE locks the rows that it returns, and what the
ORM objects of a transaction come to is written by the flush at its end. The pure functions of the
other modules compute on what the SELECTs have returned.
-/

namespace Quantive.Monitoring
open Quantive.ReadCommitted Prog
open LiveStrategy (LiveStrategyActivation)

namespace MonitoringTask

def now : MonitoringTask ℤ := query MonitoringQuestion.now

def fault : MonitoringTask Bool := query MonitoringQuestion.fault

def service (message : String) : MonitoringFailure := .service (.monitoring message)

/-- An exception of the pure functions. -/
def ofExcept {α : Type} : Except MonitoringError α → MonitoringTask α
  | .ok a => pure a
  | .error e => raise (.service e)

/-- `async with self.db.begin()`: the database may fail before the transaction has an effect, and
its commit may take effect and still raise. -/
def inTransaction {α : Type} (body : MonitoringTask α) : MonitoringTask α := do
  if ← fault then raise .unavailable
  else
    let result ← transaction body
    if ← fault then raise .unavailable
    else pure result

/-- `SELECT … FOR UPDATE` of the row that a key names; `none` where there is none that fits. -/
def lockRow {ρ : Type} (lock : MonitoringLock) (row : MonitoringDatabase → Option ρ) :
    MonitoringTask (Option ρ) := lockMatching lock row

/-- `SELECT … FOR UPDATE` of incidents: the rows of the snapshot that still fit once they are
locked. -/
def lockIncidents (condition : Incident → Bool) : MonitoringTask (List Incident) := do
  let snapshot ← view
  let found := snapshot.incidents.filter condition
  forEach (fun row => acquire (.incident row.id)) found
  let d ← view
  pure (d.incidents.filter fun row => condition row && found.any fun i => i.id = row.id)

/-- `SELECT … FOR UPDATE` of evidence, whose rows never change. -/
def lockEvidence (condition : IncidentEvidence → Bool) : MonitoringTask (List IncidentEvidence) := do
  let d ← view
  let found := d.evidence.filter condition
  forEach (fun e => acquire (.evidence e.id)) found
  pure found

end MonitoringTask
open MonitoringTask

/-! ### Claims -/

def leaseSeconds (settings : MonitoringSettings) : ℤ := settings.bindingLeaseSeconds * second

/-- The condition under which `_claim_binding` takes a binding: the deadline of a lease is exclusive. -/
def StrategyMonitoringBinding.claimable (now : ℤ) (row : StrategyMonitoringBinding) : Bool :=
  row.status = .active && row.lease.all fun lease => lease.expiresAt ≤ now

/-- `_claim_binding` -/
def claimBinding (settings : MonitoringSettings) (bindingId : ℕ) (workerId : String) :
    MonitoringTask (Option BindingClaim) := do
  let now ← now
  let token ← draw
  inTransaction do
    let found ← lockFirst MonitoringLock.binding
      (fun d id => (d.binding id).filter (StrategyMonitoringBinding.claimable now)) [bindingId]
    match found with
    | none => pure none
    | some (_, row) =>
      emit (.putBinding { row with
        lease := some ⟨workerId, token, now + leaseSeconds settings⟩
        claimAttemptCount := row.claimAttemptCount + 1 })
      pure (some ⟨bindingId, row.binding.activationId, token, workerId⟩)

/-- The lease of the row is the one of the claim. -/
def BindingClaim.holds (claim : BindingClaim) (row : StrategyMonitoringBinding) : Bool :=
  row.lease.any fun lease => lease.token = claim.token && lease.workerId = claim.workerId

/-- The conditions of `_owned_binding` and `_renew_claim`. -/
def BindingClaim.owns (claim : BindingClaim) (now : ℤ) (row : StrategyMonitoringBinding) : Bool :=
  row.status = .active && claim.holds row && row.lease.any fun lease => now < lease.expiresAt

/-- `_release_claim`; its exceptions are logged. -/
def releaseClaim (claim : BindingClaim) : MonitoringTask Unit := do
  let release : MonitoringTask Unit := inTransaction do
    let found ← lockRow (.binding claim.bindingId) fun d =>
      (d.binding claim.bindingId).filter fun row => row.lease.any fun lease => lease.token = claim.token
    match found with
    | none => pure ()
    | some row => emit (.putBinding { row with lease := none })
  let _ ← release.attempt
  pure ()

/-- `_renew_claim` -/
def renewClaim (settings : MonitoringSettings) (claim : BindingClaim) : MonitoringTask Bool := do
  let now ← now
  let renew : MonitoringTask Bool := inTransaction do
    let found ← lockRow (.binding claim.bindingId) fun d =>
      (d.binding claim.bindingId).filter (claim.owns now)
    match found with
    | none => pure false
    | some row =>
      emit (.putBinding { row with
        lease := row.lease.map fun lease => { lease with expiresAt := now + leaseSeconds settings } })
      pure true
  match ← renew.attempt with
  | .ok renewed => pure renewed
  | .error _ => pure false

def lockedActivation (id : ℕ) : MonitoringTask (Option LiveStrategyActivation) :=
  lockRow (.activation id) fun d => d.activations id

/-- `_owned_binding` skips a locked row. -/
def ownedBinding (claim : BindingClaim) : MonitoringTask (Option StrategyMonitoringBinding) := do
  let now ← now
  let found ← lockFirst MonitoringLock.binding (fun d id => (d.binding id).filter (claim.owns now))
    [claim.bindingId]
  pure (found.map Prod.snd)

/-! ### The unit of work -/

/-- The objects of a transaction on a claimed binding: its row, and the unit of work with what its
last SELECTs returned. -/
structure BindingWork where
  claim : BindingClaim
  row : StrategyMonitoringBinding
  session : UnitOfWork

namespace BindingWork

def start (claim : BindingClaim) (row : StrategyMonitoringBinding) (health : HealthState) : BindingWork where
  claim := claim
  row := row
  session := { db :=
    { binding := { row.binding with leaseExpiresAt := (row.lease.map BindingLease.expiresAt).getD 0 }
      runs := [], findings := [], incidents := [], evidence := [], assessments := []
      health := health, names := 0 } }

/-- What a SELECT of incidents and of evidence returned; `name` is drawn for two uuids. -/
def selected (incidents : List Incident) (evidence : List IncidentEvidence) (name : ℕ)
    (w : BindingWork) : BindingWork :=
  { w with session := { w.session with db := { w.session.db with
    incidents := incidents, evidence := evidence, names := 2 * name } } }

def onSession (f : UnitOfWork → UnitOfWork) (w : BindingWork) : BindingWork :=
  { w with session := f w.session }

def onRow (f : StrategyMonitoringBinding → StrategyMonitoringBinding) (w : BindingWork) : BindingWork :=
  { w with row := f w.row }

/-- The binding row that the flush writes. -/
def written (w : BindingWork) : StrategyMonitoringBinding :=
  { w.row with lease := w.row.lease.map fun lease =>
    { lease with expiresAt := w.session.db.binding.leaseExpiresAt } }

end BindingWork

/-- The INSERT of an incident waits for a transaction that inserts its key. -/
def insertIncident (incident : Incident) : MonitoringTask Unit := do
  acquire (.dedupKey incident.dedupKey)
  let d ← view
  if d.incidents.any fun i => i.dedupKey = incident.dedupKey then
    raise (.service (.integrity "uq_strategy_incidents_dedup_key"))
  else emit (.addIncident incident)

/-- The INSERT of an evidence row. -/
def insertEvidence (evidence : IncidentEvidence) : MonitoringTask Unit := do
  acquire (.evidenceKey evidence.incidentId evidence.evidenceKey)
  forEach (fun id => acquire (.findingEvidence id)) evidence.findingId.toList
  let d ← view
  if d.evidence.any fun e =>
      e.incidentId = evidence.incidentId && e.evidenceKey = evidence.evidenceKey then
    raise (.service (.integrity "uq_strategy_incident_evidence_key"))
  else if evidence.findingId.isSome && d.evidence.any fun e => e.findingId = evidence.findingId then
    raise (.service (.integrity "uq_strategy_incident_evidence_finding"))
  else emit (.addEvidence evidence)

def insertAssessment (assessment : MonitoringAssessment) : MonitoringTask Unit := do
  acquire (.assessment assessment.comparisonRunId)
  let d ← view
  if d.assessments.any fun a => a.comparisonRunId = assessment.comparisonRunId then
    raise (.service (.integrity "strategy_monitoring_assessments_pkey"))
  else emit (.addAssessment assessment)

/-- The flush of a transaction on a claimed binding. -/
def flush (w : BindingWork) (assessment : Option MonitoringAssessment) : MonitoringTask Unit := do
  emit (.note w.claim)
  forEach insertIncident w.session.addedIncidents
  forEach (fun incident => emit (.putIncident incident)) w.session.changed.reverse
  forEach insertAssessment assessment.toList
  forEach insertEvidence w.session.addedEvidence
  emit (.putHealth w.row.binding.activationId ⟨w.row.binding.id, w.session.db.health⟩)
  emit (.putBinding w.written)

/-- `_health_state` -/
def healthState (row : StrategyMonitoringBinding) : MonitoringTask HealthState := do
  let found ← lockRow (.health row.binding.activationId) fun d => d.health row.binding.activationId
  match found with
  | some state =>
    if state.bindingId = row.binding.id then pure state.health else pure (setUnknown state.health)
  | none =>
    acquire (.health row.binding.activationId)
    let d ← view
    if (d.health row.binding.activationId).isSome then
      raise (.service (.integrity "strategy_health_states_pkey"))
    else
      emit (.putHealth row.binding.activationId ⟨row.binding.id, {}⟩)
      pure {}

/-! ### Observations about the binding -/

/-- The SELECTs of `_record_activation_runtime_failure`, `_record_stale_state` and
`_record_stale_comparison_evidence`, and what they record. -/
def selectState (key evidenceKey : Value) (w : BindingWork) : MonitoringTask BindingWork := do
  let incidents ← lockIncidents fun i => i.dedupKey = .state key
  let evidence ← lockEvidence fun e =>
    incidents.any (fun i => i.id = e.incidentId) && e.evidenceKey = .state evidenceKey
  let name ← draw
  pure (w.selected incidents evidence name)

/-- `_record_activation_runtime_failure` -/
def recordRuntimeFailure (activation : LiveStrategyActivation) (policy : Option MonitoringPolicy)
    (errorMessage runtimeStatus : Option String) (fallbackSeverity : Option IncidentSeverity)
    (w : BindingWork) : MonitoringTask BindingWork := do
  let now ← now
  let w ← selectState (evaluatorFailureKey w.session.db.binding) (runtimeStateKey w.session.db.binding
    (failureLabel activation runtimeStatus) (failureText activation errorMessage)) w
  pure (w.onSession (recordActivationRuntimeFailure activation policy errorMessage runtimeStatus
    fallbackSeverity now))

/-- The incidents of the binding that the recoveries select. -/
def staleIncident (type : IncidentType) (bindingId : ℕ) (i : Incident) : Bool :=
  i.bindingId = bindingId && i.type = type && (i.status = .open || i.status = .acknowledged)

/-- `_evaluate_comparison_freshness` -/
def checkComparisonFreshness (w : BindingWork) : MonitoringTask BindingWork := do
  let now ← now
  let binding := w.session.db.binding
  let health := w.session.db.health
  let baseline := health.lastCompleteComparisonAt.getD binding.registeredAt
  let w ← if binding.policy.comparisonStaleAfterSeconds * second ≤ now - baseline then
      let f := staleComparisonEvidence binding baseline health.lastCompleteWindowEnd
      selectState f.key f.evidenceKey w
    else do
      let incidents ← lockIncidents (staleIncident .staleComparisonEvidence binding.id)
      pure (w.selected incidents [] 0)
  pure (w.onSession (evaluateComparisonFreshness now))

/-- `_evaluate_staleness` -/
def checkStaleness (activation : LiveStrategyActivation) (w : BindingWork) : MonitoringTask BindingWork := do
  let now ← now
  let binding := w.session.db.binding
  let baseline := activation.lastEvaluatedAt.getD activation.activatedAt
  let w ← if binding.policy.staleAfterSeconds * second ≤ now - baseline then
      let f := staleState binding baseline
      selectState f.key f.evidenceKey w
    else do
      let incidents ← lockIncidents (staleIncident .staleStrategyState binding.id)
      pure (w.selected incidents [] 0)
  pure (w.onSession (evaluateStaleness activation now))

/-! ### Assessments -/

/-- The SELECTs of `_record_finding`. -/
def selectFinding (finding : Finding) (w : BindingWork) : MonitoringTask BindingWork := do
  let evidence ← lockEvidence fun e => e.findingId = some finding.id
  let incidents ← lockIncidents (match evidence.head? with
    | some existing => fun i => i.id = existing.incidentId
    | none => fun i => i.dedupKey =
      incidentDedupKey w.session.db.binding finding (causeForDivergence finding.divergenceType))
  let name ← draw
  pure (w.selected incidents evidence name)

/-- A transaction that processes a run: its objects and the local variables of the page loop. -/
structure Assessing where
  work : BindingWork
  findingCount : ℕ := 0
  projection : Option (HealthCause × IncidentSeverity) := none
  knownProjection : Option (HealthCause × IncidentSeverity) := none

namespace Assessing

def scan (a : Assessing) : Scan where
  session := a.work.session
  findingCount := a.findingCount
  projection := a.projection
  knownProjection := a.knownProjection

def ofScan (w : BindingWork) (scan : Scan) : Assessing where
  work := { w with session := scan.session }
  findingCount := scan.findingCount
  projection := scan.projection
  knownProjection := scan.knownProjection

end Assessing

/-- The loop over the findings of a page. -/
def processFindings (run : ComparisonRun) (now : ℤ) : List Finding → Assessing → MonitoringTask Assessing
  | [], a => pure a
  | finding :: findings, a => do
    let w ← selectFinding finding a.work
    let scan ← ofExcept (scanFinding run now { a with work := w }.scan finding)
    processFindings run now findings (.ofScan w scan)

/-- The loop over the pages: a SELECT for each, and a lease renewed ahead of the commit. -/
def processPages (settings : MonitoringSettings) (run : ComparisonRun) (now : ℤ) :
    ℕ → Option (ℤ ×ₗ ℕ) → Assessing → MonitoringTask Assessing
  | 0, _, _ => raise (.service .unfinished)
  | fuel + 1, cursor, a => do
    let d ← view
    let findings := (d.storeOf a.work.session.db.binding).findingsOf run.runId
    let page := (afterCursor Finding.pageKey findings cursor).take settings.findingPageSize
    match page.getLast? with
    | none => pure a
    | some last =>
      let a ← processFindings run now page a
      let renewedAt ← MonitoringTask.now
      let a := { a with
        work := a.work.onSession (UnitOfWork.renewLease · (renewedAt + leaseSeconds settings)) }
      if page.length < settings.findingPageSize then pure a
      else processPages settings run now fuel (some last.pageKey) a

/-- `_unresolved_incidents(binding.id, include_stale=False)` -/
def unresolvedIncident (bindingId : ℕ) (i : Incident) : Bool :=
  i.bindingId = bindingId && (i.status = .open || i.status = .acknowledged) &&
    i.type ≠ .staleStrategyState

/-- The end of `_process_comparison_run`. -/
def projectRun (run : ComparisonRun) (now : ℤ) (a : Assessing) (unresolved : List Incident) :
    MonitoringTask (BindingWork × MonitoringAssessment) := do
  let w := a.work.selected unresolved [] 0
  let (session, health) ← ofExcept (projectHealth run now { a with work := w }.scan)
  pure (w.onSession fun _ => session.project health,
    { comparisonRunId := run.runId, comparisonStatus := run.status
      findingCount := a.findingCount, processorWorkerId := w.claim.workerId, processedAt := now })

/-- `_process_comparison_run`; only a healthy run selects the unresolved incidents. The fuel of the
loop is one more than the findings of the run, which no session changes. -/
def processRun (settings : MonitoringSettings) (run : ComparisonRun) (w : BindingWork) :
    MonitoringTask (BindingWork × MonitoringAssessment) := do
  let binding := w.session.db.binding
  if run.activationId ≠ binding.activationId then
    raise (service "comparison run does not belong to the monitoring binding activation")
  else if run.referenceRunId ≠ binding.referenceRunId then
    raise (service "comparison run does not belong to the monitoring binding reference")
  else if run.policyHash ≠ binding.comparisonPolicyHash then
    raise (service "comparison run does not use the binding's explicit comparison policy")
  else
    let now ← now
    let d ← view
    let fuel := ((d.storeOf binding).findingsOf run.runId).length + 1
    let a ← processPages settings run now fuel none { work := w }
    if run.status = .healthy then
      let unresolved ← lockIncidents (unresolvedIncident binding.id)
      projectRun run now a unresolved
    else projectRun run now a []

/-- What the transactions of a cycle do with an activation that is not active. -/
def settleInactive (activation : LiveStrategyActivation) (w : BindingWork) : MonitoringTask Unit := do
  match activation.status with
  | .error =>
    let w ← recordRuntimeFailure activation (some w.session.db.binding.policy) none none none
      (w.onRow fun row => { row with status := .error })
    flush w none
  | _ =>
    let now ← now
    let w := w.onRow fun row => { row with status := .deactivated, deactivatedAt := some now }
    flush (w.onSession fun s => s.project (setUnknown s.db.health)) none

/-- The common head of the transactions of a cycle: `none` when the binding is no longer owned. -/
def openCycle (claim : BindingClaim) : MonitoringTask (Option (LiveStrategyActivation × BindingWork)) := do
  match ← lockedActivation claim.activationId with
  | none => pure none
  | some activation =>
    match ← ownedBinding claim with
    | none => pure none
    | some row =>
      if ← query MonitoringQuestion.corrupt then
        raise (service "stored monitoring policy is invalid")
      else
        let health ← healthState row
        pure (some (activation, .start claim row health))

/-- `_process_one_comparison` -/
def processOneComparisonRun (settings : MonitoringSettings) (claim : BindingClaim) : MonitoringTask Bool :=
  inTransaction do
    match ← openCycle claim with
    | none => pure false
    | some (activation, w) =>
      if activation.status ≠ .active then
        settleInactive activation w
        pure false
      else
        let d ← view
        match nextPendingComparison (d.storeOf w.session.db.binding) with
        | none =>
          flush w none
          pure false
        | some run =>
          let (w, assessment) ← processRun settings run w
          let processedAt ← now
          flush (w.onRow fun row => { row with lastProcessedAt := some processedAt }) (some assessment)
          pure true

/-- `_finalize_binding_cycle` -/
def finalizeCycle (claim : BindingClaim) : MonitoringTask Unit := inTransaction do
  match ← openCycle claim with
  | none => pure ()
  | some (activation, w) =>
    if activation.status ≠ .active then settleInactive activation w
    else
      let w ← checkComparisonFreshness w
      let w ← checkStaleness activation w
      let processedAt ← now
      flush (w.onRow fun row => { row with lastProcessedAt := some processedAt }) none

/-- `str(error)[:2000]` -/
def errorText : MonitoringFailure → MonitoringTask String
  | .service (.monitoring message) => pure (message.take 2000).toString
  | .registration message => pure (message.take 2000).toString
  | _ => query MonitoringQuestion.text

/-- `_record_binding_error`; its own exceptions are logged. -/
def recordClaimError (claim : BindingClaim) (failure : MonitoringFailure) : MonitoringTask Unit := do
  let record : MonitoringTask Unit := inTransaction do
    let activation ← lockedActivation claim.activationId
    let row ← ownedBinding claim
    match activation, row with
    | some activation, some row =>
      let health ← healthState row
      let corrupt ← query MonitoringQuestion.corrupt
      let policy := if corrupt then none else some row.binding.policy
      let severity := runtimeSeverity policy none 1 Nat.one_pos
      let error ← errorText failure
      let health := { setHealth health .error .runtime severity with lastError := some error }
      let w ← recordRuntimeFailure activation policy (some error) (some "monitoring_error")
        (some severity) (.start claim row health)
      let processedAt ← now
      flush (w.onRow fun row => { row with lastProcessedAt := some processedAt }) none
    | _, _ => pure ()
  let _ ← record.attempt
  pure ()

/-- The `for` loop of `process_binding`: how many runs it has processed, and whether one failed. -/
def processRuns (settings : MonitoringSettings) (claim : BindingClaim) : ℕ → ℕ → MonitoringTask (ℕ × Bool)
  | 0, processed => pure (processed, false)
  | fuel + 1, processed => do
    match ← (processOneComparisonRun settings claim).attempt with
    | .error failure =>
      recordClaimError claim failure
      pure (processed, true)
    | .ok false => pure (processed, false)
    | .ok true =>
      if ← renewClaim settings claim then processRuns settings claim fuel (processed + 1)
      else pure (processed + 1, false)

/-- `process_binding`; `maxComparisons` is `STRATEGY_MONITORING_MAX_COMPARISONS_PER_BINDING`. -/
def processBinding (settings : MonitoringSettings) (maxComparisons bindingId : ℕ) (workerId : String) :
    MonitoringTask ℕ := do
  match ← claimBinding settings bindingId workerId with
  | none => pure 0
  | some claim =>
    let (processed, failed) ← processRuns settings claim maxComparisons 0
    if !failed then
      match ← (finalizeCycle claim).attempt with
      | .ok _ => pure ()
      | .error failure => recordClaimError claim failure
    releaseClaim claim
    pure processed

/-- The bindings that a cycle lists; `last_processed_at` is null first. -/
def MonitoringDatabase.activeBindings (d : MonitoringDatabase) (limit : ℕ) : List ℕ :=
  ((((d.bindings.entries.map Sigma.snd).filter fun row => row.status = .active).insertionSort
    fun r s => toLex (r.lastProcessedAt.elim (toLex (0, 0)) (fun t => toLex ((1 : ℕ), t)),
        toLex (r.binding.registeredAt, r.binding.id)) ≤
      toLex (s.lastProcessedAt.elim (toLex (0, 0)) (fun t => toLex ((1 : ℕ), t)),
        toLex (s.binding.registeredAt, s.binding.id))).take limit).map fun row => row.binding.id

/-- `StrategyMonitoringService.process_active`; a binding that raises does not stop the others. -/
def monitorActive (settings : MonitoringSettings) (limit maxComparisons : ℕ) : MonitoringTask Unit := do
  let d ← view
  let worker ← draw
  forEach (fun bindingId => do
      let _ ← (processBinding settings maxComparisons bindingId s!"strategy-monitoring-{worker}").attempt
      pure ()) (d.activeBindings limit)

/-! ### The producer -/

/-- `_next_comparison_plan` locks the activation and the binding; whether there is a window to compare
is `due`. -/
def lockComparisonPlan (claim : BindingClaim) (due : Bool) : MonitoringTask Bool := inTransaction do
  let activation ← lockedActivation claim.activationId
  let row ← ownedBinding claim
  match activation, row with
  | some activation, some _ => do
    if activation.status ≠ .active then pure false
    else if ← query MonitoringQuestion.corrupt then
      raise (service "stored comparison policy does not match its immutable snapshot")
    else pure due
  | _, _ => pure false

/-- `_persist_loaded` of a result: the run with its findings, unless there is one of its id. -/
def persistLoaded (run : ComparisonRun) (findings : List Finding) : MonitoringTask Unit := do
  let existing ← lockRow (.run run.runId) fun d => d.runs.find? fun r => r.runId = run.runId
  match existing with
  | some _ => pure ()
  | none =>
    let findings ← collect (fun f => do
      let id ← draw
      pure (some { f with id := id, comparisonRunId := run.runId })) findings
    acquire (.run run.runId)
    let d ← view
    -- a run that was inserted in the meantime is returned in place of the new one
    if d.runs.any fun r => r.runId = run.runId then pure ()
    else emit (.addRun run findings)

/-- `compare_activation` and `persist`, for what the comparison comes to. -/
def compareActivation (run : ComparisonRun) (findings : List Finding) : MonitoringTask Unit :=
  inTransaction (persistLoaded run findings)

/-- `StrategyComparisonProducerService.process_active` for one binding. -/
def produceComparison (settings : MonitoringSettings) (bindingId : ℕ) (workerId : String) (due : Bool)
    (run : ComparisonRun) (findings : List Finding) : MonitoringTask Unit := do
  match ← claimBinding settings bindingId workerId with
  | none => pure ()
  | some claim =>
    let produce : MonitoringTask Unit := do
      if ← lockComparisonPlan claim due then compareActivation run findings
    match ← produce.attempt with
    | .ok _ => pure ()
    | .error failure => recordClaimError claim failure
    releaseClaim claim

/-! ### Registrations, operators and the live evaluator -/

/-- `MonitoringRegistrationInput` -/
structure MonitoringRegistration where
  activationId : ℕ
  referenceRunId : String
  comparisonPolicyId : String
  comparisonPolicyRevision : String
  comparisonPolicyHash : String
  policyHash : String
  policy : MonitoringPolicy

/-- The registration asks for what the binding has. -/
def MonitoringRegistration.matches (r : MonitoringRegistration) (row : StrategyMonitoringBinding) : Bool :=
  row.binding.referenceRunId = r.referenceRunId && row.comparisonPolicyId = r.comparisonPolicyId &&
    row.comparisonPolicyRevision = r.comparisonPolicyRevision &&
    row.binding.comparisonPolicyHash = r.comparisonPolicyHash && row.binding.policyHash = r.policyHash

def StrategyMonitoringBinding.deactivate (now : ℤ) (row : StrategyMonitoringBinding) :
    StrategyMonitoringBinding :=
  { row with status := .deactivated, deactivatedAt := some now, lease := none }

/-- The end of `register`: `existing` is the active binding that it has locked. -/
def replaceBinding (r : MonitoringRegistration) (now : ℤ) (existing : Option StrategyMonitoringBinding) :
    MonitoringTask Unit := do
  if existing.any r.matches then pure ()
  else
    let id ← draw
    forEach (fun row => emit (.putBinding (row.deactivate now))) existing.toList
    acquire (.activeBinding r.activationId)
    let d ← view
    if (d.activeBinding r.activationId).isSome then
      raise (.service (.integrity "uq_monitoring_bindings_active_activation"))
    else
      emit (.putBinding {
        binding := { id := id, activationId := r.activationId, referenceRunId := r.referenceRunId
                     policyHash := r.policyHash, comparisonPolicyHash := r.comparisonPolicyHash
                     policy := r.policy, registeredAt := now, leaseExpiresAt := 0 }
        comparisonPolicyId := r.comparisonPolicyId
        comparisonPolicyRevision := r.comparisonPolicyRevision })
      let health ← lockRow (.health r.activationId) fun d => d.health r.activationId
      emit (.putHealth r.activationId ⟨id, match health with
        | none => {}
        | some state => { setUnknown state.health with lastError := none }⟩)

/-- `register` -/
def register (r : MonitoringRegistration) : MonitoringTask Unit := do
  let now ← now
  inTransaction do
    match ← lockedActivation r.activationId with
    | none => raise (.registration s!"live activation {r.activationId} not found")
    | some activation =>
      if activation.status ≠ .active then
        raise (.registration "only an active strategy runtime can be monitored")
      else if ← query MonitoringQuestion.unrelated then
        raise (.registration "monitoring reference must belong to the activation's logical strategy")
      else
        let snapshot ← view
        match snapshot.activeBinding r.activationId with
        | none => replaceBinding r now none
        | some row =>
          let existing ← lockRow (.binding row.binding.id) fun d =>
            (d.binding row.binding.id).filter fun row => row.status = .active
          replaceBinding r now existing

/-- `deactivate` -/
def deactivate (bindingId : ℕ) : MonitoringTask Bool := do
  let now ← now
  inTransaction do
    match ← lockRow (.binding bindingId) fun d => d.binding bindingId with
    | none => pure false
    | some row =>
      if row.status = .active then
        emit (.putBinding (row.deactivate now))
        let activationId := row.binding.activationId
        match ← lockRow (.health activationId) fun d => d.health activationId with
        | some state =>
          if state.bindingId = row.binding.id then
            emit (.putHealth activationId
              ⟨state.bindingId, { setUnknown state.health with lastError := none }⟩)
        | none => pure ()
        pure true
      else pure true

/-- `acknowledge_incident` and `resolve_incident`: what becomes of an incident, or why it may not. -/
def changeIncident (incidentId : ℕ) (change : Incident → Except MonitoringError Incident) :
    MonitoringTask Unit := inTransaction do
  let rows ← lockIncidents fun i => i.id = incidentId
  match rows.head? with
  | none => raise (.notFound incidentId)
  | some incident =>
    let changed ← ofExcept (change incident)
    emit (.putIncident changed)

/-- `acknowledge_incident`; the columns of the acknowledgement are left out. -/
def acknowledge (incidentId : ℕ) (actor : String) (note : Option String) : MonitoringTask Unit := do
  if Strategies.strip actor = "" then raise (service "acknowledgement actor cannot be blank")
  else if note.any fun n => 2000 < n.length then
    raise (service "acknowledgement note exceeds 2000 characters")
  else
    changeIncident incidentId fun incident =>
      if incident.status = .resolved then
        .error (.monitoring "a resolved incident cannot be acknowledged")
      else if incident.status = .open then .ok { incident with status := .acknowledged }
      else .ok incident

/-- `resolve_incident` -/
def resolve (incidentId : ℕ) (actor : String) (note : Option String) : MonitoringTask Unit := do
  if Strategies.strip actor = "" then raise (service "resolution actor cannot be blank")
  else if note.any fun n => 2000 < n.length then
    raise (service "resolution note exceeds 2000 characters")
  else
    let now ← now
    changeIncident incidentId fun incident =>
      if incident.status ≠ .resolved then .ok { incident with
        status := .resolved, resolvedAt := some now, resolvedBy := some (Strategies.strip actor)
        resolutionNote := note }
      else .ok incident

/-- The live evaluator writes an activation row that it has locked. -/
def evaluate (id : ℕ) (change : Option LiveStrategyActivation → LiveStrategyActivation) :
    MonitoringTask Unit := inTransaction do
  let activation ← lockedActivation id
  emit (.putActivation id (change activation))

/-! ### The system -/

inductive MonitoringParty where
  | monitor (n : ℕ)
  | producer (n : ℕ)
  | client (n : ℕ)
  | evaluator (n : ℕ)
  deriving DecidableEq

inductive MonitoringProgram : MonitoringParty → MonitoringTask Unit → Prop
  | monitorActive (n : ℕ) (settings : MonitoringSettings) (limit maxComparisons : ℕ) :
      MonitoringProgram (.monitor n) (monitorActive settings limit maxComparisons)
  | produceComparison (n : ℕ) (settings : MonitoringSettings) (bindingId : ℕ) (workerId : String)
      (due : Bool) (run : ComparisonRun) (findings : List Finding) :
      MonitoringProgram (.producer n) (produceComparison settings bindingId workerId due run findings)
  | compareActivation (n : ℕ) (run : ComparisonRun) (findings : List Finding) :
      MonitoringProgram (.client n) (compareActivation run findings)
  | register (n : ℕ) (r : MonitoringRegistration) : MonitoringProgram (.client n) (register r)
  | deactivate (n bindingId : ℕ) : MonitoringProgram (.client n) do
      let _ ← deactivate bindingId
      pure ()
  | acknowledge (n incidentId : ℕ) (actor : String) (note : Option String) :
      MonitoringProgram (.client n) (acknowledge incidentId actor note)
  | resolve (n incidentId : ℕ) (actor : String) (note : Option String) :
      MonitoringProgram (.client n) (resolve incidentId actor note)
  | evaluate (n id : ℕ) (change : Option LiveStrategyActivation → LiveStrategyActivation) :
      MonitoringProgram (.evaluator n) (evaluate id change)

/-- Sessions on empty tables; the surroundings may answer anything. -/
def monitoring : System MonitoringParty MonitoringDatabase MonitoringWrite MonitoringLock
    MonitoringAnswer MonitoringFailure where
  oracle _ _ := True
  programs := MonitoringProgram
  init d := d.bindings = ∅ ∧ d.runs = [] ∧ d.findings = [] ∧ d.incidents = [] ∧ d.evidence = [] ∧
    d.assessments = [] ∧ d.history = []

end Quantive.Monitoring
