import Mathlib.Data.List.AList
import Quantive.Monitoring.IncidentLedger
import Quantive.ReadCommitted.Locking

/-!
# The monitoring tables

The tables that monitoring workers, comparison producers, registrations, operators and the live
evaluator share, as one state, and what a session asks its surroundings. `history` is not a table: it
records the claim under which a worker wrote evidence.
-/

namespace Quantive.Monitoring
open Quantive.ReadCommitted
open LiveStrategy (LiveStrategyActivation)

inductive MonitoringBindingStatus where
  | active | deactivated | error
  deriving DecidableEq, Repr

/-- The lease columns, which `ck_monitoring_bindings_complete_lease` keeps together. -/
structure BindingLease where
  workerId : String
  token : ℕ
  expiresAt : ℤ
  deriving DecidableEq

/-- `_BindingClaim` -/
structure BindingClaim where
  bindingId : ℕ
  activationId : ℕ
  token : ℕ
  workerId : String
  deriving DecidableEq

/-- A row of `strategy_monitoring_bindings`: what a registration froze, and the columns that change.
The expiry of the lease is the one in `lease`. -/
structure StrategyMonitoringBinding where
  binding : MonitoringBinding
  comparisonPolicyId : String
  comparisonPolicyRevision : String
  status : MonitoringBindingStatus := .active
  lease : Option BindingLease := none
  claimAttemptCount : ℕ := 0
  deactivatedAt : Option ℤ := none
  lastProcessedAt : Option ℤ := none

/-- A row of `strategy_health_states`. -/
structure StrategyHealthState where
  bindingId : ℕ
  health : HealthState := {}

structure MonitoringDatabase where
  bindings : AList fun _ : ℕ => StrategyMonitoringBinding := ∅
  activations : ℕ → Option LiveStrategyActivation := fun _ => none
  runs : List ComparisonRun := []
  findings : List Finding := []
  incidents : List Incident := []
  evidence : List IncidentEvidence := []
  assessments : List MonitoringAssessment := []
  health : ℕ → Option StrategyHealthState := fun _ => none
  history : List BindingClaim := []

inductive MonitoringWrite where
  | putBinding (row : StrategyMonitoringBinding)
  | putActivation (id : ℕ) (activation : LiveStrategyActivation)
  | putHealth (activationId : ℕ) (row : StrategyHealthState)
  | addRun (run : ComparisonRun) (findings : List Finding)
  | addIncident (incident : Incident)
  | putIncident (incident : Incident)
  | addEvidence (evidence : IncidentEvidence)
  | addAssessment (assessment : MonitoringAssessment)
  | note (claim : BindingClaim)

namespace MonitoringDatabase

def binding (d : MonitoringDatabase) (id : ℕ) : Option StrategyMonitoringBinding := d.bindings.lookup id

/-- The row of `uq_monitoring_bindings_active_activation`. -/
def activeBinding (d : MonitoringDatabase) (activationId : ℕ) : Option StrategyMonitoringBinding :=
  (d.bindings.entries.map Sigma.snd).find? fun row =>
    row.binding.activationId = activationId && row.status = .active

/-- The row of a changed incident replaces the one of its id. -/
def putIncident (incident : Incident) (rows : List Incident) : List Incident :=
  rows.map fun row => if row.id = incident.id then incident else row

def apply : MonitoringWrite → MonitoringDatabase → MonitoringDatabase
  | .putBinding row, d => { d with bindings := d.bindings.insert row.binding.id row }
  | .putActivation id activation, d =>
    { d with activations := Function.update d.activations id (some activation) }
  | .putHealth activationId row, d =>
    { d with health := Function.update d.health activationId (some row) }
  | .addRun run findings, d =>
    { d with runs := d.runs ++ [run], findings := d.findings ++ findings }
  | .addIncident incident, d => { d with incidents := d.incidents ++ [incident] }
  | .putIncident incident, d => { d with incidents := putIncident incident d.incidents }
  | .addEvidence evidence, d => { d with evidence := d.evidence ++ [evidence] }
  | .addAssessment assessment, d => { d with assessments := d.assessments ++ [assessment] }
  | .note claim, d => { d with history := d.history ++ [claim] }

/-- The rows that the selection of a run and of its findings reads for a binding. -/
def storeOf (d : MonitoringDatabase) (binding : MonitoringBinding) : MonitoringStore where
  binding := binding
  runs := d.runs
  findings := d.findings
  incidents := d.incidents
  evidence := d.evidence
  assessments := d.assessments
  health := {}
  names := 0

end MonitoringDatabase

instance : Store MonitoringDatabase MonitoringWrite := ⟨MonitoringDatabase.apply⟩

/-- The locks of rows, and of keys that a transaction inserts. -/
inductive MonitoringLock where
  | activation (id : ℕ)
  | binding (id : ℕ)
  | activeBinding (activationId : ℕ)
  | health (activationId : ℕ)
  | incident (id : ℕ)
  | dedupKey (key : DedupKey)
  | evidence (id : ℕ)
  | evidenceKey (incidentId : ℕ) (key : EvidenceKey)
  | findingEvidence (findingId : ℕ)
  | run (runId : String)
  | assessment (runId : String)
  deriving DecidableEq

/-- `fault` is whether the database fails, `corrupt` whether a stored policy does not validate,
`unrelated` whether a reference does not belong to the strategy of the activation, and `text` the
text of a database error. -/
inductive MonitoringQuestion where
  | now | fault | corrupt | unrelated | text
  deriving DecidableEq

abbrev MonitoringAnswer : MonitoringQuestion → Type
  | .now => ℤ
  | .fault => Bool
  | .corrupt => Bool
  | .unrelated => Bool
  | .text => String

inductive MonitoringFailure where
  | service (error : MonitoringError)
  | registration (message : String)
  | notFound (incidentId : ℕ)
  | unavailable
  deriving DecidableEq

abbrev MonitoringTask :=
  Prog MonitoringDatabase MonitoringWrite MonitoringLock MonitoringAnswer MonitoringFailure

end Quantive.Monitoring
