import Mathlib.Data.Int.Order.Basic

/-!
# Monitoring contracts

`monitoring/contracts.py` and the enumerations of `divergence/contracts.py`: what a
comparison run reports, the evidence class of a divergence, and the severity that a
frozen policy gives to an incident.
-/

namespace Quantive.Monitoring

inductive ComparisonStatus where
  | healthy | divergent | insufficientReference
  deriving DecidableEq, Repr

inductive DivergenceType where
  | insufficientReferenceData | strategyVersionMismatch | configurationMismatch
  | evaluatorFailure | missingSignal | unexpectedSignal | signalTimingDifference
  | marketDataMissingCandle | marketDataCorrectedCandle | marketDataTimestampMismatch
  | marketDataOhlcDiscrepancy | marketDataVolumeDiscrepancy | missingExpectedEntry
  | missingExpectedExit | unexpectedEntry | unexpectedExit | executionDelay | executionSlippage
  | feeDifference | positionMismatch | exposureMismatch | unexpectedPositionPersistence
  | returnDifference | drawdownDifference | volatilityDifference | tradeFrequencyDifference
  | winRateDifference | benchmarkRelativeDifference
  deriving DecidableEq, Repr

inductive IncidentSeverity where
  | informational | warning | critical
  deriving DecidableEq, Repr

inductive IncidentLifecycle where
  | open | acknowledged | resolved
  deriving DecidableEq, Repr

inductive HealthStatus where
  | unknown | healthy | degraded | stale | error
  deriving DecidableEq, Repr

inductive HealthCause where
  | dataQuality | execution | strategyBehavior | strategyFailure | reference | runtime
  deriving DecidableEq, Repr

/-- `_DIVERGENCE_CAUSES`. -/
def causeForDivergence : DivergenceType → HealthCause
  | .insufficientReferenceData => .reference
  | .strategyVersionMismatch => .strategyFailure
  | .configurationMismatch => .strategyFailure
  | .evaluatorFailure => .runtime
  | .missingSignal => .strategyBehavior
  | .unexpectedSignal => .strategyBehavior
  | .signalTimingDifference => .strategyBehavior
  | .marketDataMissingCandle => .dataQuality
  | .marketDataCorrectedCandle => .dataQuality
  | .marketDataTimestampMismatch => .dataQuality
  | .marketDataOhlcDiscrepancy => .dataQuality
  | .marketDataVolumeDiscrepancy => .dataQuality
  | .missingExpectedEntry => .execution
  | .missingExpectedExit => .execution
  | .unexpectedEntry => .execution
  | .unexpectedExit => .execution
  | .executionDelay => .execution
  | .executionSlippage => .execution
  | .feeDifference => .execution
  | .positionMismatch => .strategyBehavior
  | .exposureMismatch => .strategyBehavior
  | .unexpectedPositionPersistence => .strategyBehavior
  | .returnDifference => .strategyBehavior
  | .drawdownDifference => .strategyBehavior
  | .volatilityDifference => .strategyBehavior
  | .tradeFrequencyDifference => .strategyBehavior
  | .winRateDifference => .strategyBehavior
  | .benchmarkRelativeDifference => .strategyBehavior

/-- `_severity_rank`. -/
def severityRank : IncidentSeverity → ℕ
  | .informational => 0
  | .warning => 1
  | .critical => 2

/-- `_max_severity` of two values. -/
def maxSeverity (a b : IncidentSeverity) : IncidentSeverity :=
  if severityRank b ≤ severityRank a then a else b

structure CauseSeverityPolicy where
  dataQuality : IncidentSeverity
  execution : IncidentSeverity
  strategyBehavior : IncidentSeverity
  strategyFailure : IncidentSeverity
  reference : IncidentSeverity
  runtime : IncidentSeverity

def CauseSeverityPolicy.severityFor (p : CauseSeverityPolicy) : HealthCause → IncidentSeverity
  | .dataQuality => p.dataQuality
  | .execution => p.execution
  | .strategyBehavior => p.strategyBehavior
  | .strategyFailure => p.strategyFailure
  | .reference => p.reference
  | .runtime => p.runtime

structure EscalationPolicy where
  warningAfterOccurrences : ℕ
  criticalAfterOccurrences : ℕ
  positive : 1 ≤ warningAfterOccurrences := by decide
  ordered : warningAfterOccurrences ≤ criticalAfterOccurrences := by decide

structure MonitoringPolicy where
  causeSeverity : CauseSeverityPolicy
  escalation : EscalationPolicy
  recoveryHealthyChecks : ℕ
  staleAfterSeconds : ℕ
  comparisonStaleAfterSeconds : ℕ
  positive : 1 ≤ recoveryHealthyChecks := by decide
  positiveTimeouts : 1 ≤ staleAfterSeconds ∧ 1 ≤ comparisonStaleAfterSeconds := by decide

/-- `MonitoringPolicy.severity_for`; `positive` is its check of the occurrence count. -/
def MonitoringPolicy.severityFor (p : MonitoringPolicy) (cause : HealthCause)
    (occurrenceCount : ℕ) (_positive : 1 ≤ occurrenceCount) : IncidentSeverity :=
  let baseline := p.causeSeverity.severityFor cause
  let escalated :=
    if p.escalation.criticalAfterOccurrences ≤ occurrenceCount then .critical
    else if p.escalation.warningAfterOccurrences ≤ occurrenceCount then .warning
    else .informational
  if severityRank escalated ≤ severityRank baseline then baseline else escalated

/-- `_projection_sort_key`. -/
def projectionSortKey (item : HealthCause × IncidentSeverity) : ℕ × ℕ :=
  (severityRank item.2, match item.1 with
    | .strategyFailure => 5
    | .runtime => 4
    | .strategyBehavior => 3
    | .execution => 2
    | .dataQuality => 1
    | .reference => 0)

/-- The order of Python tuples. -/
def projectionLt (a b : HealthCause × IncidentSeverity) : Bool :=
  let x := projectionSortKey a
  let y := projectionSortKey b
  x.1 < y.1 || (x.1 = y.1 && x.2 < y.2)

/-- `_more_actionable_projection`. -/
def moreActionableProjection (current : Option (HealthCause × IncidentSeverity))
    (candidate : HealthCause × IncidentSeverity) : HealthCause × IncidentSeverity :=
  match current with
  | none => candidate
  | some c => if projectionLt c candidate then candidate else c

/-- An incident only gets more urgent with its occurrences. -/
theorem MonitoringPolicy.severityFor_mono (p : MonitoringPolicy) (cause : HealthCause) {m n : ℕ}
    (hm : 1 ≤ m) (hmn : m ≤ n) :
    severityRank (p.severityFor cause m hm) ≤ severityRank (p.severityFor cause n (Nat.le_trans hm hmn)) := by
  unfold MonitoringPolicy.severityFor
  have hord := p.escalation.ordered
  generalize p.causeSeverity.severityFor cause = b
  by_cases hc : p.escalation.criticalAfterOccurrences ≤ m
  · have hc' := Nat.le_trans hc hmn
    simp [hc, hc']
  · by_cases hw : p.escalation.warningAfterOccurrences ≤ m
    · have hw' := Nat.le_trans hw hmn
      by_cases hc' : p.escalation.criticalAfterOccurrences ≤ n <;> cases b <;>
        simp [hc, hw, hc', hw', severityRank]
    · by_cases hc' : p.escalation.criticalAfterOccurrences ≤ n <;>
        by_cases hw' : p.escalation.warningAfterOccurrences ≤ n <;> cases b <;>
        simp [hc, hw, hc', hw', severityRank]

end Quantive.Monitoring
