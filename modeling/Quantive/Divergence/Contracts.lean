import Quantive.Clock
import Quantive.DecimalContext
import Quantive.KeyedPairing
import Quantive.LiveStrategy.Contracts
import Quantive.Monitoring.Contracts
import Quantive.PythonTuple

/-!
# The divergence comparator

`divergence/contracts.py`: the evidence of a comparison window, the findings and `compare`.
A value the pydantic models reject cannot be built. Decimals are the rationals they denote.
-/

namespace Quantive.Divergence

open LiveStrategy (PositionState StrategyEventType)
open Monitoring (ComparisonStatus DivergenceType)
open PythonTuple (Atom)

/-- What `compare` may raise. -/
inductive Raised where
  | typeError
  | overflow
  deriving DecidableEq, Repr

inductive DivergenceSeverity where
  | info | warning | critical
  deriving DecidableEq, Repr

inductive ResolutionStatus where
  | open | acknowledged | resolved | notApplicable
  deriving DecidableEq, Repr

/-- `DivergenceType.value` -/
def value : DivergenceType → String
  | .insufficientReferenceData => "insufficient_reference_data"
  | .strategyVersionMismatch => "strategy_version_mismatch"
  | .configurationMismatch => "configuration_mismatch"
  | .evaluatorFailure => "evaluator_failure"
  | .missingSignal => "missing_signal"
  | .unexpectedSignal => "unexpected_signal"
  | .signalTimingDifference => "signal_timing_difference"
  | .marketDataMissingCandle => "market_data_missing_candle"
  | .marketDataCorrectedCandle => "market_data_corrected_candle"
  | .marketDataTimestampMismatch => "market_data_timestamp_mismatch"
  | .marketDataOhlcDiscrepancy => "market_data_ohlc_discrepancy"
  | .marketDataVolumeDiscrepancy => "market_data_volume_discrepancy"
  | .missingExpectedEntry => "missing_expected_entry"
  | .missingExpectedExit => "missing_expected_exit"
  | .unexpectedEntry => "unexpected_entry"
  | .unexpectedExit => "unexpected_exit"
  | .executionDelay => "execution_delay"
  | .executionSlippage => "execution_slippage"
  | .feeDifference => "fee_difference"
  | .positionMismatch => "position_mismatch"
  | .exposureMismatch => "exposure_mismatch"
  | .unexpectedPositionPersistence => "unexpected_position_persistence"
  | .returnDifference => "return_difference"
  | .drawdownDifference => "drawdown_difference"
  | .volatilityDifference => "volatility_difference"
  | .tradeFrequencyDifference => "trade_frequency_difference"
  | .winRateDifference => "win_rate_difference"
  | .benchmarkRelativeDifference => "benchmark_relative_difference"

/-- The JSON object of a source or of an issue: its members with the JSON text of each. -/
abbrev Document := List (String × String)

/-- `^[0-9a-f]{64}$` -/
def IsSha256 (s : String) : Prop :=
  s.length = 64 ∧ ∀ c ∈ s.toList, c.isDigit ∨ 'a' ≤ c ∧ c ≤ 'f'

instance (s : String) : Decidable (IsSha256 s) :=
  have : Decidable (∀ c ∈ s.toList, c.isDigit ∨ 'a' ≤ c ∧ c ≤ 'f') := List.decidableBAll _ _
  inferInstanceAs (Decidable (_ ∧ _))

/-- What `_decimal` returns: a value of the context. -/
def IsDecimal (q : ℚ) : Prop := Decimal.fix q = some q

instance (q : ℚ) : Decidable (IsDecimal q) := by unfold IsDecimal; infer_instance

/-! ### Evidence -/

structure StrategyVersionIdentity where
  strategyId : ℕ
  strategyVersionId : ℕ
  strategyVersionNumber : ℕ
  strategyDefinitionHash : String
  valid : 1 ≤ strategyVersionNumber ∧ IsSha256 strategyDefinitionHash := by decide
  deriving DecidableEq

structure ComparisonPolicy where
  signalTimingToleranceSeconds : ℕ
  marketTimestampToleranceSeconds : ℕ
  ohlcToleranceBps : ℚ
  volumeTolerance : ℚ
  executionDelayToleranceSeconds : ℕ
  executionPriceToleranceBps : ℚ
  feeTolerance : ℚ
  slippageTolerance : ℚ
  exposureTolerance : ℚ
  returnTolerance : ℚ
  drawdownTolerance : ℚ
  volatilityTolerance : ℚ
  tradeCountTolerance : ℕ
  winRateTolerance : ℚ
  benchmarkRelativeTolerance : ℚ
  defaultSeverity : DivergenceSeverity := .warning
  criticalTypes : List DivergenceType := []
  nonnegative : ∀ q ∈ [ohlcToleranceBps, volumeTolerance, executionPriceToleranceBps, feeTolerance,
    slippageTolerance, exposureTolerance, returnTolerance, drawdownTolerance, volatilityTolerance,
    winRateTolerance, benchmarkRelativeTolerance], 0 ≤ q ∧ IsDecimal q := by decide +kernel
  shares : exposureTolerance ≤ 1 ∧ winRateTolerance ≤ 1 := by decide +kernel

def ComparisonPolicy.severityFor (p : ComparisonPolicy) (t : DivergenceType) : DivergenceSeverity :=
  if t ∈ p.criticalTypes then .critical else p.defaultSeverity

/-- A text field with `max_length`. -/
def AtMost (n : ℕ) (s : Option String) : Prop := ∀ t ∈ s, t.length ≤ n

instance (n : ℕ) (s : Option String) : Decidable (AtMost n s) := by unfold AtMost; infer_instance

structure SignalPoint where
  assetId : ℕ
  eventType : StrategyEventType
  eventTime : ℤ
  signalId : Option String := none
  positionState : Option PositionState := none
  sourceId : Option String := none
  valid : 0 < assetId ∧ AtMost 64 signalId ∧ AtMost 128 sourceId := by decide
  deriving DecidableEq

structure CandlePoint where
  assetId : ℕ
  timestamp : ℤ
  «open» : ℚ
  high : ℚ
  low : ℚ
  close : ℚ
  volume : ℚ
  revision : Option String := none
  valid : 0 < assetId ∧ 0 < «open» ∧ 0 < high ∧ 0 < low ∧ 0 < close ∧ 0 ≤ volume ∧
    AtMost 256 revision := by decide +kernel
  decimals : ∀ q ∈ [«open», high, low, close, volume], IsDecimal q := by decide +kernel
  ohlc : (low ≤ «open» ∧ «open» ≤ high) ∧ low ≤ close ∧ close ≤ high := by decide +kernel
  deriving DecidableEq

inductive ExecutionSide where
  | entry | exit
  deriving DecidableEq, Repr

inductive ExecutionDirection where
  | long | short
  deriving DecidableEq, Repr

structure ExecutionPoint where
  assetId : ℕ
  side : ExecutionSide
  direction : ExecutionDirection
  executionTime : ℤ
  price : ℚ
  quantity : ℚ
  feesPaid : Option ℚ := none
  slippagePaid : Option ℚ := none
  signalId : Option String := none
  sourceId : Option String := none
  valid : 0 < assetId ∧ 0 < price ∧ 0 < quantity ∧ (∀ q ∈ feesPaid, 0 ≤ q) ∧
    (∀ q ∈ slippagePaid, 0 ≤ q) ∧ AtMost 64 signalId ∧ AtMost 128 sourceId := by decide +kernel
  decimals : IsDecimal price ∧ IsDecimal quantity ∧ (∀ q ∈ feesPaid, IsDecimal q) ∧
    ∀ q ∈ slippagePaid, IsDecimal q := by decide +kernel
  deriving DecidableEq

structure PositionPoint where
  assetId : ℕ
  timestamp : ℤ
  positionState : PositionState
  exposure : Option ℚ := none
  valid : 0 < assetId ∧ ∀ q ∈ exposure, 0 ≤ q ∧ q ≤ 1 ∧ IsDecimal q := by decide +kernel
  deriving DecidableEq

structure PerformancePoint where
  totalReturn : Option ℚ := none
  maxDrawdown : Option ℚ := none
  annualizedVolatility : Option ℚ := none
  tradeCount : Option ℕ := none
  winningTradeCount : Option ℕ := none
  benchmarkReturn : Option ℚ := none
  nonnegative : (∀ q ∈ maxDrawdown, 0 ≤ q) ∧ ∀ q ∈ annualizedVolatility, 0 ≤ q := by decide +kernel
  decimals : ∀ o ∈ [totalReturn, maxDrawdown, annualizedVolatility, benchmarkReturn],
    ∀ q ∈ o, IsDecimal q := by decide +kernel
  winning : ∀ w ∈ winningTradeCount, ∀ n ∈ tradeCount, w ≤ n := by decide
  deriving DecidableEq

/-- The divergence types of a `DataIssue`. -/
def issueTypes : List DivergenceType :=
  [.marketDataMissingCandle, .marketDataCorrectedCandle, .marketDataTimestampMismatch,
    .evaluatorFailure]

/-- Its asset is not part of a finding. -/
structure DataIssue where
  divergenceType : DivergenceType
  timestamp : ℤ
  observed : Document
  explanation : String
  valid : divergenceType ∈ issueTypes ∧ 1 ≤ explanation.length ∧ explanation.length ≤ 2000 := by decide
  deriving DecidableEq

/-- `MAX_COMPARISON_INPUT_POINTS` -/
def maxComparisonInputPoints : ℕ := 10000

/-- The evidence tuples of a comparison. -/
structure EvidenceTuples where
  expectedSignals : List SignalPoint := []
  observedSignals : List SignalPoint := []
  expectedCandles : List CandlePoint := []
  observedCandles : List CandlePoint := []
  expectedExecutions : List ExecutionPoint := []
  observedExecutions : List ExecutionPoint := []
  expectedPositions : List PositionPoint := []
  observedPositions : List PositionPoint := []
  observedDataIssues : List DataIssue := []

structure ComparisonInput extends EvidenceTuples where
  strategy : StrategyVersionIdentity
  referenceStrategy : StrategyVersionIdentity
  policy : ComparisonPolicy
  windowStart : ℤ
  windowEnd : ℤ
  referenceSource : Document
  observedSource : Document
  referenceComplete : Bool
  observedComplete : Bool
  expectedConfigurationHash : Option String := none
  observedConfigurationHash : Option String := none
  expectedPerformance : Option PerformancePoint := none
  observedPerformance : Option PerformancePoint := none

/-- The times of all evidence, in the order of `validate_window`. -/
def EvidenceTuples.times (i : EvidenceTuples) : List ℤ :=
  i.expectedSignals.map (·.eventTime) ++ i.observedSignals.map (·.eventTime) ++
    i.expectedCandles.map (·.timestamp) ++ i.observedCandles.map (·.timestamp) ++
    i.expectedExecutions.map (·.executionTime) ++ i.observedExecutions.map (·.executionTime) ++
    i.expectedPositions.map (·.timestamp) ++ i.observedPositions.map (·.timestamp) ++
    i.observedDataIssues.map (·.timestamp)

/-- `validate_window` and the patterns of the configuration hashes. -/
def ComparisonInput.Accepted (i : ComparisonInput) : Prop :=
  i.windowStart < i.windowEnd ∧ i.times.length ≤ maxComparisonInputPoints ∧
    (∀ t ∈ i.times, i.windowStart ≤ t ∧ t ≤ i.windowEnd) ∧
    (∀ h ∈ i.expectedConfigurationHash, IsSha256 h) ∧ ∀ h ∈ i.observedConfigurationHash, IsSha256 h

instance (i : ComparisonInput) : Decidable i.Accepted := by
  unfold ComparisonInput.Accepted; infer_instance

/-! ### Findings -/

/-- The values of a finding, `model_dump` of a record or the members named. -/
inductive Evidence where
  | nothing
  | referenceComplete (b : Bool)
  | observedComplete (b : Bool)
  | identity (s : StrategyVersionIdentity)
  | configurationHash (h : String)
  | issue (d : Document)
  | signal (p : SignalPoint)
  | candle (p : CandlePoint)
  | revision (assetId : ℕ) (r : String)
  | volume (assetId : ℕ) (v : ℚ)
  | execution (p : ExecutionPoint)
  | fees (assetId : ℕ) (side : ExecutionSide) (signalId : Option String) (paid : ℚ)
  | position (p : PositionPoint)
  | exposure (assetId : ℕ) (x : ℚ)
  | performance (p : PerformancePoint)
  | metric (field : String) (x : ℚ)
  | tradeCount (n : ℕ)
  | winRate (x : ℚ)
  deriving DecidableEq

/-- What a fingerprint is taken of: a finding but for its severity and resolution status. -/
structure FindingPayload where
  strategy : StrategyVersionIdentity
  divergenceType : DivergenceType
  timestamp : Option ℤ
  windowStart : ℤ
  windowEnd : ℤ
  expectedValue : Evidence
  observedValue : Evidence
  sourceReference : Document × Document
  category : String
  explanation : String
  deriving DecidableEq

structure DivergenceFinding extends FindingPayload where
  severity : DivergenceSeverity
  resolutionStatus : ResolutionStatus := .open
  deriving DecidableEq

structure ComparisonResult where
  status : ComparisonStatus
  findings : List DivergenceFinding
  deriving DecidableEq

/-- `_finding` -/
def finding (i : ComparisonInput) (divergenceType : DivergenceType) (timestamp : Option ℤ)
    (expected observed : Evidence) (category explanation : String) : DivergenceFinding where
  strategy := i.strategy
  divergenceType := divergenceType
  severity := i.policy.severityFor divergenceType
  timestamp := timestamp
  windowStart := i.windowStart
  windowEnd := i.windowEnd
  expectedValue := expected
  observedValue := observed
  sourceReference := (i.referenceSource, i.observedSource)
  category := category
  explanation := explanation

end Quantive.Divergence
