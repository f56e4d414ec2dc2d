import Mathlib.Data.List.Sort
import Mathlib.Order.WithBot
import Quantive.Divergence.Contracts

/-!
# `compare`

The five comparators of `divergence/contracts.py` and what `compare` makes of their findings.
`digest` is the fingerprint of a payload.
-/

namespace Quantive.Divergence

open LiveStrategy (PositionState StrategyEventType)
open Monitoring (ComparisonStatus DivergenceType)
open PythonTuple (Atom)
open KeyedPairing (Matching)

/-! ### Pairing -/

/-- `StrategyEventType.value` -/
def eventTypeValue : StrategyEventType → String
  | .signal => "signal"
  | .entry => "entry"
  | .exit => "exit"
  | .position => "position"

def ExecutionSide.value : ExecutionSide → String
  | entry => "entry"
  | exit => "exit"

def ExecutionDirection.value : ExecutionDirection → String
  | long => "long"
  | short => "short"

/-- `_point_key` of each kind of record. -/
def SignalPoint.key (p : SignalPoint) : List Atom :=
  [.number p.assetId, .text (eventTypeValue p.eventType), .optional p.signalId]

def CandlePoint.key (p : CandlePoint) : List Atom := [.number p.assetId]

def ExecutionPoint.key (p : ExecutionPoint) : List Atom :=
  [.number p.assetId, .text p.side.value, .text p.direction.value, .optional p.signalId]

def PositionPoint.key (p : PositionPoint) : List Atom := [.number p.assetId]

section
variable {α : Type} (time : α → ℤ) (key : α → List Atom)

/-- `sorted(points, key=lambda item: (getattr(item, time_field), _point_key(item)))` -/
def chronological (points : List α) : Except Raised (List α) :=
  (RaisingSort.sorted (fun x y => PythonTuple.keyLt (time x, key x) (time y, key y)) points).mapError
    fun _ => .typeError

/-- `_pair_points` -/
def pairPoints (expected observed : List α) : Except Raised (Matching α) := do
  let observed ← chronological time key observed
  let expected ← chronological time key expected
  let m := KeyedPairing.pairUp key expected observed
  let unmatched ← chronological time key m.observedOnly
  pure { m with observedOnly := unmatched }

end

/-! ### Differences -/

/-- The result of a decimal operation. -/
def arithmetic : Option ℚ → Except Raised ℚ
  | some q => .ok q
  | none => .error .overflow

/-- `abs(expected - observed)` -/
def difference (expected observed : ℚ) : Except Raised ℚ := do
  let d ← arithmetic (Decimal.sub expected observed)
  pure |d|

/-- `_bps_difference`; `⊤` is `Decimal("Infinity")`. -/
def bpsDifference (expected observed : ℚ) : Except Raised (WithTop ℚ) :=
  if expected = 0 then pure (if observed ≠ 0 then ⊤ else 0)
  else do
    let d ← arithmetic (Decimal.sub observed expected)
    let r ← arithmetic (Decimal.div |d| |expected|)
    let b ← arithmetic (Decimal.mul r 10000)
    pure b

/-- `abs((observed - expected).total_seconds()) > tolerance` -/
def beyond (toleranceSeconds : ℕ) (expected observed : ℤ) : Bool :=
  second * toleranceSeconds < |observed - expected|

/-! ### The comparators -/

section
variable (i : ComparisonInput)

def missingSignal (e : SignalPoint) : DivergenceFinding :=
  finding i .missingSignal (some e.eventTime) (.signal e) .nothing "signal"
    "Expected strategy event has no matching live event."

def signalPair (p : SignalPoint × SignalPoint) : List DivergenceFinding :=
  if beyond i.policy.signalTimingToleranceSeconds p.1.eventTime p.2.eventTime then
    [finding i .signalTimingDifference (some p.2.eventTime) (.signal p.1) (.signal p.2) "signal"
      "Signal timing differs beyond the explicitly configured tolerance; no cause is inferred."]
  else []

def unexpectedSignal (o : SignalPoint) : DivergenceFinding :=
  finding i .unexpectedSignal (some o.eventTime) .nothing (.signal o) "signal"
    "Live strategy event has no matching reference event."

/-- `_compare_signals` -/
def compareSignals : Except Raised (List DivergenceFinding) := do
  let m ← pairPoints (·.eventTime) SignalPoint.key i.expectedSignals i.observedSignals
  pure (m.pairs.flatMap (signalPair i) ++ m.expectedOnly.map (missingSignal i) ++
    m.observedOnly.map (unexpectedSignal i))

def missingCandle (e : CandlePoint) : DivergenceFinding :=
  finding i .marketDataMissingCandle (some e.timestamp) (.candle e) .nothing "market_data"
    "Reference candle has no observed canonical counterpart."

/-- The greatest difference of the four prices. -/
def priceDifference (e o : CandlePoint) : Except Raised (WithTop ℚ) := do
  let a ← bpsDifference e.open o.open
  let b ← bpsDifference e.high o.high
  let c ← bpsDifference e.low o.low
  let d ← bpsDifference e.close o.close
  pure (max (max (max a b) c) d)

def candlePair (p : CandlePoint × CandlePoint) : Except Raised (List DivergenceFinding) :=
  let (e, o) := p
  if beyond i.policy.marketTimestampToleranceSeconds e.timestamp o.timestamp then
    pure [finding i .marketDataTimestampMismatch (some o.timestamp) (.candle e) (.candle o)
      "market_data" "Candle timestamps differ beyond the configured tolerance; this is a data discrepancy, not causal attribution."]
  else do
    let corrected := match e.revision, o.revision with
      | some r, some r' =>
        if r ≠ r' then [finding i .marketDataCorrectedCandle (some o.timestamp)
          (.revision e.assetId r) (.revision o.assetId r') "market_data"
          "Candle revisions differ, indicating a correction or source-version discrepancy."]
        else []
      | _, _ => []
    let price ← priceDifference e o
    let ohlc := if (i.policy.ohlcToleranceBps : WithTop ℚ) < price then
        [finding i .marketDataOhlcDiscrepancy (some o.timestamp) (.candle e) (.candle o) "market_data"
          "OHLC values differ beyond the configured tolerance; no downstream causal claim is made."]
      else []
    let v ← difference e.volume o.volume
    let volume := if i.policy.volumeTolerance < v then
        [finding i .marketDataVolumeDiscrepancy (some o.timestamp) (.volume e.assetId e.volume)
          (.volume o.assetId o.volume) "market_data"
          "Volume differs beyond the configured absolute tolerance."]
      else []
    pure (corrected ++ ohlc ++ volume)

def unexpectedCandle (o : CandlePoint) : DivergenceFinding :=
  finding i .marketDataTimestampMismatch (some o.timestamp) .nothing (.candle o) "market_data"
    "Observed candle has no reference timestamp counterpart."

/-- `_compare_candles` -/
def compareCandles : Except Raised (List DivergenceFinding) := do
  let m ← pairPoints (·.timestamp) CandlePoint.key i.expectedCandles i.observedCandles
  let pairs ← m.pairs.mapM (candlePair i)
  pure (pairs.flatten ++ m.expectedOnly.map (missingCandle i) ++
    m.observedOnly.map (unexpectedCandle i))

def missingExecution (e : ExecutionPoint) : DivergenceFinding :=
  finding i (if e.side = .entry then .missingExpectedEntry else .missingExpectedExit)
    (some e.executionTime) (.execution e) .nothing "execution"
    "Expected execution has no actual execution record."

/-- Whether two optional amounts are both known and differ by more than the tolerance. -/
def paidDiffers (tolerance : ℚ) : Option ℚ → Option ℚ → Except Raised Bool
  | some e, some o => do
    let d ← difference e o
    pure (tolerance < d)
  | _, _ => pure false

/-- The condition of an `execution_slippage` finding. -/
def executionSlipped (e o : ExecutionPoint) : Except Raised Bool := do
  let price ← bpsDifference e.price o.price
  if (i.policy.executionPriceToleranceBps : WithTop ℚ) < price then pure true
  else paidDiffers i.policy.slippageTolerance e.slippagePaid o.slippagePaid

def executionPair (p : ExecutionPoint × ExecutionPoint) : Except Raised (List DivergenceFinding) := do
  let (e, o) := p
  let delay := if beyond i.policy.executionDelayToleranceSeconds e.executionTime o.executionTime then
      [finding i .executionDelay (some o.executionTime) (.execution e) (.execution o) "execution"
        "Execution timestamps differ beyond the configured tolerance; this does not establish a cause."]
    else []
  let slipped ← executionSlipped i e o
  let slippage := if slipped then
      [finding i .executionSlippage (some o.executionTime) (.execution e) (.execution o) "execution"
        "Execution price or recorded slippage differs beyond configured tolerance; this is an observed discrepancy."]
    else []
  let charged ← paidDiffers i.policy.feeTolerance e.feesPaid o.feesPaid
  let fees := if charged then
      [finding i .feeDifference (some o.executionTime)
        (.fees e.assetId e.side e.signalId (e.feesPaid.getD 0))
        (.fees o.assetId o.side o.signalId (o.feesPaid.getD 0)) "execution"
        "Recorded fees differ beyond the configured tolerance."]
    else []
  pure (delay ++ slippage ++ fees)

def unexpectedExecution (o : ExecutionPoint) : DivergenceFinding :=
  finding i (if o.side = .entry then .unexpectedEntry else .unexpectedExit) (some o.executionTime)
    .nothing (.execution o) "execution" "Actual execution has no expected reference record."

/-- `_compare_executions` -/
def compareExecutions : Except Raised (List DivergenceFinding) := do
  let m ← pairPoints (·.executionTime) ExecutionPoint.key i.expectedExecutions i.observedExecutions
  let pairs ← m.pairs.mapM (executionPair i)
  pure (pairs.flatten ++ m.expectedOnly.map (missingExecution i) ++
    m.observedOnly.map (unexpectedExecution i))

def positionPair (p : PositionPoint × PositionPoint) : Except Raised (List DivergenceFinding) := do
  let (e, o) := p
  let state := if e.positionState ≠ o.positionState then
      [finding i .positionMismatch (some o.timestamp) (.position e) (.position o) "position"
        "Expected and observed position states differ; this is state comparison, not causal attribution."]
    else []
  let differs ← paidDiffers i.policy.exposureTolerance e.exposure o.exposure
  let exposure := if differs then
      [finding i .exposureMismatch (some o.timestamp) (.exposure e.assetId (e.exposure.getD 0))
        (.exposure o.assetId (o.exposure.getD 0)) "position"
        "Position exposure differs beyond the configured tolerance."]
    else []
  pure (state ++ exposure)

def missingPosition (e : PositionPoint) : DivergenceFinding :=
  finding i .positionMismatch (some e.timestamp) (.position e) .nothing "position"
    "Expected position snapshot has no observed snapshot."

def unexpectedPosition (o : PositionPoint) : List DivergenceFinding :=
  if o.positionState ≠ .flat then
    [finding i .unexpectedPositionPersistence (some o.timestamp) .nothing (.position o) "position"
      "Observed non-flat position has no expected snapshot."]
  else []

/-- `_compare_positions` -/
def comparePositions : Except Raised (List DivergenceFinding) := do
  let m ← pairPoints (·.timestamp) PositionPoint.key i.expectedPositions i.observedPositions
  let pairs ← m.pairs.mapM (positionPair i)
  pure (pairs.flatten ++ m.expectedOnly.map (missingPosition i) ++
    m.observedOnly.flatMap (unexpectedPosition i))

def metricDifference (field : String) (divergenceType : DivergenceType) (tolerance : ℚ)
    (expected observed : Option ℚ) : Except Raised (List DivergenceFinding) := do
  let differs ← paidDiffers tolerance expected observed
  pure (if differs then
      [finding i divergenceType none (.metric field (expected.getD 0)) (.metric field (observed.getD 0))
        "performance" (field ++ " differs beyond the configured tolerance; this is correlation only.")]
    else [])

def tradeCountDifference (e o : PerformancePoint) : List DivergenceFinding :=
  match e.tradeCount, o.tradeCount with
  | some m, some n =>
    if (i.policy.tradeCountTolerance : ℤ) < |(m : ℤ) - n| then
      [finding i .tradeFrequencyDifference none (.tradeCount m) (.tradeCount n) "performance"
        "Trade count differs beyond the configured tolerance."]
    else []
  | _, _ => []

def winRateDifference (e o : PerformancePoint) : Except Raised (List DivergenceFinding) :=
  match e.tradeCount, o.tradeCount, e.winningTradeCount, o.winningTradeCount with
  | some m, some n, some v, some w =>
    if m ≠ 0 ∧ n ≠ 0 then do
      let er ← arithmetic (Decimal.div v m)
      let or ← arithmetic (Decimal.div w n)
      let d ← difference er or
      pure (if i.policy.winRateTolerance < d then
          [finding i .winRateDifference none (.winRate er) (.winRate or) "performance"
            "Win rate differs beyond the configured tolerance."]
        else [])
    else pure []
  | _, _, _, _ => pure []

/-- `_compare_performance` -/
def comparePerformance : Except Raised (List DivergenceFinding) :=
  let incomplete (expected observed : Evidence) := finding i .insufficientReferenceData none
    expected observed "performance" "Performance comparison is incomplete and cannot be considered healthy."
  match i.expectedPerformance, i.observedPerformance with
  | none, none => pure []
  | some e, none => pure [incomplete (.performance e) .nothing]
  | none, some o => pure [incomplete .nothing (.performance o)]
  | some e, some o => do
    let a ← metricDifference i "total_return" .returnDifference i.policy.returnTolerance
      e.totalReturn o.totalReturn
    let b ← metricDifference i "max_drawdown" .drawdownDifference i.policy.drawdownTolerance
      e.maxDrawdown o.maxDrawdown
    let c ← metricDifference i "annualized_volatility" .volatilityDifference
      i.policy.volatilityTolerance e.annualizedVolatility o.annualizedVolatility
    let d ← metricDifference i "benchmark_return" .benchmarkRelativeDifference
      i.policy.benchmarkRelativeTolerance e.benchmarkReturn o.benchmarkReturn
    let rate ← winRateDifference i e o
    pure (a ++ b ++ c ++ d ++ tradeCountDifference i e o ++ rate)

/-! ### The findings together -/

/-- The findings on coverage and identity, `divergence/contracts.py:378-408`. -/
def identityFindings : List DivergenceFinding :=
  let missing := (if i.referenceComplete then [] else ["reference"]) ++
    if i.observedComplete then [] else ["observed"]
  let coverage := if missing = [] then [] else
    [finding i .insufficientReferenceData none (.referenceComplete i.referenceComplete)
      (.observedComplete i.observedComplete) "coverage"
      ("Comparison cannot be healthy: " ++ ", ".intercalate missing ++ " coverage is incomplete.")]
  let version := if i.strategy ≠ i.referenceStrategy then
      [finding i .strategyVersionMismatch none (.identity i.referenceStrategy) (.identity i.strategy)
        "strategy_identity"
        "Reference and live strategy identities differ; behavior is not directly comparable."]
    else []
  let configuration := match i.expectedConfigurationHash, i.observedConfigurationHash with
    | some h, some h' =>
      if h ≠ h' then [finding i .configurationMismatch none (.configurationHash h)
        (.configurationHash h') "strategy_state"
        "Configuration hashes differ; this detects an input mismatch, not its cause."]
      else []
    | _, _ => []
  coverage ++ version ++ configuration

def issueFinding (issue : DataIssue) : DivergenceFinding :=
  finding i issue.divergenceType (some issue.timestamp) .nothing (.issue issue.observed)
    (if issue.divergenceType ≠ .evaluatorFailure then "market_data" else "strategy_state")
    issue.explanation

/-- The list `findings`. -/
def allFindings : Except Raised (List DivergenceFinding) := do
  let signals ← compareSignals i
  let candles ← compareCandles i
  let executions ← compareExecutions i
  let positions ← comparePositions i
  let performance ← comparePerformance i
  pure (identityFindings i ++ i.observedDataIssues.map (issueFinding i) ++ signals ++ candles ++
    executions ++ positions ++ performance)

variable (digest : FindingPayload → ℕ)

def DivergenceFinding.fingerprint (f : DivergenceFinding) : ℕ := digest f.toFindingPayload

/-- `d[fingerprint] = f`: a key that is there keeps its place. -/
def setItem (f : DivergenceFinding) : List DivergenceFinding → List DivergenceFinding
  | [] => [f]
  | g :: rest => if g.fingerprint digest = f.fingerprint digest then f :: rest else g :: setItem f rest

/-- `deduped` -/
def deduped (findings : List DivergenceFinding) : List DivergenceFinding :=
  findings.foldl (fun d f => setItem digest f d) []

/-- The key of the final sort. -/
def findingKey (f : DivergenceFinding) : ℤ ×ₗ String ×ₗ ℕ :=
  toLex (f.timestamp.getD i.windowStart, toLex (value f.divergenceType, f.fingerprint digest))

def resultOf (findings : List DivergenceFinding) : ComparisonResult :=
  let ordered := (deduped digest findings).insertionSort fun f g =>
    findingKey i digest f ≤ findingKey i digest g
  { status :=
      if ordered.any (·.divergenceType = .insufficientReferenceData) then .insufficientReference
      else if ordered ≠ [] then .divergent else .healthy
    findings := ordered }

/-- `compare` -/
def compare : Except Raised ComparisonResult := do
  let findings ← allFindings i
  pure (resultOf i digest findings)

end

end Quantive.Divergence
