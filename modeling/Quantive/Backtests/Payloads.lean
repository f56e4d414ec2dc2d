import Quantive.Backtests.Results

/-!
# The payloads of a backtest

The payloads of `backtests/contracts.py` that are hashed to the `run_id` of a result and to its
`result_hash`, with the texts of their decimals, datetimes and UUIDs.
-/

namespace Quantive.Backtests
open LiveStrategy (SignalDirection StrategyEventType)
open Strategies (JsonObject CanonicalStrategyDefinition optionJson)

/-! ### Texts -/

/-- `Decimal.__str__` -/
def Dec.str (d : Dec) : String :=
  let digits := Nat.toDigits 10 d.coefficient
  let leftDigits := d.exponent + digits.length
  let dotPlace := if d.exponent ≤ 0 ∧ -6 < leftDigits then leftDigits else 1
  let number :=
    if dotPlace ≤ 0 then '0' :: '.' :: (List.replicate (-dotPlace).toNat '0' ++ digits)
    else if digits.length ≤ dotPlace then
      digits ++ List.replicate (dotPlace - digits.length).toNat '0'
    else digits.take dotPlace.toNat ++ '.' :: digits.drop dotPlace.toNat
  let exponent :=
    if leftDigits = dotPlace then []
    else 'E' :: (if leftDigits < dotPlace then '-' else '+') ::
      Nat.toDigits 10 (leftDigits - dotPlace).natAbs
  String.ofList ((if d.negative then ['-'] else []) ++ number ++ exponent)

/-- The month and the day after `n` days, by the lengths of the months left. -/
def monthAndDay : List ℕ → ℕ → ℕ → ℕ × ℕ
  | [], month, n => (month, n + 1)
  | length :: rest, month, n =>
    if n < length then (month, n + 1) else monthAndDay rest (month + 1) (n - length)

/-- The date `n` days after 0001-01-01, as `_ord2ymd` finds it. -/
def civil (n : ℕ) : ℕ × ℕ × ℕ :=
  let n400 := n / 146097
  let n100 := n % 146097 / 36524
  let n4 := n % 146097 % 36524 / 1461
  let n1 := n % 146097 % 36524 % 1461 / 365
  let year := n400 * 400 + n100 * 100 + n4 * 4 + n1 + 1
  if n1 = 4 ∨ n100 = 4 then (year - 1, 12, 31)
  else
    let february := if n1 = 3 ∧ (n4 ≠ 24 ∨ n100 = 3) then 29 else 28
    (year, monthAndDay [31, february, 31, 30, 31, 30, 31, 31, 30, 31, 30, 31] 1
      (n % 146097 % 36524 % 1461 % 365))

/-- The date and the time of an instant, then its zone. -/
def dateTimeText (zone : String) (t : ℤ) : String :=
  let (year, month, dayOfMonth) := civil ((t - firstInstant) / day).toNat
  let time := (t % day).toNat
  let micros := time % 1000000
  let two := fun n => paddedDigits 2 n
  String.ofList (paddedDigits 4 year ++ '-' :: two month ++ '-' :: two dayOfMonth ++
    'T' :: two (time / 3600000000) ++ ':' :: two (time / 60000000 % 60) ++
    ':' :: two (time / 1000000 % 60) ++ (if micros = 0 then [] else '.' :: paddedDigits 6 micros)) ++ zone

/-- `datetime.isoformat` -/
def isoformat := dateTimeText "+00:00"

/-- The JSON text of a datetime in pydantic. -/
def jsonDatetime := dateTimeText "Z"

def hexDigits (width n : ℕ) : List Char := (Nat.toDigits 16 n).leftpad width '0'

/-- `str(UUID)` -/
def uuidText (u : Fin (2 ^ 128)) : String :=
  let digits := hexDigits 32 u
  String.ofList (digits.take 8 ++ '-' :: (digits.drop 8).take 4 ++ '-' :: (digits.drop 12).take 4 ++
    '-' :: (digits.drop 16).take 4 ++ '-' :: digits.drop 20)

def StrategyEventType.value : StrategyEventType → String
  | .signal => "signal"
  | .entry => "entry"
  | .exit => "exit"
  | .position => "position"

/-! ### Payloads -/

def BacktestDataReference.modelDump (r : BacktestDataReference) : Json := .obj
  [("source", .str r.source), ("version", .str r.version),
    ("coverage_fingerprint", optionJson .str r.coverageFingerprint)]

def ReproducibilityMetadata.modelDump (r : ReproducibilityMetadata JsonObject) : Json := .obj
  [("evaluator_id", .str r.evaluatorId), ("evaluator_revision", .str r.evaluatorRevision),
    ("random_seed", optionJson (fun n => .number (.int n)) r.randomSeed),
    ("runtime_config", r.runtimeConfig.modelDump)]

def Dec.json (d : Dec) : Json := .str d.str

def BacktestMetrics.modelDump (m : BacktestMetrics Dec) : Json :=
  let ratio := optionJson Dec.json
  let count := fun n : ℤ => Json.number (.int n)
  .obj
    [("total_return", ratio m.totalReturn), ("max_drawdown", ratio m.maxDrawdown),
      ("annualized_volatility", ratio m.annualizedVolatility), ("sharpe_ratio", ratio m.sharpeRatio),
      ("sortino_ratio", ratio m.sortinoRatio), ("calmar_ratio", ratio m.calmarRatio),
      ("value_at_risk", ratio m.valueAtRisk), ("exposure", m.exposure.json),
      ("benchmark_return", ratio m.benchmarkReturn),
      ("benchmark_excess_return", ratio m.benchmarkExcessReturn), ("trade_count", count m.tradeCount),
      ("winning_trade_count", count m.winningTradeCount),
      ("losing_trade_count", count m.losingTradeCount),
      ("breakeven_trade_count", count m.breakevenTradeCount), ("fees_paid", m.feesPaid.json),
      ("slippage_paid", m.slippagePaid.json)]

def Trade.modelDump (t : Trade) : Json := .obj
  [("sequence", .number (.int t.sequence)), ("asset_id", .number (.int t.assetId)),
    ("direction", .str (Strategies.SignalDirection.value t.direction)),
    ("entry_time", .str (jsonDatetime t.entryTime)), ("exit_time", .str (jsonDatetime t.exitTime)),
    ("entry_price", t.entryPrice.json), ("exit_price", t.exitPrice.json),
    ("quantity", t.quantity.json), ("gross_pnl", t.grossPnl.json), ("net_pnl", t.netPnl.json),
    ("fees_paid", t.feesPaid.json), ("slippage_paid", t.slippagePaid.json),
    ("entry_signal_id", optionJson .str t.entrySignalId),
    ("exit_signal_id", optionJson .str t.exitSignalId), ("metadata", t.metadata.modelDump)]

def Signal.modelDump (s : Signal) : Json := .obj
  [("sequence", .number (.int s.sequence)), ("asset_id", .number (.int s.assetId)),
    ("event_type", .str (StrategyEventType.value s.eventType)),
    ("event_time", .str (jsonDatetime s.eventTime)), ("observed_at", .str (jsonDatetime s.observedAt)),
    ("signal_id", optionJson .str s.signalId),
    ("position_state", optionJson (fun p => .str (Strategies.SignalDirection.value p)) s.positionState),
    ("payload", s.payload.modelDump)]

structure BacktestStrategySnapshot where
  strategyId : Fin (2 ^ 128)
  strategyVersionId : Fin (2 ^ 128)
  strategyVersionNumber : ℤ
  strategyDefinitionHash : String
  definition : CanonicalStrategyDefinition

/-- `_hash_payload`, `contracts.py:409-417`; `canonicalize_json` accepts every JSON value
(`canonicalizeJson_ofJson`). -/
def hashPayload (payload : Json) : String :=
  String.ofList (hexDigits 64 (Sha256.sha256 (Sha256.utf8 (Json.dumpsSorted payload.canonicalize))))

structure CanonicalBacktestResult where
  input : BacktestResultInput
  strategy : BacktestStrategySnapshot

namespace CanonicalBacktestResult
variable (r : CanonicalBacktestResult)

def runIdentityPayload : Json :=
  let definition := r.strategy.definition
  .obj
    [("strategy", .obj
        [("strategy_id", .str (uuidText r.strategy.strategyId)),
          ("strategy_version_id", .str (uuidText r.strategy.strategyVersionId)),
          ("strategy_version_number", .number (.int r.strategy.strategyVersionNumber)),
          ("definition_hash", .str r.strategy.strategyDefinitionHash),
          ("timeframe", .str definition.timeframe.value),
          ("universe", .arr (definition.universe.map (·.modelDump))),
          ("parameters", definition.parameters.modelDump),
          ("execution", definition.execution.modelDump)]),
      ("data", r.input.fields.data.modelDump),
      ("window", .obj
        [("start_time", .str (isoformat r.input.fields.startTime)),
          ("end_time", .str (isoformat r.input.fields.endTime))]),
      ("initial_capital", r.input.fields.initialCapital.json),
      ("reproducibility", r.input.fields.reproducibility.modelDump)]

def runId : String := hashPayload r.runIdentityPayload

def resultPayload : Json :=
  let trades := r.input.fields.trades.insertionSort fun t u => t.sequence ≤ u.sequence
  let signals := r.input.fields.signals.insertionSort fun s t => s.sequence ≤ t.sequence
  .obj
    [("run_id", .str r.runId), ("final_equity", r.input.fields.finalEquity.json),
      ("metrics", r.input.fields.metrics.modelDump), ("trades", .arr (trades.map Trade.modelDump)),
      ("signals", .arr (signals.map Signal.modelDump))]

def resultHash : String := hashPayload r.resultPayload

end CanonicalBacktestResult

example : isoformat 1767225600000000 = "2026-01-01T00:00:00+00:00" := by decide +kernel

end Quantive.Backtests
