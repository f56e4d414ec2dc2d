import Quantive.Candles.Ingestion

/-!
# Klines

`BinanceClient.get_klines` of `connectors/binance.py`: pages of at most 1000 klines, checked
one by one and handed to the consumer of the generator as they come.
-/

namespace Quantive.Candles
open Quantive.ReadCommitted Prog

/-- The checks on the numbers of a kline, `binance.py:144-160`. -/
def checkKline (v : Ohlcv) : Except Failure Unit := do
  if v.open ≤ 0 ∨ v.high ≤ 0 ∨ v.low ≤ 0 ∨ v.close ≤ 0 then
    throw (.payloadCorruption "Price must be strictly positive (> 0)")
  if v.volume < 0 then
    throw (.payloadCorruption "Volume cannot be negative")
  if v.high < v.low - epsilon then
    throw (.payloadCorruption "High price < Low price")
  if v.open < v.low - epsilon ∨ v.high + epsilon < v.open then
    throw (.payloadCorruption "Open price outside [low, high]")
  if v.close < v.low - epsilon ∨ v.high + epsilon < v.close then
    throw (.payloadCorruption "Close price outside [low, high]")

/-- The candle a kline is yielded as. -/
def Kline.payload (k : Kline) (receivedAt : ℤ) : CandlePayload :=
  { timestamp := k.openTimeMs * millisecond
    «open» := some k.values.open, high := some k.values.high, low := some k.values.low
    close := some k.values.close, volume := some k.values.volume
    source := some "binance_rest"
    sourceEventTime := k.closeTimeMs.map (· * millisecond)
    sourceReceivedAt := some receivedAt }

section
variable {σ : Type} (consume : σ → CandlePayload → Task σ)

/-- The loop over the elements of a page. -/
def yieldKlines : List (Option Kline) → σ → Task σ
  | [], s => pure s
  | none :: _, _ => raise (.payloadCorruption "Malformed kline element structure")
  | some k :: rest, s => do
    Task.ofExcept (checkKline k.values)
    let receivedAt ← Task.now
    let s ← consume s (k.payload receivedAt)
    yieldKlines rest s

/-- The limit of a request. -/
def klinesLimit : ℕ := 1000

/-- The open time of the last element; the element loop has rejected a malformed one. -/
def lastOpenTime (elements : List (Option Kline)) : ℤ :=
  match elements.getLast? with
  | some (some k) => k.openTimeMs
  | _ => 0

/-- The pages from `current` on; the fuel bounds their number. -/
def klinePages (symbol : String) (stop : ℤ) : ℕ → ℤ → σ → Task σ
  | 0, _, _ => stuck
  | fuel + 1, current, s => do
    if current < stop then
      match ← (query (Question.klines ⟨symbol, current, stop, klinesLimit⟩) : Task KlinesResponse) with
      | .raised e => raise e
      | .notList => raise (.payloadCorruption "Expected klines list")
      | .klines [] => pure s
      | .klines elements =>
        let s ← yieldKlines consume elements s
        if elements.length < klinesLimit then pure s
        else klinePages symbol stop fuel (lastOpenTime elements + 1) s
    else pure s

/-- `get_klines` for the interval `1m`, `binance.py:104-195`. -/
def getKlines (symbol : String) (startTime endTime : ℤ) (fuel : ℕ) (s : σ) : Task σ :=
  klinePages consume symbol (milliseconds endTime) fuel (milliseconds startTime) s

end
/-! ### What these programs write -/

section
variable {O : (q : Question) → Answer q → Prop} {S : Write → Prop} {A : Question → Prop}
  {σ : Type} {consume : σ → CandlePayload → Task σ}

theorem emits_yieldKlines (hA : LocalQuestions A) (hconsume : ∀ s c, (consume s c).Emits O S A)
    (elements : List (Option Kline)) (s : σ) : (yieldKlines consume elements s).Emits O S A := by
  induction elements generalizing s with
  | nil => trivial
  | cons k rest ih =>
    cases k with
    | none => trivial
    | some k =>
      refine (emits_ofExcept _).bind fun _ => (emits_now hA).bind fun receivedAt => ?_
      exact (hconsume _ _).bind fun s => ih s

/-- The requests of a stream have its symbol and its end. -/
def StreamQuestion (symbol : String) (stop : ℤ) : Question → Prop
  | .klines request => request.symbol = symbol ∧ request.endTime = stop
  | _ => True

theorem StreamQuestion.localQuestions (symbol : String) (stop : ℤ) :
    LocalQuestions (StreamQuestion symbol stop) := ⟨trivial, trivial, trivial⟩

theorem emits_klinePages (hA : LocalQuestions A) {symbol : String} {stop : ℤ}
    (hklines : ∀ start, A (.klines ⟨symbol, start, stop, klinesLimit⟩))
    (hconsume : ∀ s c, (consume s c).Emits O S A) (fuel : ℕ) (current : ℤ) (s : σ) :
    (klinePages consume symbol stop fuel current s).Emits O S A := by
  induction fuel generalizing current s with
  | zero => trivial
  | succ fuel ih =>
    unfold klinePages
    split
    · refine Emits.bind ((emits_query _).mpr (hklines current)) fun r => ?_
      split
      · trivial
      · trivial
      · trivial
      · refine (emits_yieldKlines hA hconsume _ s).bind fun s => ?_
        split
        · trivial
        · exact ih _ s
    · trivial

end

end Quantive.Candles
