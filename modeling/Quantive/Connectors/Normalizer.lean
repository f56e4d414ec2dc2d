import Quantive.Connectors.Messages
import Quantive.WsSharding.Assignment

/-!
# Kline messages

`parse_binance_kline_message` of `connectors/normalizer.py`, with the exceptions that its handlers
let through.
-/

namespace Quantive.Connectors
open Strategies (CaseMapping strip asciiCases)
open WsSharding (normalizeSymbol)

/-- The exceptions that the parser documents, and the two others that reach its caller. -/
inductive ParserError where
  | malformed (message : String)
  | unknownMessageType (message : String)
  | invalidSymbol (message : String)
  | attributeError
  | overflowError
  deriving DecidableEq

def Documented {α : Type} : Except ParserError α → Prop
  | .error .attributeError => False
  | .error .overflowError => False
  | _ => True

/-- `loaded` is what `json.loads` makes of a text, `none` when it raises. -/
inductive RawMessage where
  | text (loaded : Option Value)
  | object (fields : Fields)
  | other

structure CandleEvent where
  symbol : String
  /-- Shown by `str`. -/
  interval : Value
  timestamp : ℤ
  closeTime : ℤ
  «open» : Double
  high : Double
  low : Double
  close : Double
  volume : Double
  quoteVolume : Option Double
  tradeCount : Option ℤ
  takerBuyBaseVolume : Option Double
  takerBuyQuoteVolume : Option Double
  isClosed : Bool
  source : String := "binance_ws"
  eventTime : Option ℤ
  receivedAt : ℤ

/-- `1e-9` -/
def epsilon : ℚ := Double.nearest (1 / 1000000000)

/-- The validators of `CandleEvent`, `models.py:46-86`. -/
def CandleEvent.valid (e : CandleEvent) : Bool :=
  !([e.open, e.high, e.low, e.close].any fun price => price.le (.finite 0)) &&
  !(e.volume.lt (.finite 0)) &&
  !([e.quoteVolume, e.takerBuyBaseVolume, e.takerBuyQuoteVolume].any fun volume =>
    volume.any fun v => v.lt (.finite 0)) &&
  !(e.high.lt (e.low.add (-epsilon))) &&
  !(e.open.lt (e.low.add (-epsilon)) || (e.high.add epsilon).lt e.open) &&
  !(e.close.lt (e.low.add (-epsilon)) || (e.high.add epsilon).lt e.close) &&
  !(e.closeTime < e.timestamp)

/-! ### Fields -/

/-- `conversion(k[name])` -/
def required {α : Type} (k : Fields) (name : String) (conversion : Value → Except Fault α) :
    Except Fault α :=
  match k.lookup name with
  | none => .error .missing
  | some v => conversion v

/-- `normalizer.py:90-94` -/
def readTimes (k : Fields) : Except Fault (ℤ × ℤ) := do
  let startMs ← required k "t" Value.toInt
  let closeMs ← required k "T" Value.toInt
  let timestamp ← fromTimestampMs startMs
  let closeTime ← fromTimestampMs closeMs
  pure (timestamp, closeTime)

/-- `normalizer.py:108-113` -/
def readPrices (k : Fields) : Except Fault (Double × Double × Double × Double × Double) := do
  let «open» ← required k "o" Value.toFloat
  let high ← required k "h" Value.toFloat
  let low ← required k "l" Value.toFloat
  let close ← required k "c" Value.toFloat
  let volume ← required k "v" Value.toFloat
  pure («open», high, low, close, volume)

/-- The handlers of the required fields. -/
def caught {α : Type} (missing invalid : String) : Except Fault α → Except ParserError α
  | .ok a => .ok a
  | .error .missing => .error (.malformed missing)
  | .error .invalid => .error (.malformed invalid)
  | .error .overflow => .error .overflowError

/-- An optional field: what cannot be converted is left out. -/
def optional {α : Type} (k : Fields) (name : String) (conversion : Value → Except Fault α) :
    Except ParserError (Option α) :=
  match k.lookup name with
  | none => .ok none
  | some .null => .ok none
  | some v =>
    match conversion v with
    | .ok a => .ok (some a)
    | .error .overflow => .error .overflowError
    | .error _ => .ok none

/-- The event time, under a handler for every exception. -/
def readEventTime (data : Fields) : Option ℤ :=
  match data.lookup "E" with
  | none => none
  | some .null => none
  | some v => (v.toInt.bind fromTimestampMs).toOption

/-- `data.get("s") or k.get("s")` -/
def rawSymbol (data k : Fields) : Option Value :=
  match data.lookup "s" with
  | none => k.lookup "s"
  | some v => if v.truthy then some v else k.lookup "s"

section
variable (U : CaseMapping)

def symbolOf (data k : Fields) : Except ParserError String :=
  match (rawSymbol data k).filter Value.truthy with
  | none => .error (.invalidSymbol "Missing symbol 's' in kline payload")
  | some (.str s) =>
    match normalizeSymbol U s with
    | .ok symbol => .ok symbol
    | .error _ => .error (.invalidSymbol "Invalid symbol")
  | some _ => .error (.invalidSymbol "Invalid symbol")

/-! ### Messages -/

/-- From the kline object on, `normalizer.py:80-176`. -/
def parseKline (data k : Fields) (receivedAt : ℤ) : Except ParserError CandleEvent := do
  let symbol ← symbolOf U data k
  let times ← caught "Missing required timestamp field in kline" "Invalid timestamp value in kline"
    (readTimes k)
  let prices ← caught "Missing required OHLCV field in kline"
    "Invalid numeric value for OHLCV in kline" (readPrices k)
  let quoteVolume ← optional k "q" Value.toFloat
  let tradeCount ← optional k "n" Value.toInt
  let takerBuyBase ← optional k "V" Value.toFloat
  let takerBuyQuote ← optional k "Q" Value.toFloat
  match k.lookup "x" with
  | none => .error (.malformed "Missing required 'x' (is_closed) boolean field in kline")
  | some x =>
    let event : CandleEvent :=
      { symbol := U.upper (strip symbol), interval := (k.lookup "i").getD (.str "1m")
        timestamp := times.1, closeTime := times.2
        «open» := prices.1, high := prices.2.1, low := prices.2.2.1, close := prices.2.2.2.1
        volume := prices.2.2.2.2, quoteVolume := quoteVolume, tradeCount := tradeCount
        takerBuyBaseVolume := takerBuyBase, takerBuyQuoteVolume := takerBuyQuote
        isClosed := x.truthy, eventTime := readEventTime data, receivedAt := receivedAt }
    if event.valid then .ok event else .error (.malformed "Candle validation invariant failed")

def payloadOf : RawMessage → Except ParserError Fields
  | .text none => .error (.malformed "Failed to decode WebSocket JSON message")
  | .text (some (.obj payload)) => .ok payload
  | .text (some _) => .error (.malformed "Expected JSON object payload")
  | .object payload => .ok payload
  | .other => .error (.malformed "Unsupported message type")

/-- The data of a combined stream, or the payload itself. -/
def bodyOf (payload : Fields) : Value :=
  match payload.lookup "data" with
  | none => .obj payload
  | some data => if (payload.lookup "stream").isSome then data else .obj payload

def isKlineEvent : Option Value → Bool
  | some (.str s) => s = "kline"
  | _ => false

/-- `normalizer.py:70-78` -/
def parseBody (receivedAt : ℤ) : Value → Except ParserError CandleEvent
  | .obj data =>
    if !isKlineEvent (data.lookup "e") then
      .error (.unknownMessageType "Message is not a kline event")
    else
      match data.lookup "k" with
      | some (.obj k) => parseKline U data k receivedAt
      | _ => .error (.malformed "Missing or invalid 'k' (kline) object in payload")
  | _ => .error .attributeError

/-- `parse_binance_kline_message`, `normalizer.py:24-176`. -/
def parseBinanceKlineMessage (raw : RawMessage) (receivedAt : ℤ) :
    Except ParserError CandleEvent := do
  let payload ← payloadOf raw
  if (payload.lookup "result").isSome && (payload.lookup "id").isSome then
    .error (.unknownMessageType "Received subscription acknowledgment")
  else if (payload.lookup "error").isSome then
    .error (.malformed "Exchange returned error payload")
  else
    parseBody U receivedAt (bodyOf payload)

end

/-! ### Overflow -/

inductive Conversion where
  | int
  | instant
  | float

/-- The conversion raises OverflowError: `int` of an infinity, an instant that is too far, `float`
of an integer beyond the floats. -/
def Conversion.Overflows : Conversion → Value → Prop
  | .int, v => ∃ negative, v = .float (.infinity negative)
  | .instant, v => ∃ ms, v.toInt = .ok ms ∧ TooFar ms
  | .float, v => ∃ z : ℤ, v = .int z ∧ ¬ Double.Fits z

/-- The conversion raises an exception that is caught. -/
def Conversion.Rejects : Conversion → Value → Prop
  | .int, v => v.toInt = .error .invalid
  | .instant, v => ∃ ms, v.toInt = .ok ms ∧ ¬ TooFar ms ∧ ¬ InCalendar (microseconds (secondsOf ms))
  | .float, v => v.toFloat = .error .invalid

/-- The required conversions in the order they are made. -/
def requiredFields : List (Conversion × String) :=
  [(.int, "t"), (.int, "T"), (.instant, "t"), (.instant, "T"), (.float, "o"), (.float, "h"),
    (.float, "l"), (.float, "c"), (.float, "v")]

def optionalFields : List (Conversion × String) :=
  [(.float, "q"), (.int, "n"), (.float, "V"), (.float, "Q")]

/-- No conversion overflows before a required field turns out missing or rejected. -/
def Clean (k : Fields) : List (Conversion × String) → Prop
  | [] => ∀ p ∈ optionalFields, ∀ v, k.lookup p.2 = some v → ¬ p.1.Overflows v
  | (c, name) :: rest => k.lookup name = none ∨
    ∃ v, k.lookup name = some v ∧ ¬ c.Overflows v ∧ (c.Rejects v ∨ Clean k rest)

theorem toInt_overflow {v : Value} : v.toInt = .error .overflow ↔ Conversion.int.Overflows v := by
  unfold Conversion.Overflows
  cases v with
  | float d => cases d <;> simp [Value.toInt]
  | str s =>
    cases hs : intOfText s.toList <;> simp [Value.toInt, hs]
  | _ => simp [Value.toInt]

theorem toFloat_overflow {v : Value} :
    v.toFloat = .error .overflow ↔ Conversion.float.Overflows v := by
  unfold Conversion.Overflows
  cases v with
  | int z => by_cases hz : Double.Fits z <;> simp [Value.toFloat, hz]
  | str s =>
    cases hs : floatOfText s.toList <;> simp [Value.toFloat, hs]
  | _ => simp [Value.toFloat]

theorem toInt_ne_missing (v : Value) : v.toInt ≠ .error .missing := by
  cases v with
  | float d => cases d <;> simp [Value.toInt]
  | str s =>
    cases hs : intOfText s.toList <;> simp [Value.toInt, hs]
  | _ => simp [Value.toInt]

theorem toFloat_ne_missing (v : Value) : v.toFloat ≠ .error .missing := by
  cases v with
  | int z => by_cases hz : Double.Fits z <;> simp [Value.toFloat, hz]
  | str s =>
    cases hs : floatOfText s.toList <;> simp [Value.toFloat, hs]
  | _ => simp [Value.toFloat]

section
variable {α β : Type} {missing invalid name : String} {k : Fields} {c : Conversion} {P : Prop}
  {steps : List (Conversion × String)}

theorem caught_bind (x : Except Fault α) (f : α → Except Fault β) :
    caught missing invalid (x >>= f) = caught missing invalid x >>= fun a =>
      caught missing invalid (f a) := by
  cases x with
  | ok a => rfl
  | error fault => cases fault <;> rfl

theorem documented_caught {g : α → Except ParserError β} (x : Except Fault α) :
    Documented (caught missing invalid x >>= g) ↔
      x ≠ .error .overflow ∧ ∀ a, x = .ok a → Documented (g a) := by
  cases x with
  | ok a =>
    show Documented (g a) ↔ _
    constructor
    · intro h
      exact ⟨(fun heq => by cases heq), fun b hb => Except.ok.inj hb ▸ h⟩
    · intro h
      exact h.2 a rfl
  | error fault =>
    cases fault with
    | overflow => exact iff_of_false (fun h => h) fun h => h.1 rfl
    | missing => exact iff_of_true trivial ⟨(fun heq => by cases heq), fun a ha => by cases ha⟩
    | invalid => exact iff_of_true trivial ⟨(fun heq => by cases heq), fun a ha => by cases ha⟩

/-- One required field: absent, rejected, or converted, and then the rest decides. -/
theorem documented_required {γ : Type} {conversion : Value → Except Fault α}
    {f : α → Except Fault γ} {g : γ → Except ParserError β}
    (hoverflow : ∀ v, k.lookup name = some v → (conversion v = .error .overflow ↔ c.Overflows v))
    (hreject : ∀ v, k.lookup name = some v → (conversion v = .error .invalid ↔ c.Rejects v))
    (hmissing : ∀ v, k.lookup name = some v → conversion v ≠ .error .missing)
    (hrest : ∀ v a, k.lookup name = some v → conversion v = .ok a →
      (Documented (caught missing invalid (f a) >>= g) ↔ P)) :
    Documented (caught missing invalid (required k name conversion >>= f) >>= g) ↔
      k.lookup name = none ∨ ∃ v, k.lookup name = some v ∧ ¬ c.Overflows v ∧ (c.Rejects v ∨ P) := by
  rw [caught_bind, bind_assoc, documented_caught]
  unfold required
  cases hv : k.lookup name with
  | none => exact iff_of_true ⟨(fun h => by cases h), fun a h => by cases h⟩ (.inl rfl)
  | some v =>
    have hover := hoverflow v hv
    have hrej := hreject v hv
    constructor
    · rintro ⟨hne, hall⟩
      refine .inr ⟨v, rfl, fun h => hne (hover.mpr h), ?_⟩
      cases hr : conversion v with
      | ok a => exact .inr ((hrest v a hv hr).mp (hall a hr))
      | error fault =>
        cases fault with
        | missing => exact absurd hr (hmissing v hv)
        | invalid => exact .inl (hrej.mp hr)
        | overflow => exact absurd hr hne
    · rintro (h | ⟨w, hw, hclean, hdecides⟩)
      · cases h
      · obtain rfl := Option.some.inj hw
        refine ⟨fun h => hclean (hover.mp h), fun a ha => ?_⟩
        rcases hdecides with hrejected | hP
        · have hinvalid := hrej.mpr hrejected
          rw [show conversion v = .ok a from ha] at hinvalid
          cases hinvalid
        · exact (hrest v a hv ha).mpr hP

theorem documented_int {γ : Type} {f : ℤ → Except Fault γ} {g : γ → Except ParserError β}
    (hrest : ∀ v z, k.lookup name = some v → v.toInt = .ok z →
      (Documented (caught missing invalid (f z) >>= g) ↔ Clean k steps)) :
    Documented (caught missing invalid (required k name Value.toInt >>= f) >>= g) ↔
      Clean k ((.int, name) :: steps) :=
  documented_required (fun _ _ => toInt_overflow) (fun _ _ => Iff.rfl)
    (fun v _ => toInt_ne_missing v) hrest

theorem documented_float {γ : Type} {f : Double → Except Fault γ} {g : γ → Except ParserError β}
    (hrest : ∀ d, Documented (caught missing invalid (f d) >>= g) ↔ Clean k steps) :
    Documented (caught missing invalid (required k name Value.toFloat >>= f) >>= g) ↔
      Clean k ((.float, name) :: steps) :=
  documented_required (fun _ _ => toFloat_overflow) (fun _ _ => Iff.rfl)
    (fun v _ => toFloat_ne_missing v) (fun _ d _ _ => hrest d)

theorem fromTimestampMs_overflow (ms : ℤ) :
    fromTimestampMs ms = .error .overflow ↔ TooFar ms := by
  unfold fromTimestampMs
  by_cases hfar : TooFar ms
  · simp [hfar]
  · by_cases hin : InCalendar (microseconds (secondsOf ms)) <;> simp [hfar, hin]

theorem fromTimestampMs_invalid (ms : ℤ) :
    fromTimestampMs ms = .error .invalid ↔
      ¬ TooFar ms ∧ ¬ InCalendar (microseconds (secondsOf ms)) := by
  unfold fromTimestampMs
  by_cases hfar : TooFar ms
  · simp [hfar]
  · by_cases hin : InCalendar (microseconds (secondsOf ms)) <;> simp [hfar, hin]

theorem fromTimestampMs_ne_missing (ms : ℤ) : fromTimestampMs ms ≠ .error .missing := by
  unfold fromTimestampMs
  by_cases hfar : TooFar ms
  · simp [hfar]
  · by_cases hin : InCalendar (microseconds (secondsOf ms)) <;> simp [hfar, hin]

/-- The instant of a field that has been read before. -/
theorem documented_instant {γ : Type} {f : ℤ → Except Fault γ} {g : γ → Except ParserError β}
    {v : Value} {ms : ℤ} (hv : k.lookup name = some v) (hms : v.toInt = .ok ms)
    (hrest : ∀ t, Documented (caught missing invalid (f t) >>= g) ↔ Clean k steps) :
    Documented (caught missing invalid (fromTimestampMs ms >>= f) >>= g) ↔
      Clean k ((.instant, name) :: steps) := by
  have hread : required k name (fun _ => fromTimestampMs ms) = fromTimestampMs ms := by
    simp [required, hv]
  have hone : ∀ w, k.lookup name = some w → w = v := fun w hw => by
    rw [hv] at hw
    exact (Option.some.inj hw).symm
  rw [← hread]
  refine documented_required (fun w hw => ?_) (fun w hw => ?_)
    (fun _ _ => fromTimestampMs_ne_missing ms) (fun _ t _ _ => hrest t)
  · rw [hone w hw, fromTimestampMs_overflow]
    simp [Conversion.Overflows, hms]
  · rw [hone w hw, fromTimestampMs_invalid]
    simp [Conversion.Rejects, hms]

theorem optional_overflow {conversion : Value → Except Fault α} {v : Value}
    (hnull : conversion .null ≠ .error .overflow) (hv : k.lookup name = some v)
    (hr : conversion v = .error .overflow) :
    optional k name conversion = .error .overflowError := by
  have hne : v ≠ .null := by
    rintro rfl
    exact hnull hr
  unfold optional
  rw [hv]
  cases v with
  | null => exact absurd rfl hne
  | _ => simp only [hr]

theorem optional_ok {conversion : Value → Except Fault α}
    (hne : ∀ v, k.lookup name = some v → conversion v ≠ .error .overflow) :
    ∃ a, optional k name conversion = .ok a := by
  unfold optional
  split
  · exact ⟨none, rfl⟩
  · exact ⟨none, rfl⟩
  · rename_i v _ hv
    have hv' := hne v hv
    split
    · rename_i a _
      exact ⟨some a, rfl⟩
    · rename_i hr
      exact absurd hr hv'
    · exact ⟨none, rfl⟩

theorem documented_optional {conversion : Value → Except Fault α}
    {g : Option α → Except ParserError β}
    (hoverflow : ∀ v, conversion v = .error .overflow ↔ c.Overflows v)
    (hnull : conversion .null ≠ .error .overflow) (hrest : ∀ a, Documented (g a) ↔ P) :
    Documented (optional k name conversion >>= g) ↔
      (∀ v, k.lookup name = some v → ¬ c.Overflows v) ∧ P := by
  by_cases hclean : ∀ v, k.lookup name = some v → ¬ c.Overflows v
  · have hne : ∀ v, k.lookup name = some v → conversion v ≠ .error .overflow :=
      fun v hv h => hclean v hv ((hoverflow v).mp h)
    obtain ⟨a, ha⟩ := optional_ok hne
    rw [ha]
    show Documented (g a) ↔ _
    rw [hrest a]
    exact (and_iff_right hclean).symm
  · have hfound := hclean
    push Not at hfound
    obtain ⟨v, hv, hover⟩ := hfound
    rw [optional_overflow hnull hv ((hoverflow v).mpr hover)]
    exact iff_of_false (fun h => h) fun h => hclean h.1

/-- The optional fields, and then what raises nothing else. -/
theorem documented_optionals
    {g : Option Double → Option ℤ → Option Double → Option Double → Except ParserError β}
    (hrest : ∀ q n base quote, Documented (g q n base quote)) :
    Documented (optional k "q" Value.toFloat >>= fun q => optional k "n" Value.toInt >>= fun n =>
      optional k "V" Value.toFloat >>= fun base => optional k "Q" Value.toFloat >>= fun quote =>
        g q n base quote) ↔ Clean k [] := by
  have hfloat : Value.null.toFloat ≠ .error .overflow := by simp [Value.toFloat]
  have hint : Value.null.toInt ≠ .error .overflow := by simp [Value.toInt]
  rw [documented_optional (fun _ => toFloat_overflow) hfloat fun q =>
    documented_optional (fun _ => toInt_overflow) hint fun n =>
    documented_optional (fun _ => toFloat_overflow) hfloat fun base =>
    documented_optional (fun _ => toFloat_overflow) hfloat fun quote =>
      iff_true_intro (hrest q n base quote)]
  simp [Clean, optionalFields]

theorem documented_readTimes {g : ℤ × ℤ → Except ParserError β}
    (hrest : ∀ times, Documented (g times) ↔ Clean k steps) :
    Documented (caught missing invalid (readTimes k) >>= g) ↔
      Clean k ((.int, "t") :: (.int, "T") :: (.instant, "t") :: (.instant, "T") :: steps) := by
  unfold readTimes
  refine documented_int fun start startMs hstart hstartMs => ?_
  refine documented_int fun close closeMs hclose hcloseMs => ?_
  refine documented_instant hstart hstartMs fun timestamp => ?_
  refine documented_instant hclose hcloseMs fun closeTime => ?_
  exact hrest (timestamp, closeTime)

theorem documented_readPrices {g : Double × Double × Double × Double × Double →
      Except ParserError β} (hrest : ∀ prices, Documented (g prices) ↔ Clean k steps) :
    Documented (caught missing invalid (readPrices k) >>= g) ↔
      Clean k ((.float, "o") :: (.float, "h") :: (.float, "l") :: (.float, "c") :: (.float, "v") ::
        steps) := by
  unfold readPrices
  refine documented_float fun «open» => ?_
  refine documented_float fun high => ?_
  refine documented_float fun low => ?_
  refine documented_float fun close => ?_
  refine documented_float fun volume => ?_
  exact hrest («open», high, low, close, volume)

end

variable (U : CaseMapping)

theorem documented_symbolOf {β : Type} (data k : Fields) (g : String → Except ParserError β) :
    Documented (symbolOf U data k >>= g) ↔
      ∀ symbol, symbolOf U data k = .ok symbol → Documented (g symbol) := by
  unfold symbolOf
  constructor
  · intro h symbol hsymbol
    rw [hsymbol] at h
    exact h
  · intro h
    split at h
    · trivial
    · split at h
      · exact h _ rfl
      · trivial
    · trivial

theorem documented_parseKline (data k : Fields) (receivedAt : ℤ) :
    Documented (parseKline U data k receivedAt) ↔
      ∀ symbol, symbolOf U data k = .ok symbol → Clean k requiredFields := by
  unfold parseKline
  rw [documented_symbolOf]
  refine forall₂_congr fun symbol _ => ?_
  refine documented_readTimes fun times => ?_
  refine documented_readPrices fun prices => ?_
  refine documented_optionals fun quoteVolume tradeCount takerBuyBase takerBuyQuote => ?_
  cases k.lookup "x" with
  | none => trivial
  | some x =>
    dsimp only
    split <;> trivial

theorem documented_parseBody (receivedAt : ℤ) (body : Value) :
    Documented (parseBody U receivedAt body) ↔
      ∃ data, body = .obj data ∧
        ∀ k symbol, isKlineEvent (data.lookup "e") → data.lookup "k" = some (.obj k) →
          symbolOf U data k = .ok symbol → Clean k requiredFields := by
  cases body with
  | obj data =>
    have hdata : Documented (parseBody U receivedAt (.obj data)) ↔
        ∀ k symbol, isKlineEvent (data.lookup "e") → data.lookup "k" = some (.obj k) →
          symbolOf U data k = .ok symbol → Clean k requiredFields := by
      cases hevent : isKlineEvent (data.lookup "e") with
      | false =>
        have hother : Documented (parseBody U receivedAt (.obj data)) := by
          simp [parseBody, hevent, Documented]
        exact iff_of_true hother fun k symbol h => by cases h
      | true =>
        rcases hk : data.lookup "k" with _ | v
        · have hnone : Documented (parseBody U receivedAt (.obj data)) := by
            simp [parseBody, hevent, hk, Documented]
          exact iff_of_true hnone fun k symbol _ h => by cases h
        · cases v with
          | obj k =>
            have hkline : parseBody U receivedAt (.obj data) = parseKline U data k receivedAt := by
              simp [parseBody, hevent, hk]
            rw [hkline, documented_parseKline]
            constructor
            · intro h k' symbol _ heq
              obtain rfl := Value.obj.inj (Option.some.inj heq)
              exact h symbol
            · intro h symbol
              exact h k symbol rfl rfl
          | _ =>
            refine iff_of_true ?_ fun k symbol _ h => by cases h
            simp [parseBody, hevent, hk, Documented]
    rw [hdata]
    constructor
    · intro h
      exact ⟨data, rfl, h⟩
    · rintro ⟨data', heq, h⟩
      obtain rfl := Value.obj.inj heq
      exact h
  | _ =>
    refine iff_of_false (fun h => h) ?_
    rintro ⟨data, heq, _⟩
    cases heq

theorem documented_payloadOf {raw : RawMessage} {e : ParserError}
    (h : payloadOf raw = .error e) : Documented (.error e : Except ParserError CandleEvent) := by
  unfold payloadOf at h
  split at h <;> cases h <;> trivial

/-- Undocumented errors come from a combined message whose data is no object, and from a kline in
which a conversion overflows before another fault is met. -/
theorem parseBinanceKlineMessage_documented_iff (raw : RawMessage) (receivedAt : ℤ) :
    Documented (parseBinanceKlineMessage U raw receivedAt) ↔
      ∀ payload, payloadOf raw = .ok payload →
        ¬((payload.lookup "result").isSome && (payload.lookup "id").isSome) →
        payload.lookup "error" = none →
        ∃ data, bodyOf payload = .obj data ∧
          ∀ k symbol, isKlineEvent (data.lookup "e") → data.lookup "k" = some (.obj k) →
            symbolOf U data k = .ok symbol → Clean k requiredFields := by
  unfold parseBinanceKlineMessage
  cases hpayload : payloadOf raw with
  | error e => exact iff_of_true (documented_payloadOf hpayload) fun payload h => by cases h
  | ok payload =>
    show Documented (if (payload.lookup "result").isSome && (payload.lookup "id").isSome then
      .error (.unknownMessageType "Received subscription acknowledgment")
      else if (payload.lookup "error").isSome then
        .error (.malformed "Exchange returned error payload")
      else parseBody U receivedAt (bodyOf payload)) ↔ _
    by_cases hack : ((payload.lookup "result").isSome && (payload.lookup "id").isSome) = true
    · rw [if_pos hack]
      refine iff_of_true trivial fun payload' heq hno => ?_
      obtain rfl := Except.ok.inj heq
      exact absurd hack hno
    · rw [if_neg hack]
      cases herror : payload.lookup "error" with
      | some v =>
        refine iff_of_true trivial fun payload' heq _ hnone => ?_
        obtain rfl := Except.ok.inj heq
        rw [herror] at hnone
        cases hnone
      | none =>
        show Documented (parseBody U receivedAt (bodyOf payload)) ↔ _
        rw [documented_parseBody]
        constructor
        · intro h payload' heq _ _
          obtain rfl := Except.ok.inj heq
          exact h
        · intro h
          exact h payload rfl hack herror

/-- A list as the data of a combined message, and an infinite start of a kline. -/
theorem parseBinanceKlineMessage_undocumented :
    ¬ Documented (parseBinanceKlineMessage asciiCases
      (.text (some (.obj [("stream", .str "btcusdt@kline_1m"), ("data", .arr [])]))) 0) ∧
    ¬ Documented (parseBinanceKlineMessage asciiCases
      (.text (some (.obj [("e", .str "kline"), ("s", .str "BTCUSDT"),
        ("k", .obj [("t", .float (.infinity false)), ("T", .int 59999)])]))) 0) := by
  constructor
  · intro h
    exact h
  · have hraised : parseBinanceKlineMessage asciiCases (.text (some (.obj [("e", .str "kline"),
        ("s", .str "BTCUSDT"),
        ("k", .obj [("t", .float (.infinity false)), ("T", .int 59999)])]))) 0 =
        .error .overflowError := by
      rfl
    rw [hraised]
    intro h
    exact h

end Quantive.Connectors
