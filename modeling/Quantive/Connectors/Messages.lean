import Quantive.Double
import Quantive.Candles.HttpRequests

/-!
# Values of a message

What `json.loads` makes of a message, and the conversions of its values by `int`, `float` and
`datetime.fromtimestamp`.
-/

namespace Quantive.Connectors
open Candles (isDecimal decimalZeros isIntSpace parsesInt)
open Decimal (roundHalfEven)

/-- No integer has more than 4300 digits, no object a key twice. -/
inductive Value where
  | null
  | bool (b : Bool)
  | int (z : ℤ)
  | float (d : Double)
  | str (s : String)
  | arr (items : List Value)
  | obj (fields : List (String × Value))

abbrev Fields := List (String × Value)

/-- The exceptions of a conversion, by the handlers that catch them: KeyError, ValueError with
TypeError and OSError, OverflowError. -/
inductive Fault where
  | missing
  | invalid
  | overflow
  deriving DecidableEq

/-! ### Numbers as text -/

/-- A decimal digit of any script as one of ASCII. -/
def asciiDigit (c : Char) : Char :=
  match decimalZeros.find? fun z => z ≤ c.toNat && c.toNat < z + 10 with
  | some z => Nat.digitChar (c.toNat - z)
  | none => c

def trim (text : List Char) : List Char :=
  ((text.dropWhile isIntSpace).reverse.dropWhile isIntSpace).reverse

/-- The sign in front of a number, and what follows it. -/
def splitSign : List Char → Bool × List Char
  | '-' :: cs => (true, cs)
  | '+' :: cs => (false, cs)
  | cs => (false, cs)

def digitsValue (cs : List Char) : ℕ := cs.foldl (fun n c => 10 * n + (c.toNat - '0'.toNat)) 0

/-- `int(text)`. -/
def intOfText (text : List Char) : Option ℤ :=
  if parsesInt text then
    let (negative, digits) := splitSign (trim text)
    let n : ℤ := digitsValue ((digits.filter fun c => c ≠ '_').map asciiDigit)
    some (if negative then -n else n)
  else none

/-- The text without its underscores, each of which stands between two digits. -/
def dropUnderscores (afterDigit : Bool) : List Char → Option (List Char)
  | [] => some []
  | '_' :: cs =>
    if afterDigit && cs.head?.any Char.isDigit then dropUnderscores false cs else none
  | c :: cs => (dropUnderscores c.isDigit cs).map (c :: ·)

/-- An exponent, `none` where the text is none. -/
def exponentOfText : List Char → Option ℤ
  | [] => some 0
  | e :: cs =>
    let (negative, digits) := splitSign cs
    if (e = 'e' || e = 'E') && !digits.isEmpty && digits.all Char.isDigit then
      some (if negative then -digitsValue digits else digitsValue digits)
    else none

/-- A decimal number without its sign. -/
def decimalOfText (cs : List Char) : Option ℚ :=
  let whole := cs.takeWhile Char.isDigit
  let rest := cs.dropWhile Char.isDigit
  let fraction := if rest.head? = some '.' then rest.tail.takeWhile Char.isDigit else []
  let rest := if rest.head? = some '.' then rest.tail.dropWhile Char.isDigit else rest
  if whole.isEmpty && fraction.isEmpty then none
  else (exponentOfText rest).map fun (e : ℤ) =>
    (digitsValue (whole ++ fraction) : ℚ) * 10 ^ (e - (fraction.length : ℤ))

/-- `float(text)`. -/
def floatOfText (text : List Char) : Option Double := do
  let plain ← dropUnderscores false ((trim text).map asciiDigit)
  let (negative, body) := splitSign plain
  let name := String.ofList (body.map Char.toLower)
  if name = "inf" || name = "infinity" then some (.infinity negative)
  else if name = "nan" then some .nan
  else (decimalOfText body).map fun q => Double.round (if negative then -q else q)

/-! ### Conversions -/

namespace Value

/-- `bool(value)`. -/
def truthy : Value → Bool
  | null => false
  | bool b => b
  | int z => z ≠ 0
  | float d => d ≠ .finite 0
  | str s => s ≠ ""
  | arr items => !items.isEmpty
  | obj fields => !fields.isEmpty

/-- `int(value)`. -/
def toInt : Value → Except Fault ℤ
  | bool b => .ok (if b then 1 else 0)
  | int z => .ok z
  | float (.finite q) => .ok (Double.truncate q)
  | float .nan => .error .invalid
  | float (.infinity _) => .error .overflow
  | str s => (intOfText s.toList).elim (.error .invalid) .ok
  | _ => .error .invalid

/-- `float(value)`. -/
def toFloat : Value → Except Fault Double
  | bool b => .ok (.finite (if b then 1 else 0))
  | int z => if Double.Fits z then .ok (.finite (Double.nearest z)) else .error .overflow
  | float d => .ok d
  | str s => (floatOfText s.toList).elim (.error .invalid) .ok
  | _ => .error .invalid

end Value

/-- Microseconds of a float in seconds. -/
def microseconds (seconds : ℚ) : ℤ :=
  let whole := Double.truncate seconds
  whole * 1000000 + roundHalfEven (Double.nearest ((seconds - whole) * 1000000))

/-- `ms / 1000.0`, when the integer fits a float. -/
def secondsOf (ms : ℤ) : ℚ := Double.nearest (Double.nearest ms / 1000)

/-- The seconds do not fit a `time_t` of 64 bits, or the milliseconds no float. -/
def TooFar (ms : ℤ) : Prop :=
  ¬ Double.Fits ms ∨ microseconds (secondsOf ms) / 1000000 < -2 ^ 63 ∨
    2 ^ 63 ≤ microseconds (secondsOf ms) / 1000000

instance (ms : ℤ) : Decidable (TooFar ms) := inferInstanceAs (Decidable (_ ∨ _ ∨ _))

/-- The years 1 to 9999. -/
def InCalendar (micros : ℤ) : Prop :=
  -62135596800 * 1000000 ≤ micros ∧ micros < 253402300800 * 1000000

instance (micros : ℤ) : Decidable (InCalendar micros) := inferInstanceAs (Decidable (_ ∧ _))

/-- `datetime.fromtimestamp(ms / 1000.0, tz=timezone.utc)`, in microseconds. -/
def fromTimestampMs (ms : ℤ) : Except Fault ℤ :=
  if TooFar ms then .error .overflow
  else if InCalendar (microseconds (secondsOf ms)) then .ok (microseconds (secondsOf ms))
  else .error .invalid

example : floatOfText " -1_0.5e1 ".toList = some (.finite (-105)) := by decide +kernel

end Quantive.Connectors
