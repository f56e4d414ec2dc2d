import Quantive.DecimalContext

/-!
# Floats

Binary floats of 64 bits, rounded to nearest with ties to even. A finite float is the rational it
denotes; the sign of a zero and the payload of a NaN are left out.
-/

namespace Quantive
open Decimal (roundHalfEven)

inductive Double where
  | finite (q : ℚ)
  | infinity (negative : Bool)
  | nan
  deriving DecidableEq

namespace Double

/-- The distance of two floats next to a magnitude. -/
def spacing (a : ℚ) : ℚ := 2 ^ max (Int.log 2 a - 52) (-1074)

/-- The nearest float, if the exponent had no upper bound. -/
def nearest (q : ℚ) : ℚ :=
  (if q < 0 then -1 else 1) * (roundHalfEven (|q| / spacing |q|) * spacing |q|)

def Fits (q : ℚ) : Prop := |nearest q| < 2 ^ 1024

instance (q : ℚ) : Decidable (Fits q) := inferInstanceAs (Decidable (_ < _))

/-- The result of an operation. -/
def round (q : ℚ) : Double := if Fits q then finite (nearest q) else infinity (q < 0)

/-- A comparison with a NaN is false. -/
def lt : Double → Double → Bool
  | finite p, finite q => p < q
  | finite _, infinity negative => !negative
  | infinity negative, finite _ => negative
  | infinity negative, infinity negative' => negative && !negative'
  | _, _ => false

def le (d d' : Double) : Bool := lt d d' || (d ≠ nan && d = d')

/-- The sum with a finite float. -/
def add : Double → ℚ → Double
  | finite p, q => round (p + q)
  | d, _ => d

/-- `int` of a finite float. -/
def truncate (q : ℚ) : ℤ := if q < 0 then -⌊-q⌋ else ⌊q⌋

example : round (1 / 10) = finite (3602879701896397 / 36028797018963968) := by decide +kernel

end Double
end Quantive
