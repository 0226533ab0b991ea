/-
ScopeLisp.Number.Layout — how numbers are written.

A number is printed positionally with the fewest digits that read back, whole
numbers without a point and zero without a sign (`formatNumber`).
-/
import ScopeLisp.Number.Shortest

namespace ScopeLisp

/-! ## Digits -/

/-- The decimal digits of `n`, without leading zeros. -/
def decimalDigits (n : Nat) : List Char := Nat.toDigits 10 n

/-- The decimal written positionally: no exponent, and a point only before a
fraction. -/
def Decimal.positional (d : Decimal) : List Char :=
  let ds := decimalDigits d.digits
  match d.exponent with
  | .ofNat k => ds ++ List.replicate k '0'
  | .negSucc k =>
    let places := k + 1
    if places < ds.length then
      ds.take (ds.length - places) ++ '.' :: ds.drop (ds.length - places)
    else '0' :: '.' :: List.replicate (places - ds.length) '0' ++ ds

/-- A text with a minus sign before it when `negative`. -/
def signed (negative : Bool) (text : List Char) : List Char :=
  if negative then '-' :: text else text

/-! ## Integers -/

namespace Binary64

/-- Whether the number is finite and has no fraction. -/
def isWhole : Binary64 → Bool
  | .finite _ mantissa exponent =>
    let magnitude := scaleByTwo mantissa 1 exponent
    magnitude.1 % magnitude.2 == 0
  | _ => false

/-- Whether the number, without its sign, is less than a bound. -/
def isBelow (bound : Nat) : Binary64 → Bool
  | .finite _ mantissa exponent =>
    let magnitude := scaleByTwo mantissa 1 exponent
    decide (magnitude.1 < bound * magnitude.2)
  | _ => false

/-- The integer that is left of the number without its fraction, brought into the range
of 64 bits; zero for what is not a number. -/
def toInt64 : Binary64 → Int64
  | .nan => 0
  | .infinite negative => if negative then Int64.minValue else Int64.maxValue
  | .finite negative mantissa exponent =>
    let magnitude := scaleByTwo mantissa 1 exponent
    let whole : Int := (magnitude.1 / magnitude.2 : Nat)
    Int64.ofIntClamp (if negative then -whole else whole)

end Binary64

/-! ## The printed form -/

/-- The shortest digits of a number, written positionally. Of two nearest
decimals the larger is taken. -/
def positionalNumber : Binary64 → List Char
  | .nan => ['N', 'a', 'N']
  | .infinite negative => signed negative ['i', 'n', 'f']
  | .finite negative mantissa exponent =>
    signed negative <|
      if mantissa = 0 then ['0'] else (shortestDecimal .up mantissa exponent).positional

/-- The characters of a printed number: those of an integer of 64 bits for a whole number
below `10 ^ 15`, and so no sign before zero; every other number is printed positionally. -/
def formatChars (x : Binary64) : List Char :=
  if x.isWhole && x.isBelow (tenTo 15) then (toString x.toInt64).toList else positionalNumber x

/-- The printed form of a number. -/
def formatNumber (x : Float) : String := String.ofList (formatChars (.ofFloat x))

end ScopeLisp
