/-
ScopeLisp.Json.Numeral — numbers as JSON numerals, and the value of a numeral.

A number is written with the fewest digits that read back, with an exponent
when it is very large or very small.

Reading is less exact than writing. The digits are gathered into a significand
below `2 ^ 64`: later digits before the point only raise the exponent, later
digits after it are dropped. The significand is then multiplied or divided once
by a power of ten, in binary64 arithmetic; a numeral too large for that has no
value.
-/
import ScopeLisp.Json.Tree
import ScopeLisp.Number.Layout
import ScopeLisp.Number.Numeral

namespace ScopeLisp

namespace JsonNumeral

/-! ## Writing -/

/-- Leading exponents from `-5` up to, but not including, `16` are written
positionally, whole numbers with one zero after the point; all others with one
digit before the point and an exponent. -/
def ofDecimal (negative : Bool) (d : Decimal) : JsonNumeral :=
  let ds := decimalDigits d.digits
  let leading := d.exponent + (ds.length - 1 : Nat)
  if leading < -5 ∨ 16 ≤ leading then
    ⟨negative, ds.take 1, ds.drop 1, some (leading < 0, decimalDigits leading.natAbs)⟩
  else
    let text := d.positional
    let fraction := (text.dropWhile Char.isDigit).drop 1
    ⟨negative, text.takeWhile Char.isDigit, if fraction.isEmpty then ['0'] else fraction, none⟩

/-- The numeral of a number, unless it is infinite or not a number. Of two
nearest decimals the one with the even last digit is taken. -/
def ofBinary64? : Binary64 → Option JsonNumeral
  | .finite negative mantissa exponent =>
    some <|
      if mantissa = 0 then ⟨negative, ['0'], ['0'], none⟩
      else ofDecimal negative (shortestDecimal .even mantissa exponent)
  | _ => none

/-! ## Reading -/

/-- Significands stay below this. -/
def significandBound : Nat := twoTo 64

/-- Appends a digit, if the significand has room for it. -/
def push? (significand : Nat) (c : Char) : Option Nat :=
  let n := 10 * significand + digitValue c
  if n < significandBound then some n else none

/-- Gathers digits before the point; the second part counts those for which
there was no room. -/
def gatherWhole (significand : Nat) : List Char → Nat × Nat
  | [] => (significand, 0)
  | c :: cs =>
    match push? significand c with
    | some n => gatherWhole n cs
    | none => (significand, cs.length + 1)

/-- Gathers digits after the point; the second part counts those taken. -/
def gatherFraction (significand taken : Nat) : List Char → Nat × Nat
  | [] => (significand, taken)
  | c :: cs =>
    match push? significand c with
    | some n => gatherFraction n (taken + 1) cs
    | none => (significand, taken)

/-- The largest power of ten that is divided by or multiplied with at once. -/
def maxPower : Nat := 308

/-- The binary64 number nearest to `10 ^ k`. -/
def powerOfTen (k : Nat) : Float := nearestFloat false (tenTo k) 1

/-- Scales by `10 ^ exponent`. Division by large powers is done in steps until
nothing is left. -/
def scale (x : Float) : Int → Nat → Option Float
  | .ofNat k, _ =>
    if x == 0.0 then some x
    else if maxPower < k then none
    else
      let y := x * powerOfTen k
      if y.isInf then none else some y
  | .negSucc k, steps =>
    if k + 1 ≤ maxPower then some (x / powerOfTen (k + 1))
    else if x == 0.0 then some x
    else match steps with
      | 0 => some 0.0
      | steps + 1 => scale (x / powerOfTen maxPower) (.negSucc (k - maxPower)) steps

/-- The value of a numeral. -/
def value? (n : JsonNumeral) : Option Float :=
  let (significand, dropped) := gatherWhole 0 n.whole
  let (significand, taken) := gatherFraction significand 0 n.fraction
  let written : Int := match n.exponent with
    | none => 0
    | some (negative, digits) =>
      let e : Int := ofDigits 0 digits
      if negative then -e else e
  let magnitude := scale (nearestFloat false significand 1) (written + dropped - taken) 8
  magnitude.map fun x => if n.negative then -x else x

end JsonNumeral

end ScopeLisp
