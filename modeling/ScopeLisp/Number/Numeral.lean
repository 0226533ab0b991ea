/-
ScopeLisp.Number.Numeral — numbers written in decimal.

A numeral has an optional sign, digits with an optional point among, before or
after them, and an optional exponent; `inf`, `infinity` and `nan` stand for
themselves in any case. Its value is the nearest number.
-/
import ScopeLisp.Number.Binary64

namespace ScopeLisp

/-- The value of a decimal digit. -/
def digitValue (c : Char) : Nat := c.toNat - '0'.toNat

/-- The natural number that a row of digits writes, from the left, after `n`. -/
def ofDigits (n : Nat) (ds : List Char) : Nat :=
  ds.foldl (fun acc c => 10 * acc + digitValue c) n

/-- The digits at the head of a text, and what follows them. -/
def spanDigits (cs : List Char) : List Char × List Char :=
  (cs.takeWhile Char.isDigit, cs.dropWhile Char.isDigit)

/-- The number nearest to `digits · 10 ^ exponent`. Far above the largest and
far below the least number the answer does not hang on the digits, and the
power is not computed. -/
def nearestDecimal (negative : Bool) (digits : Nat) (exponent : Int) : Float :=
  if digits = 0 ∨ (digits.log2 : Int) + exponent < -400 then nearestFloat negative 0 1
  else if 400 < exponent then nearestFloat negative (twoTo 1024) 1
  else match exponent with
    | .ofNat k => nearestFloat negative (digits * tenTo k) 1
    | .negSucc k => nearestFloat negative digits (tenTo (k + 1))

/-- The exponent part of a numeral: nothing, or `e` with an optional sign and
at least one digit. Nothing may follow it. -/
def readExponent : List Char → Option Int
  | [] => some 0
  | e :: cs =>
    if e = 'e' ∨ e = 'E' then
      let (negative, ds) := match cs with
        | '-' :: ds => (true, ds)
        | '+' :: ds => (false, ds)
        | ds => (false, ds)
      if ds.isEmpty || !ds.all Char.isDigit then none
      else
        let n : Int := ofDigits 0 ds
        some (if negative then -n else n)
    else none

/-- A numeral without sign: digits, a point, digits, an exponent; at least one
digit on one side of the point. -/
def readUnsigned (negative : Bool) (cs : List Char) : Option Float :=
  let (whole, rest) := spanDigits cs
  let (fraction, rest) := match rest with
    | '.' :: rest => spanDigits rest
    | rest => ([], rest)
  if whole.isEmpty && fraction.isEmpty then none
  else (readExponent rest).map fun e =>
    nearestDecimal negative (ofDigits (ofDigits 0 whole) fraction) (e - fraction.length)

/-- The value of a numeral, if the text is one. -/
def readNumeral (text : String) : Option Float :=
  let (negative, cs) := match text.toList with
    | '-' :: cs => (true, cs)
    | '+' :: cs => (false, cs)
    | cs => (false, cs)
  let word := String.ofList (cs.map Char.toLower)
  if word = "inf" ∨ word = "infinity" then some (nearestFloat negative (twoTo 1024) 1)
  else if word = "nan" then some (0.0 / 0.0)
  else readUnsigned negative cs

end ScopeLisp
