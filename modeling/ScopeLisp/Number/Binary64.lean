/-
ScopeLisp.Number.Binary64 — binary64 numbers as exact integers.

A finite number is `mantissa · 2 ^ exponent`, read off its bit pattern
(`Binary64.ofBits`); a ratio of natural numbers is rounded to the nearest
number, ties to the even one (`nearestBits`). Printing, reading and taking
remainders work on these integers, so that they are exact.
-/
import ScopeLisp.Number.Power

namespace ScopeLisp

/-- What a bit pattern of 64 bits stands for. -/
inductive Binary64
  | nan
  | infinite (negative : Bool)
  | finite (negative : Bool) (mantissa : Nat) (exponent : Int)
deriving DecidableEq

namespace Binary64

/-- The number that a bit pattern stands for: one bit of sign, eleven of
exponent, 52 of fraction. -/
def ofBits (bits : UInt64) : Binary64 :=
  let n := bits.toNat
  let negative := decide (twoTo 63 ≤ n)
  let biased : Nat := n / twoTo 52 % twoTo 11
  let fraction := n % twoTo 52
  if biased = 2047 then
    if fraction = 0 then .infinite negative else .nan
  else if biased = 0 then .finite negative fraction (-1074)
  else .finite negative (twoTo 52 + fraction) ((biased : Int) - 1075)

/-- The number that a `Float` is. -/
def ofFloat (x : Float) : Binary64 := ofBits x.toBits

end Binary64

/-! ## Rounding a ratio -/

/-- The quotient rounded to the nearest natural number, a half to the even
neighbour. -/
def roundHalfEven (num den : Nat) : Nat :=
  let quotient := num / den
  let twice := 2 * (num % den)
  if twice < den then quotient
  else if den < twice then quotient + 1
  else if quotient % 2 = 0 then quotient else quotient + 1

/-- `n · 2 ^ e` as a ratio, for an exponent of either sign. -/
def scaleByTwo (num den : Nat) (e : Int) : Nat × Nat :=
  match e with
  | .ofNat k => (num * twoTo k, den)
  | .negSucc k => (num, den * twoTo (k + 1))

/-- The exponent that gives a ratio a mantissa of 53 bits. -/
def mantissaExponent (num den : Nat) : Int :=
  let guess : Int := (num.log2 : Int) - (den.log2 : Int) - 52
  let scaled := scaleByTwo num den (-guess)
  if scaled.1 / scaled.2 < twoTo 52 then guess - 1 else guess

/-- The bit pattern, without sign, of the number nearest to a ratio. Ratios
from half a unit above the largest finite number on round to infinity. -/
def nearestBits (num den : Nat) : Nat :=
  if num = 0 then 0
  else
    let exponent := max (mantissaExponent num den) (-1074)
    let scaled := scaleByTwo num den (-exponent)
    let mantissa := roundHalfEven scaled.1 scaled.2
    let bits :=
      if mantissa < twoTo 52 then mantissa
      else (exponent + 1075).toNat * twoTo 52 + (mantissa - twoTo 52)
    min bits (2047 * twoTo 52)

/-- The `Float` nearest to a signed ratio. -/
def nearestFloat (negative : Bool) (num den : Nat) : Float :=
  Float.ofBits (UInt64.ofNat (nearestBits num den + if negative then twoTo 63 else 0))

end ScopeLisp
