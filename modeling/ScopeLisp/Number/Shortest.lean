/-
ScopeLisp.Number.Shortest — the fewest decimal digits that still read back as
a given number.

Every finite number owns an interval of reals: those that round to it. Its
shortest decimal is a point of that interval on the coarsest grid of powers
of ten that has one, and of the points on that grid the nearest to the number.
-/
import ScopeLisp.Number.Binary64

namespace ScopeLisp

/-- The decimal `digits · 10 ^ exponent`. -/
structure Decimal where
  digits : Nat
  exponent : Int
deriving DecidableEq

namespace Decimal

/-- How many decimal digits a natural number has; zero has one. -/
def digitCount (n : Nat) : Nat := (Nat.toDigits 10 n).length

/-- The same decimal without zeros at the end of its digits. -/
def strip (d : Decimal) : Decimal :=
  if h : d.digits ≠ 0 ∧ d.digits % 10 = 0 then strip ⟨d.digits / 10, d.exponent + 1⟩ else d
termination_by d.digits
decreasing_by omega

end Decimal

/-- Which of two equally near decimals is taken. -/
inductive Tie
  /-- The larger one. -/
  | up
  /-- The one with the even last digit. -/
  | even
deriving DecidableEq

/-- The reals that round to a number: those between `low / unit` and
`high / unit`, ends included when `closed`; the number is `value / unit`. -/
structure RoundingInterval where
  low : Nat
  value : Nat
  high : Nat
  unit : Nat
  closed : Bool

namespace RoundingInterval

/-- The interval of `mantissa · 2 ^ exponent`. It ends halfway to the two
neighbours; the lower neighbour is half as far when the mantissa is the least
of its length. An end belongs to it when the mantissa is even. -/
def ofFinite (mantissa : Nat) (exponent : Int) : RoundingInterval :=
  let below := if mantissa = twoTo 52 ∧ exponent ≠ -1074 then 1 else 2
  let scale := scaleByTwo 1 1 (exponent - 2)
  { low := (4 * mantissa - below) * scale.1
    value := 4 * mantissa * scale.1
    high := (4 * mantissa + 2) * scale.1
    unit := scale.2
    closed := mantissa % 2 == 0 }

/-- Whether the interval holds `point / unit`. -/
def contains (r : RoundingInterval) (point : Nat) : Bool :=
  if r.closed then r.low ≤ point && point ≤ r.high else r.low < point && point < r.high

/-- The exponent of the leading decimal digit of the number. -/
def leading (r : RoundingInterval) : Int :=
  if r.unit ≤ r.value then (Decimal.digitCount (r.value / r.unit) : Int) - 1
  else -(Decimal.digitCount ((r.unit + r.value - 1) / r.value - 1) : Int)

/-- The interval measured in units of `10 ^ exponent`. -/
def onGrid (r : RoundingInterval) (exponent : Int) : RoundingInterval :=
  match exponent with
  | .ofNat k => { r with unit := r.unit * tenTo k }
  | .negSucc k =>
    let s := tenTo (k + 1)
    { r with low := r.low * s, value := r.value * s, high := r.high * s }

/-- The multiple of `10 ^ exponent` in the interval that is nearest to the
number, if there is one. -/
def nearestOnGrid (r : RoundingInterval) (tie : Tie) (exponent : Int) : Option Decimal :=
  let g := r.onGrid exponent
  let under := g.value / g.unit
  let lower := if g.contains (under * g.unit) then some (Decimal.mk under exponent) else none
  let upper :=
    if g.contains ((under + 1) * g.unit) then some (Decimal.mk (under + 1) exponent) else none
  match lower, upper with
  | some d, none => some d
  | none, some d => some d
  | none, none => none
  | some d, some e =>
    let twice := 2 * (g.value % g.unit)
    if twice < g.unit then some d
    else if g.unit < twice then some e
    else match tie with
      | .up => some e
      | .even => if under % 2 = 0 then some d else some e

end RoundingInterval

/-- The shortest decimal of a finite number other than zero, tried with one
digit, with two, and so on; seventeen always suffice. -/
def shortestDecimal (tie : Tie) (mantissa : Nat) (exponent : Int) : Decimal :=
  let r := RoundingInterval.ofFinite mantissa exponent
  let found := (List.range 17).findSome? fun (k : Nat) => r.nearestOnGrid tie (r.leading - k)
  (found.getD ⟨0, 0⟩).strip

end ScopeLisp
