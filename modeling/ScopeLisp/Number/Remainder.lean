/-
ScopeLisp.Number.Remainder — the remainder of truncating division, exactly.
-/
import ScopeLisp.Number.Binary64

namespace ScopeLisp

/-- The remainder of `x / y` with the quotient truncated: the sign is that of
`x`, and no rounding takes place. An infinite `y` leaves a finite `x` as it is;
an infinite `x`, a zero `y` and what is not a number have no remainder. -/
def floatRemainder (x y : Float) : Float :=
  match Binary64.ofFloat x, Binary64.ofFloat y with
  | .finite negative m e, .finite _ n f =>
    if n = 0 then 0.0 / 0.0
    else
      let low := min e f
      let dividend := m * twoTo (e - low).toNat
      let divisor := n * twoTo (f - low).toNat
      let rest := scaleByTwo (dividend % divisor) 1 low
      nearestFloat negative rest.1 rest.2
  | .finite .., .infinite _ => x
  | _, _ => 0.0 / 0.0

end ScopeLisp
