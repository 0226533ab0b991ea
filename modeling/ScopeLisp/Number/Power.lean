/-
ScopeLisp.Number.Power — powers of two and ten.
-/

namespace ScopeLisp

/-- Two to the power `k`: as many numbers as `k` bits have. -/
def twoTo (k : Nat) : Nat := Nat.pow 2 k

/-- Ten to the power `k`: as many numbers as `k` decimal digits have. -/
def tenTo (k : Nat) : Nat := Nat.pow 10 k

theorem twoTo_pos (k : Nat) : 0 < twoTo k := Nat.pow_pos (by decide)

theorem tenTo_pos (k : Nat) : 0 < tenTo k := Nat.pow_pos (by decide)

end ScopeLisp
