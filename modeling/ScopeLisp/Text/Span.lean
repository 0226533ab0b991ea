/-
ScopeLisp.Text.Span — byte ranges of a source text.
-/

namespace ScopeLisp

/-- The bytes of a source text from `start` up to, but not including, `stop`.
A range whose `stop` lies before its `start` is empty. -/
structure Span where
  start : Nat
  stop : Nat
deriving DecidableEq

namespace Span

/-- The empty range at `position`. -/
def point (position : Nat) : Span := ⟨position, position⟩

/-- How many bytes the range covers. -/
def length (s : Span) : Nat := s.stop - s.start

/-- Whether the range covers no byte. -/
def isEmpty (s : Span) : Bool := s.length == 0

/-- The least range that covers both. -/
def merge (s t : Span) : Span := ⟨min s.start t.start, max s.stop t.stop⟩

end Span

end ScopeLisp
