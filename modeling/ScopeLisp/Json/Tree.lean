/-
ScopeLisp.Json.Tree — JSON texts as trees, nothing interpreted yet.

Object entries keep their order and their repetitions, numerals keep their
digits and strings their escapes: whether a numeral has a value in range, or
an escape stands for a character, is asked only of the parts that are used.
-/

namespace ScopeLisp

/-- One unit of a JSON string: a character, or a code unit written by number. -/
inductive JsonUnit
  | char (c : Char)
  | code (unit : Nat)
deriving DecidableEq

/-- A JSON numeral: sign, digits before and after the point, and the exponent
with its sign, when there is one. -/
structure JsonNumeral where
  negative : Bool
  whole : List Char
  fraction : List Char
  exponent : Option (Bool × List Char)
deriving DecidableEq

inductive JsonTree
  | null
  | bool (value : Bool)
  | number (numeral : JsonNumeral)
  | string (units : List JsonUnit)
  | array (items : List JsonTree)
  | object (entries : List (List JsonUnit × JsonTree))

namespace JsonTree

/-! ## Strings -/

/-- The string that units stand for. Two code units of a surrogate pair stand
for one character; a surrogate alone stands for none. -/
def stringOfUnits? : List JsonUnit → Option (List Char)
  | [] => some []
  | .char c :: us => (stringOfUnits? us).map (c :: ·)
  | .code unit :: us =>
    if 0xD800 ≤ unit ∧ unit < 0xDC00 then
      match us with
      | .code low :: us =>
        if 0xDC00 ≤ low ∧ low < 0xE000 then
          let c := Char.ofNat (0x10000 + (unit - 0xD800) * 0x400 + (low - 0xDC00))
          (stringOfUnits? us).map (c :: ·)
        else none
      | _ => none
    else if 0xDC00 ≤ unit ∧ unit < 0xE000 then none
    else (stringOfUnits? us).map (Char.ofNat unit :: ·)

end JsonTree

end ScopeLisp
