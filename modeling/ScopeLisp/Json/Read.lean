/-
ScopeLisp.Json.Read — JSON texts into trees.
-/
import ScopeLisp.Json.Tree

namespace ScopeLisp

namespace JsonTree

/-- The blanks that may stand between the parts of a JSON text. -/
def isJsonBlank (c : Char) : Bool := c == ' ' || c == '\t' || c == '\n' || c == '\r'

def skipBlanks (cs : List Char) : List Char := cs.dropWhile isJsonBlank

/-- The value of a hexadecimal digit. -/
def hexValue? (c : Char) : Option Nat :=
  if c.isDigit then some (c.toNat - '0'.toNat)
  else if 'a' ≤ c ∧ c ≤ 'f' then some (c.toNat - 'a'.toNat + 10)
  else if 'A' ≤ c ∧ c ≤ 'F' then some (c.toNat - 'A'.toNat + 10)
  else none

/-- The unit that an escape stands for, given the characters after the
backslash, and what follows it. -/
def readEscape : List Char → Option (JsonUnit × List Char)
  | '"' :: cs => some (.char '"', cs)
  | '\\' :: cs => some (.char '\\', cs)
  | '/' :: cs => some (.char '/', cs)
  | 'b' :: cs => some (.char '\x08', cs)
  | 'f' :: cs => some (.char '\x0c', cs)
  | 'n' :: cs => some (.char '\n', cs)
  | 'r' :: cs => some (.char '\r', cs)
  | 't' :: cs => some (.char '\t', cs)
  | 'u' :: a :: b :: c :: d :: cs => do
    let unit := 4096 * (← hexValue? a) + 256 * (← hexValue? b) + 16 * (← hexValue? c)
      + (← hexValue? d)
    some (.code unit, cs)
  | _ => none

/-- The units of a string after its opening quote, before them those in
`before`, newest first, and what follows the closing quote. -/
def readUnits : Nat → List JsonUnit → List Char → Option (List JsonUnit × List Char)
  | 0, _, _ => none
  | _ + 1, _, [] => none
  | _ + 1, before, '"' :: cs => some (before.reverse, cs)
  | fuel + 1, before, '\\' :: cs => do
    let (unit, rest) ← readEscape cs
    readUnits fuel (unit :: before) rest
  | fuel + 1, before, c :: cs =>
    if c.toNat < 0x20 then none else readUnits fuel (.char c :: before) cs

/-- The exponent of a numeral, if one follows. -/
def readJsonExponent : List Char → Option (Option (Bool × List Char) × List Char)
  | e :: cs =>
    if e = 'e' ∨ e = 'E' then
      let (negative, cs) := match cs with
        | '-' :: cs => (true, cs)
        | '+' :: cs => (false, cs)
        | cs => (false, cs)
      let digits := cs.takeWhile Char.isDigit
      if digits.isEmpty then none
      else some (some (negative, digits), cs.dropWhile Char.isDigit)
    else some (none, e :: cs)
  | [] => some (none, [])

/-- A numeral without its sign: no leading zero before another digit, and a
digit on each side of a point. -/
def readJsonNumeral (negative : Bool) (cs : List Char) : Option (JsonNumeral × List Char) := do
  let whole := cs.takeWhile Char.isDigit
  if whole.isEmpty || (whole.head? == some '0' && whole.length != 1) then none
  let (fraction, rest) ← match cs.dropWhile Char.isDigit with
    | '.' :: rest =>
      let digits := rest.takeWhile Char.isDigit
      if digits.isEmpty then none else some (digits, rest.dropWhile Char.isDigit)
    | rest => some ([], rest)
  let (exponent, rest) ← readJsonExponent rest
  some (⟨negative, whole, fraction, exponent⟩, rest)

mutual

/-- One value, after blanks, and what follows it. No character costs more than
two calls, so twice the length of the text is fuel enough. -/
def readValue : Nat → List Char → Option (JsonTree × List Char)
  | 0, _ => none
  | fuel + 1, cs =>
    match skipBlanks cs with
    | 'n' :: 'u' :: 'l' :: 'l' :: cs => some (.null, cs)
    | 't' :: 'r' :: 'u' :: 'e' :: cs => some (.bool true, cs)
    | 'f' :: 'a' :: 'l' :: 's' :: 'e' :: cs => some (.bool false, cs)
    | '"' :: cs => do
      let (units, rest) ← readUnits (cs.length + 1) [] cs
      some (.string units, rest)
    | '[' :: cs =>
      match skipBlanks cs with
      | ']' :: cs => some (.array [], cs)
      | cs => readElements fuel [] cs
    | '\x7b' :: cs =>
      match skipBlanks cs with
      | '\x7d' :: cs => some (.object [], cs)
      | cs => readEntries fuel [] cs
    | '-' :: cs => do
      let (numeral, rest) ← readJsonNumeral true cs
      some (.number numeral, rest)
    | cs => do
      let (numeral, rest) ← readJsonNumeral false cs
      some (.number numeral, rest)

/-- The elements of an array up to its closing bracket, after those in
`before`, newest first. -/
def readElements : Nat → List JsonTree → List Char → Option (JsonTree × List Char)
  | 0, _, _ => none
  | fuel + 1, before, cs => do
    let (item, rest) ← readValue fuel cs
    match skipBlanks rest with
    | ',' :: rest => readElements fuel (item :: before) rest
    | ']' :: rest => some (.array (item :: before).reverse, rest)
    | _ => none

/-- The entries of an object up to its closing brace, after those in `before`,
newest first. -/
def readEntries : Nat → List (List JsonUnit × JsonTree) → List Char →
    Option (JsonTree × List Char)
  | 0, _, _ => none
  | fuel + 1, before, cs =>
    match skipBlanks cs with
    | '"' :: cs => do
      let (key, rest) ← readUnits (cs.length + 1) [] cs
      match skipBlanks rest with
      | ':' :: rest => do
        let (value, rest) ← readValue fuel rest
        match skipBlanks rest with
        | ',' :: rest => readEntries fuel ((key, value) :: before) rest
        | '\x7d' :: rest => some (.object ((key, value) :: before).reverse, rest)
        | _ => none
      | _ => none
    | _ => none

end

/-- The tree of a text that holds one value and blanks around it. -/
def ofText? (text : String) : Option JsonTree := do
  let cs := text.toList
  let (tree, rest) ← readValue (2 * cs.length + 2) cs
  if (skipBlanks rest).isEmpty then some tree else none

end JsonTree

end ScopeLisp
