/-
ScopeLisp.Json.Write — JSON trees as text, on one line or indented.
-/
import ScopeLisp.Json.Tree

namespace ScopeLisp

/-! ## Scalars -/

/-- The last `width` hexadecimal digits of `n`. -/
def hexPadded (width n : Nat) : List Char :=
  let ds := Nat.toDigits 16 n
  List.replicate (width - ds.length) '0' ++ ds

/-- One unit between the quotes of a JSON string. Controls have a letter or a
number, everything else but quote and backslash stands for itself. -/
def JsonUnit.write : JsonUnit → List Char
  | .char c =>
    if c = '"' then ['\\', '"']
    else if c = '\\' then ['\\', '\\']
    else if c = '\x08' then ['\\', 'b']
    else if c = '\x0c' then ['\\', 'f']
    else if c = '\n' then ['\\', 'n']
    else if c = '\r' then ['\\', 'r']
    else if c = '\t' then ['\\', 't']
    else if c.toNat < 0x20 then ['\\', 'u'] ++ hexPadded 4 c.toNat
    else [c]
  | .code unit => ['\\', 'u'] ++ hexPadded 4 unit

/-- The units of a string between quotes, before `rest`. -/
def writeUnits (units : List JsonUnit) (rest : List Char) : List Char :=
  '"' :: (units.flatMap JsonUnit.write ++ '"' :: rest)

/-- The characters of a numeral; an exponent always shows its sign. -/
def JsonNumeral.write (n : JsonNumeral) (rest : List Char) : List Char :=
  let exponent := match n.exponent with
    | none => rest
    | some (negative, digits) => 'e' :: (if negative then '-' else '+') :: (digits ++ rest)
  let fraction := if n.fraction.isEmpty then exponent else '.' :: (n.fraction ++ exponent)
  let whole := n.whole ++ fraction
  if n.negative then '-' :: whole else whole

namespace JsonTree

/-! ## On one line -/

mutual

/-- The tree without any blank, before `rest`. -/
def writeCompact : JsonTree → List Char → List Char
  | .null, rest => "null".toList ++ rest
  | .bool true, rest => "true".toList ++ rest
  | .bool false, rest => "false".toList ++ rest
  | .number n, rest => n.write rest
  | .string units, rest => writeUnits units rest
  | .array items, rest => '[' :: writeCompactItems items (']' :: rest)
  | .object entries, rest => '\x7b' :: writeCompactEntries entries ('\x7d' :: rest)

def writeCompactItems : List JsonTree → List Char → List Char
  | [], rest => rest
  | [t], rest => t.writeCompact rest
  | t :: u :: ts, rest => t.writeCompact (',' :: writeCompactItems (u :: ts) rest)

def writeCompactEntries : List (List JsonUnit × JsonTree) → List Char → List Char
  | [], rest => rest
  | [(k, t)], rest => writeUnits k (':' :: t.writeCompact rest)
  | (k, t) :: e :: es, rest =>
    writeUnits k (':' :: t.writeCompact (',' :: writeCompactEntries (e :: es) rest))

end

/-- The text of a tree on one line. -/
def compact (t : JsonTree) : String := String.ofList (t.writeCompact [])

/-! ## Indented -/

/-- A new line, indented by two blanks for each level, before `rest`. -/
def writeLine (level : Nat) (rest : List Char) : List Char :=
  '\n' :: (List.replicate (2 * level) ' ' ++ rest)

mutual

/-- The tree with every item and entry on a line of its own, one level deeper
than its container; empty containers stay on one line. -/
def writeIndented (level : Nat) : JsonTree → List Char → List Char
  | .null, rest => "null".toList ++ rest
  | .bool true, rest => "true".toList ++ rest
  | .bool false, rest => "false".toList ++ rest
  | .number n, rest => n.write rest
  | .string units, rest => writeUnits units rest
  | .array [], rest => '[' :: ']' :: rest
  | .array (t :: ts), rest =>
    '[' :: writeIndentedItems (level + 1) (t :: ts) (writeLine level (']' :: rest))
  | .object [], rest => '\x7b' :: '\x7d' :: rest
  | .object (e :: es), rest =>
    '\x7b' :: writeIndentedEntries (level + 1) (e :: es) (writeLine level ('\x7d' :: rest))

def writeIndentedItems (level : Nat) : List JsonTree → List Char → List Char
  | [], rest => rest
  | [t], rest => writeLine level (t.writeIndented level rest)
  | t :: u :: ts, rest =>
    writeLine level (t.writeIndented level (',' :: writeIndentedItems level (u :: ts) rest))

def writeIndentedEntries (level : Nat) :
    List (List JsonUnit × JsonTree) → List Char → List Char
  | [], rest => rest
  | [(k, t)], rest => writeLine level (writeUnits k (':' :: ' ' :: t.writeIndented level rest))
  | (k, t) :: e :: es, rest =>
    writeLine level (writeUnits k (':' :: ' ' :: t.writeIndented level
      (',' :: writeIndentedEntries level (e :: es) rest)))

end

/-- The text of a tree over several lines. -/
def indented (t : JsonTree) : String := String.ofList (t.writeIndented 0 [])

end JsonTree

end ScopeLisp
