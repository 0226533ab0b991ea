/-
ScopeLisp.Toml.Read — TOML documents from text.
-/
import ScopeLisp.Toml.Scalar

namespace ScopeLisp

namespace Toml

/-! ## Keys -/

def isBareKeyChar (c : Char) : Bool := c.isAlphanum || c == '_' || c == '-'

/-- One part of a key: bare, or a string on one line. -/
def readKeyPart : List Char → Option (String × List Char)
  | '"' :: cs => readBasic (cs.length + 1) [] cs
  | '\'' :: cs => readLiteral cs
  | cs =>
    let part := cs.takeWhile isBareKeyChar
    if part.isEmpty then none else some (String.ofList part, cs.dropWhile isBareKeyChar)

/-- A key may have fewer parts than this, and arrays and tables in values may
be nested less deep. -/
def maxNesting : Nat := 80

/-- A dotted key: the parts before the last, which name tables, and the
last. -/
def readKey : Nat → List String → List Char → Option ((List String × String) × List Char)
  | 0, _, _ => none
  | parts + 1, before, cs => do
    let (part, rest) ← readKeyPart (skipSpaces cs)
    match skipSpaces rest with
    | '.' :: rest => readKey parts (part :: before) rest
    | rest => some ((before.reverse, part), rest)

/-! ## Values -/

/-- A comment, if there is one, up to the end of its line. -/
def skipComment : List Char → List Char
  | '#' :: cs => cs.dropWhile isText
  | cs => cs

/-- Blanks, line ends and comments between the items of an array. -/
def skipBetween : Nat → List Char → List Char
  | 0, cs => cs
  | fuel + 1, cs =>
    let cs := skipSpaces cs
    match readLineEnd cs with
    | some rest => skipBetween fuel rest
    | none =>
      match cs with
      | '#' :: rest =>
        match readLineEnd (rest.dropWhile isText) with
        | some rest => skipBetween fuel rest
        | none => cs
      | _ => cs

/-- The items of an array after its opening bracket, after those in `before`,
newest first, given a reader of values. -/
def readItems (value : List Char → Option (Toml × List Char)) :
    Nat → List Toml → List Char → Option (Toml × List Char)
  | 0, _, _ => none
  | fuel + 1, before, cs =>
    let cs := skipBetween cs.length cs
    match cs with
    | ']' :: rest => some (.array before.reverse, rest)
    | _ => do
      let (item, rest) ← value cs
      match skipBetween rest.length rest with
      | ',' :: rest => readItems value fuel (item :: before) rest
      | ']' :: rest => some (.array (item :: before).reverse, rest)
      | _ => none

/-- The entries of a table written out as a value, after its opening brace and
after those in `before`, newest first. -/
def readInline (value : List Char → Option (Toml × List Char)) :
    Nat → List (List String × String × Toml) → List Char → Option (Toml × List Char)
  | 0, _, _ => none
  | fuel + 1, before, cs => do
    let ((path, key), rest) ← readKey (maxNesting - 1) [] cs
    let rest ← readChar '=' rest
    let (item, rest) ← value (skipSpaces rest)
    match skipSpaces rest with
    | ',' :: rest => readInline value fuel ((path, key, item) :: before) rest
    | '\x7d' :: rest => some (← ofInline? ((path, key, item) :: before).reverse, rest)
    | _ => none

/-- A value, whose arrays and tables are nested at most `depth` deep. -/
def readValue : Nat → List Char → Option (Toml × List Char)
  | depth, cs =>
    match cs with
    | '"' :: _ | '\'' :: _ => (readString cs).map fun (s, rest) => (.string s, rest)
    | 't' :: 'r' :: 'u' :: 'e' :: rest => some (.bool true, rest)
    | 'f' :: 'a' :: 'l' :: 's' :: 'e' :: rest => some (.bool false, rest)
    | '[' :: rest =>
      match depth with
      | 0 => none
      | depth + 1 => readItems (readValue depth) (rest.length + 1) [] rest
    | '\x7b' :: rest =>
      match depth with
      | 0 => none
      | depth + 1 =>
        match skipSpaces rest with
        | '\x7d' :: rest => some (.table [], rest)
        | rest => readInline (readValue depth) (rest.length + 1) [] rest
    | _ =>
      if startsTime cs || startsDate cs then (readDateTime cs).map fun rest => (.dateTime, rest)
      else readNumber cs

/-! ## Lines -/

/-- The end of a line that holds something: blanks and a comment may come
first, and the text may end there. -/
def readRest (cs : List Char) : Option (List Char) :=
  match skipComment (skipSpaces cs) with
  | [] => some []
  | cs => readLineEnd cs

/-- A line that starts with a bracket: the header of a table, or of the next
table of an array. -/
def readHeader : List Char → Option (Line × List Char)
  | '[' :: cs => do
    let ((path, key), rest) ← readKey (maxNesting - 1) [] cs
    match rest with
    | ']' :: ']' :: rest => some (.arrayHeader path key, rest)
    | _ => none
  | cs => do
    let ((path, key), rest) ← readKey (maxNesting - 1) [] cs
    match rest with
    | ']' :: rest => some (.header path key, rest)
    | _ => none

/-- A key, an equals sign and a value. -/
def readEntry (cs : List Char) : Option (Line × List Char) := do
  let ((path, key), rest) ← readKey (maxNesting - 1) [] cs
  let rest ← readChar '=' rest
  let (value, rest) ← readValue (maxNesting - 1) (skipSpaces rest)
  some (.entry path key value, rest)

/-- The lines of a text, after those in `before`, newest first. -/
def readDocument : Nat → List Line → List Char → Option (List Line)
  | 0, _, _ => none
  | fuel + 1, before, cs =>
    match skipSpaces cs with
    | [] => some before.reverse
    | '#' :: rest =>
      match rest.dropWhile isText with
      | [] => some before.reverse
      | rest => do readDocument fuel before (← readLineEnd rest)
    | '[' :: rest => do
      let (line, rest) ← readHeader rest
      readDocument fuel (line :: before) (← readRest rest)
    | cs =>
      match readLineEnd cs with
      | some rest => readDocument fuel before rest
      | none => do
        let (line, rest) ← readEntry cs
        readDocument fuel (line :: before) (← readRest rest)

/-- A byte order mark at the very start does not count. -/
def skipByteOrderMark : List Char → List Char
  | '\ufeff' :: cs => cs
  | cs => cs

/-- The tree of a TOML text. -/
def ofText? (text : String) : Option Toml := do
  let cs := skipByteOrderMark text.toList
  ofLines? (← readDocument (cs.length + 1) [] cs)

end Toml

end ScopeLisp
