/-
ScopeLisp.Toml.Scalar — strings, numbers, dates and times of TOML.

Every reader takes what it reads from the head of a text and gives it with the
rest, or gives `none` if the text is not TOML.
-/
import ScopeLisp.Number.Numeral
import ScopeLisp.Toml.Tree

namespace ScopeLisp

namespace Toml

/-! ## Characters -/

/-- A blank inside a line. -/
def isSpace (c : Char) : Bool := c == ' ' || c == '\t'

def skipSpaces (cs : List Char) : List Char := cs.dropWhile isSpace

/-- Characters of comments and literal strings: no controls but the tab. -/
def isText (c : Char) : Bool := c == '\t' || (0x20 ≤ c.toNat && c.toNat != 0x7F)

/-- A line end, in either of its two forms. -/
def readLineEnd : List Char → Option (List Char)
  | '\n' :: cs => some cs
  | '\r' :: '\n' :: cs => some cs
  | _ => none

/-- The value of a hexadecimal digit. -/
def hexDigit? (c : Char) : Option Nat :=
  if c.isDigit then some (digitValue c)
  else if 'a' ≤ c ∧ c ≤ 'f' then some (c.toNat - 'a'.toNat + 10)
  else if 'A' ≤ c ∧ c ≤ 'F' then some (c.toNat - 'A'.toNat + 10)
  else none

/-- The character with the code that hexadecimal digits write. -/
def charOfHex? (ds : List Char) : Option Char := do
  let n ← ds.foldlM (fun n c => (hexDigit? c).map (16 * n + ·)) 0
  if n < 0xD800 ∨ (0xDFFF < n ∧ n < 0x110000) then some (Char.ofNat n) else none

/-- The character of an escape, given what follows its backslash. -/
def readEscape : List Char → Option (Char × List Char)
  | 'b' :: cs => some ('\x08', cs)
  | 't' :: cs => some ('\t', cs)
  | 'n' :: cs => some ('\n', cs)
  | 'f' :: cs => some ('\x0c', cs)
  | 'r' :: cs => some ('\r', cs)
  | '"' :: cs => some ('"', cs)
  | '\\' :: cs => some ('\\', cs)
  | 'u' :: cs => if cs.length < 4 then none else (charOfHex? (cs.take 4)).map (·, cs.drop 4)
  | 'U' :: cs => if cs.length < 8 then none else (charOfHex? (cs.take 8)).map (·, cs.drop 8)
  | _ => none

/-! ## Strings -/

/-- The rest of a basic string, after the characters `before`, newest first. -/
def readBasic : Nat → List Char → List Char → Option (String × List Char)
  | _ + 1, before, '"' :: cs => some (String.ofList before.reverse, cs)
  | fuel + 1, before, '\\' :: cs => do
    let (c, rest) ← readEscape cs
    readBasic fuel (c :: before) rest
  | fuel + 1, before, c :: cs => if isText c then readBasic fuel (c :: before) cs else none
  | _, _, _ => none

/-- The rest of a literal string. -/
def readLiteral (cs : List Char) : Option (String × List Char) :=
  match cs.dropWhile fun c => isText c && c != '\'' with
  | '\'' :: rest => some (String.ofList (cs.takeWhile fun c => isText c && c != '\''), rest)
  | _ => none

/-- What may stand between a backslash at the end of a line and the next
character of a string: blanks and line ends, at least one line end. -/
def skipLineBreak (cs : List Char) : Option (List Char) :=
  match readLineEnd (skipSpaces cs) with
  | none => none
  | some rest => some (skipMore rest.length rest)
where
  skipMore : Nat → List Char → List Char
    | 0, cs => cs
    | fuel + 1, cs =>
      match readLineEnd (skipSpaces cs) with
      | some rest => skipMore fuel rest
      | none => skipSpaces cs

/-- The end of a string over several lines: three quotes, with up to two more
before them that belong to the string. -/
def readClosing (quote : Char) (cs : List Char) : Option (List Char × List Char) :=
  let quotes := (cs.takeWhile (· == quote)).length
  if quotes < 3 then none
  else
    let extra := min (quotes - 3) 2
    some (List.replicate extra quote, cs.drop (3 + extra))

/-- The rest of a string over several lines, with escapes if it is a basic
one. -/
def readLines (quote : Char) : Nat → List Char → List Char → Option (String × List Char)
  | 0, _, _ => none
  | fuel + 1, before, cs =>
    match readClosing quote cs with
    | some (extra, rest) => some (String.ofList (before.reverse ++ extra), rest)
    | none =>
      match readLineEnd cs with
      | some rest => readLines quote fuel ('\n' :: before) rest
      | none =>
        match cs with
        | [] => none
        | c :: rest =>
          if c = '\\' ∧ quote = '"' then
            match skipLineBreak rest with
            | some rest => readLines quote fuel before rest
            | none => do
              let (c, rest) ← readEscape rest
              readLines quote fuel (c :: before) rest
          else if isText c then readLines quote fuel (c :: before) rest
          else none

/-- A line end directly after the opening quotes does not count. -/
def afterOpening (cs : List Char) : List Char := (readLineEnd cs).getD cs

/-- A string of any of the four kinds. -/
def readString : List Char → Option (String × List Char)
  | '"' :: '"' :: '"' :: cs => readLines '"' (cs.length + 1) [] (afterOpening cs)
  | '\'' :: '\'' :: '\'' :: cs => readLines '\'' (cs.length + 1) [] (afterOpening cs)
  | '"' :: cs => readBasic (cs.length + 1) [] cs
  | '\'' :: cs => readLiteral cs
  | _ => none

/-! ## Numbers -/

/-- Digits after a first one; an underscore may stand between two digits. -/
def moreDigits (isDigit : Char → Bool) : List Char → List Char × List Char
  | '_' :: d :: cs =>
    if isDigit d then
      let (ds, rest) := moreDigits isDigit cs
      (d :: ds, rest)
    else ([], '_' :: d :: cs)
  | d :: cs =>
    if isDigit d then
      let (ds, rest) := moreDigits isDigit cs
      (d :: ds, rest)
    else ([], d :: cs)
  | [] => ([], [])

/-- A row of digits, without the underscores between them. -/
def readDigits (isDigit : Char → Bool) : List Char → Option (List Char × List Char)
  | d :: cs =>
    if isDigit d then
      let (ds, rest) := moreDigits isDigit cs
      some (d :: ds, rest)
    else none
  | [] => none

/-- The digits before a point: a zero stands alone. -/
def readWhole : List Char → Option (List Char × List Char)
  | '0' :: cs => some (['0'], cs)
  | cs => readDigits Char.isDigit cs

/-- An optional sign; the first part says whether it is a minus. -/
def readSign : List Char → Bool × List Char
  | '-' :: cs => (true, cs)
  | '+' :: cs => (false, cs)
  | cs => (false, cs)

/-- Integers lie in the range of 64 bits with sign. -/
def integer? (n : Int) : Option Toml :=
  if -(twoTo 63 : Int) ≤ n ∧ n < twoTo 63 then some (.integer n) else none

/-- The integer that digits write in a base given after a leading zero. -/
def readInBase (base : Nat) (isDigit : Char → Bool) (cs : List Char) :
    Option (Toml × List Char) := do
  let (ds, rest) ← readDigits isDigit cs
  let n := ds.foldl (fun n c => base * n + (hexDigit? c).getD 0) 0
  some (← integer? n, rest)

/-- The exponent of a float: `e` with an optional sign and digits. -/
def readExponentPart : List Char → Option (Option Int × List Char)
  | e :: cs =>
    if e = 'e' ∨ e = 'E' then do
      let (negative, cs) := readSign cs
      let (ds, rest) ← readDigits Char.isDigit cs
      let n : Int := ofDigits 0 ds
      some (some (if negative then -n else n), rest)
    else some (none, e :: cs)
  | [] => some (none, [])

/-- The fraction of a float: a point and digits. -/
def readFraction : List Char → Option (Option (List Char) × List Char)
  | '.' :: cs => do
    let (ds, rest) ← readDigits Char.isDigit cs
    some (some ds, rest)
  | cs => some (none, cs)

/-- A number in decimal: an integer, or a float if it has a fraction or an
exponent. A float may not be too large for a number, unless it is negative. -/
def readDecimal (cs : List Char) : Option (Toml × List Char) := do
  let (negative, cs) := readSign cs
  let (whole, rest) ← readWhole cs
  let (fraction, rest) ← readFraction rest
  let (exponent, rest) ← readExponentPart rest
  if fraction.isNone && exponent.isNone then
    let n : Int := ofDigits 0 whole
    some (← integer? (if negative then -n else n), rest)
  else
    let fraction := fraction.getD []
    let value := nearestDecimal negative (ofDigits (ofDigits 0 whole) fraction)
      (exponent.getD 0 - fraction.length)
    if value.isInf && !negative then none else some (.float value, rest)

/-- A number, or one of the words for infinity and for what is no number. -/
def readNumber (cs : List Char) : Option (Toml × List Char) :=
  let (negative, unsigned) := readSign cs
  match unsigned with
  | 'i' :: 'n' :: 'f' :: rest => some (.float (nearestFloat negative (twoTo 1024) 1), rest)
  | 'n' :: 'a' :: 'n' :: rest => some (.float (0.0 / 0.0), rest)
  | _ =>
    match cs with
    | '0' :: 'x' :: rest => readInBase 16 (fun c => (hexDigit? c).isSome) rest
    | '0' :: 'o' :: rest => readInBase 8 (fun c => '0' ≤ c && c ≤ '7') rest
    | '0' :: 'b' :: rest => readInBase 2 (fun c => c == '0' || c == '1') rest
    | _ => readDecimal cs

/-! ## Dates and times -/

/-- A number of exactly `count` digits, in the given range. -/
def readField (count low high : Nat) (cs : List Char) : Option (Nat × List Char) :=
  let ds := cs.take count
  let n := ofDigits 0 ds
  if ds.length = count ∧ ds.all Char.isDigit ∧ low ≤ n ∧ n ≤ high then some (n, cs.drop count)
  else none

/-- One given character. -/
def readChar (c : Char) : List Char → Option (List Char)
  | d :: cs => if d = c then some cs else none
  | [] => none

/-- How many days a month has. -/
def daysInMonth (year month : Nat) : Nat :=
  if month = 2 then
    if year % 4 = 0 ∧ (year % 100 ≠ 0 ∨ year % 400 = 0) then 29 else 28
  else if month = 4 ∨ month = 6 ∨ month = 9 ∨ month = 11 then 30
  else 31

def readDate (cs : List Char) : Option (List Char) := do
  let (year, cs) ← readField 4 0 9999 cs
  let cs ← readChar '-' cs
  let (month, cs) ← readField 2 1 12 cs
  let cs ← readChar '-' cs
  let (_, cs) ← readField 2 1 (daysInMonth year month) cs
  some cs

def readTime (cs : List Char) : Option (List Char) := do
  let (_, cs) ← readField 2 0 23 cs
  let cs ← readChar ':' cs
  let (_, cs) ← readField 2 0 59 cs
  let cs ← readChar ':' cs
  let (_, cs) ← readField 2 0 60 cs
  match cs with
  | '.' :: d :: rest => if d.isDigit then some (rest.dropWhile Char.isDigit) else some cs
  | _ => some cs

/-- The distance from universal time, if there is one. -/
def readOffset : List Char → Option (List Char)
  | 'Z' :: cs | 'z' :: cs => some cs
  | '+' :: cs | '-' :: cs => do
    let (_, cs) ← readField 2 0 23 cs
    let cs ← readChar ':' cs
    let (_, cs) ← readField 2 0 59 cs
    some cs
  | cs => some cs

/-- Whether a text starts like a time: two digits and a colon. -/
def startsTime : List Char → Bool
  | a :: b :: ':' :: _ => a.isDigit && b.isDigit
  | _ => false

/-- Whether a text starts like a date: four digits and a dash. -/
def startsDate : List Char → Bool
  | a :: b :: c :: d :: '-' :: _ => a.isDigit && b.isDigit && c.isDigit && d.isDigit
  | _ => false

/-- A time after a date: after a `T`, or after a blank if a time does follow. -/
def readTimeOfDay (cs : List Char) : Option (List Char) :=
  match cs with
  | delimiter :: rest =>
    if (delimiter = 'T' ∨ delimiter = 't' ∨ delimiter = ' ') ∧ startsTime rest then do
      readOffset (← readTime rest)
    else some cs
  | [] => some []

/-- A date, a time, or a date with a time. -/
def readDateTime (cs : List Char) : Option (List Char) :=
  if startsTime cs then readTime cs
  else do readTimeOfDay (← readDate cs)

end Toml

end ScopeLisp
