/-
ScopeLisp.Syntax.Token — tokens, and the reading of a text into tokens.

A text is cut from the left: at every place the longest lexeme is taken
(`Lexeme.first`). Runs of layout characters and comments are gaps; everything
else is a token, and the last token stands for the end of the text. A quote
that opens no complete string is the only thing that cannot be read.
-/
import ScopeLisp.Syntax.Error

namespace ScopeLisp

/-! ## Tokens -/

inductive TokenKind
  | leftParen
  | rightParen
  | number
  | string
  | symbol
  /-- The end of the text. -/
  | eof
deriving DecidableEq

/-- How messages write a kind of token. -/
def TokenKind.label : TokenKind → String
  | .leftParen => "("
  | .rightParen => ")"
  | .number => "<number>"
  | .string => "<string>"
  | .symbol => "<symbol>"
  | .eof => "<eof>"

/-- A token, where it stands and how it is written. -/
structure Token where
  kind : TokenKind
  span : Span
  text : String
deriving DecidableEq

/-! ## Classes of characters -/

/-- Characters that only separate tokens. -/
def isLayout (c : Char) : Bool :=
  c == ' ' || c == '\t' || c == '\r' || c == '\n' || c == '\x0c'

/-- Characters that end a symbol. -/
def isDelimiter (c : Char) : Bool :=
  isLayout c || c == '(' || c == ')' || c == '"' || c == ';'

/-- Characters of a symbol; the first one is not a digit. -/
def isSymbolChar (c : Char) : Bool := !isDelimiter c

/-! ## Lexemes -/

/-- How many characters a number takes after its first digit: more digits, and
a point when a digit follows it. -/
def numberTail (cs : List Char) : Nat :=
  let (whole, rest) := (cs.takeWhile Char.isDigit, cs.dropWhile Char.isDigit)
  match rest with
  | '.' :: rest =>
    let fraction := rest.takeWhile Char.isDigit
    if fraction.isEmpty then whole.length else whole.length + 1 + fraction.length
  | _ => whole.length

/-- How many characters a number takes after a minus sign, if one follows. -/
def numberAfterSign : List Char → Nat
  | d :: cs => if d.isDigit then 1 + numberTail cs else 0
  | [] => 0

/-- How many characters of a text are whole units of a string: a character
other than quote and backslash, or a backslash with any character but a line
end after it. -/
def stringUnits : List Char → Nat
  | [] => 0
  | '\\' :: [] => 0
  | '\\' :: c :: cs => if c = '\n' then 0 else 2 + stringUnits cs
  | c :: cs => if c = '"' then 0 else 1 + stringUnits cs

/-- What stands at one place of a text. -/
inductive Lexeme
  /-- Layout or a comment. -/
  | gap
  | token (kind : TokenKind)
  /-- A quote and whole string units with no closing quote after them. -/
  | unclosedString
deriving DecidableEq

/-- The longest lexeme of a text that starts with `c`, and how many characters
it takes after `c`. Of a number and a symbol of one length the number is
meant. -/
def Lexeme.first (c : Char) (cs : List Char) : Lexeme × Nat :=
  if isLayout c then (.gap, (cs.takeWhile isLayout).length)
  else if c = ';' then (.gap, (cs.takeWhile (· ≠ '\n')).length)
  else if c = '(' then (.token .leftParen, 0)
  else if c = ')' then (.token .rightParen, 0)
  else if c = '"' then
    let units := stringUnits cs
    if (cs.drop units).head? = some '"' then (.token .string, units + 1)
    else (.unclosedString, units)
  else if c.isDigit then (.token .number, numberTail cs)
  else
    let symbol := (cs.takeWhile isSymbolChar).length
    let number := if c = '-' then numberAfterSign cs else 0
    if 0 < number ∧ symbol ≤ number then (.token .number, number)
    else (.token .symbol, symbol)

/-! ## Texts -/

/-- How many bytes a row of characters takes. -/
def byteLength (cs : List Char) : Nat := cs.foldr (fun c n => c.utf8Size + n) 0

/-- Reads the characters `cs`, which stand at byte `position`, after the tokens
`before`, newest first. -/
def Token.scanFrom (position : Nat) (before : List Token) :
    List Char → Except SyntaxError (List Token)
  | [] => .ok (before.reverse ++ [⟨.eof, .point position, ""⟩])
  | c :: cs =>
    let (lexeme, count) := Lexeme.first c cs
    let matched := c :: cs.take count
    let next := position + byteLength matched
    match lexeme with
    | .gap => scanFrom next before (cs.drop count)
    | .token kind =>
      scanFrom next (⟨kind, ⟨position, next⟩, String.ofList matched⟩ :: before) (cs.drop count)
    | .unclosedString =>
      .error (.on (.invalidToken (String.ofList matched)) ⟨position, next⟩)
termination_by cs => cs.length
decreasing_by all_goals simp only [List.length_drop, List.length_cons]; omega

/-- The tokens of a text, the last of them its end. -/
def Token.scan (source : String) : Except SyntaxError (List Token) :=
  Token.scanFrom 0 [] source.toList

end ScopeLisp
