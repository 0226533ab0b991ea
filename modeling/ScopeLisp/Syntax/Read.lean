/-
ScopeLisp.Syntax.Read — expressions from tokens.

Reading keeps the lists that are still open, innermost first, each with the
items read so far (`Reading`). A token either opens a list, closes the
innermost one, or adds an atom to it. Tokens after the first end of text are
not read.
-/
import ScopeLisp.Syntax.Token
import ScopeLisp.Syntax.Expr
import ScopeLisp.Number.Numeral

namespace ScopeLisp

/-- A list whose closing parenthesis has not been read. -/
structure OpenList where
  /-- Where it was opened. -/
  span : Span
  /-- Its items so far, newest first. -/
  items : List Expr

/-- What has been read: complete expressions, newest first, and the lists that
are still open, innermost first. -/
structure Reading where
  done : List Expr
  opened : List OpenList

namespace Reading

/-- Nothing read yet. -/
def start : Reading := ⟨[], []⟩

/-- Adds a complete expression to the innermost open list. -/
def add (r : Reading) (e : Expr) : Reading :=
  match r.opened with
  | [] => { r with done := e :: r.done }
  | l :: outer => { r with opened := { l with items := e :: l.items } :: outer }

/-- Reads one token. -/
def step (r : Reading) (t : Token) : Except SyntaxError Reading :=
  match t.kind with
  | .leftParen => .ok { r with opened := ⟨t.span, []⟩ :: r.opened }
  | .rightParen =>
    match r.opened with
    | [] => .error (.on .unexpectedClose t.span)
    | l :: outer => .ok (add { r with opened := outer } (.list l.items.reverse))
  | .number =>
    match readNumeral t.text with
    | some value => .ok (r.add (.number value))
    | none => .error (.on (.invalidToken t.text) t.span)
  | .string => .ok (r.add (.str (literalValue t.text)))
  | .symbol => .ok (r.add (.symbol t.text))
  | .eof => .ok r

/-- The end of the text: every list must be closed. -/
def finish (r : Reading) : Except SyntaxError (List Expr) :=
  match r.opened with
  | [] => .ok r.done.reverse
  | l :: _ => .error (.on .unclosedList l.span)

/-- Reads tokens until one expression is complete; gives it and the tokens
after it. -/
def first (r : Reading) : List Token → Except SyntaxError (Option Expr × List Token)
  | [] => r.finish.map fun _ => (none, [])
  | t :: ts => do
    let r ← r.step t
    match r.done with
    | e :: _ => .ok (some e, ts)
    | [] => r.first ts

end Reading

/-! ## Whole token lists -/

/-- The tokens before the first end of text. -/
def beforeEnd (tokens : List Token) : List Token := tokens.takeWhile (·.kind ≠ .eof)

/-- Every expression of a token list. -/
def readAll (tokens : List Token) : Except SyntaxError (List Expr) := do
  (← (beforeEnd tokens).foldlM Reading.step .start).finish

/-- A whole program, as one block. -/
def readProgram (tokens : List Token) : Except SyntaxError Expr :=
  (readAll tokens).map Expr.block

/-- Exactly one expression. With no token to point at, the error stands at byte
`size`, the end of the text. -/
def readOne (tokens : List Token) (size : Nat) : Except SyntaxError Expr := do
  let endSpan := (tokens.head?.map (·.span)).getD (.point size)
  match ← Reading.start.first (beforeEnd tokens) with
  | (none, _) => .error (.on .unexpectedEnd endSpan)
  | (some e, []) => .ok e
  | (some _, t :: _) => .error (.on .trailingInput t.span)

/-! ## Whole texts -/

/-- The program of a text. -/
def Expr.ofProgram (source : String) : Except SyntaxError Expr := do
  readProgram (← Token.scan source)

/-- The one expression of a text. -/
def Expr.ofText (source : String) : Except SyntaxError Expr := do
  readOne (← Token.scan source) source.utf8ByteSize

end ScopeLisp
