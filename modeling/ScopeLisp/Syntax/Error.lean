/-
ScopeLisp.Syntax.Error — why a text cannot be read, and where.
-/
import ScopeLisp.Text.Span

namespace ScopeLisp

/-- What is wrong with a text. -/
inductive SyntaxFault
  | invalidToken (text : String)
  | unexpectedClose
  | unclosedList
  | unexpectedEnd
  | trailingInput
deriving DecidableEq

namespace SyntaxFault

/-- The stable name of a fault. -/
def code : SyntaxFault → String
  | .invalidToken _ => "syntax::invalid_token"
  | .unexpectedClose => "syntax::unexpected_close"
  | .unclosedList => "syntax::unclosed_list"
  | .unexpectedEnd => "syntax::unexpected_eof"
  | .trailingInput => "syntax::trailing_input"

def message : SyntaxFault → String
  | .invalidToken text => "Invalid token `" ++ text ++ "`"
  | .unexpectedClose => "Unexpected `)`"
  | .unclosedList => "Unclosed list"
  | .unexpectedEnd => "Unexpected end of input"
  | .trailingInput => "Unexpected input after expression"

def help? : SyntaxFault → Option String
  | .invalidToken _ => some "strings must be closed with `\"`"
  | .unclosedList => some "add the missing `)`"
  | _ => none

/-- What is written under the place of the fault. -/
def label : SyntaxFault → String
  | .invalidToken _ => "not a valid token"
  | .unexpectedClose => "no matching `(`"
  | .unclosedList => "this `(` is never closed"
  | .unexpectedEnd => "expected an expression"
  | .trailingInput => "expected end of input"

end SyntaxFault

/-- A fault and the bytes it is about. -/
structure SyntaxError where
  fault : SyntaxFault
  offset : Nat
  length : Nat
deriving DecidableEq

namespace SyntaxError

/-- A fault at a range of the text. -/
def on (fault : SyntaxFault) (span : Span) : SyntaxError := ⟨fault, span.start, span.length⟩

/-- Whether more input could complete the text. -/
def isIncomplete (e : SyntaxError) : Bool :=
  match e.fault with
  | .unclosedList | .unexpectedEnd => true
  | _ => false

end SyntaxError

/-- A text with the name it is known by in messages. -/
structure SourceText where
  name : String
  content : String

namespace SourceText

/-- A text that was typed in and has no name of its own. -/
def anonymous (content : String) : SourceText := ⟨"<source>", content⟩

/-- Whether an error can be shown in the text: its place may reach one byte past
the end, where the end of the text stands, but not further. -/
def covers (source : SourceText) (e : SyntaxError) : Bool :=
  decide (e.offset + e.length - 1 ≤ source.content.utf8ByteSize)

end SourceText

/-- An error together with the text it was found in. Two reports are the same
when their errors are: the text is only there to be shown. -/
structure SyntaxReport where
  error : SyntaxError
  source : SourceText

namespace SyntaxReport

/-- The same error, shown in another text. -/
def withSource (r : SyntaxReport) (source : SourceText) : SyntaxReport := { r with source }

instance : BEq SyntaxReport := ⟨fun r s => r.error == s.error⟩

end SyntaxReport

end ScopeLisp
