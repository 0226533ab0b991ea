/-
ScopeLisp.Eval.Session — a session line by line.

Lines are gathered until their parentheses balance and then run at top level.
Errors are reported and the session goes on. A line that starts with a colon,
when nothing is gathered, is a command.
-/
import ScopeLisp.Eval.Interp
import ScopeLisp.Text.Blank

namespace ScopeLisp

structure Session where
  interp : Interp
  /-- The lines gathered so far, each with its line end. -/
  buffer : String

/-- What becomes of a line. -/
inductive SessionStep
  /-- More lines are needed to close open lists. -/
  | incomplete
  | value (value : Value)
  | failed (failure : Failure)
  | unknownCommand (command : String)
  /-- What a command has to say. -/
  | message (text : String)
  | quit
  | outOfFuel

namespace Session

/-- A session that has not been given a line yet. -/
def start (interp : Interp) : Session := ⟨interp, ""⟩

/-- Whether lines are being gathered. -/
def isContinuing (s : Session) : Bool := !s.buffer.isEmpty

def helpText : String :=
  "\n".intercalate
    ["Commands:", "  :help, :h    Show this help", "  :env         List global bindings",
      "  :quit, :q    Exit the REPL"]

/-- The global names and their values, one to a line. -/
def listing (i : Interp) : String :=
  "\n".intercalate (i.globals.map fun b => "  " ++ b.1 ++ " = " ++ i.state.store.display b.2)

/-- What a command does. -/
def command (i : Interp) (name : String) : SessionStep :=
  if name = ":quit" ∨ name = ":q" then .quit
  else if name = ":help" ∨ name = ":h" then .message helpText
  else if name = ":env" then .message (listing i)
  else .unknownCommand name

/-- The message about a command that does not exist. -/
def unknownCommandMessage (name : String) : String := "Unknown command " ++ name

/-- The end of a run as the end of a step. -/
def stepOfAnswer : Answer → SessionStep
  | .value v => .value v
  | .error e => .failed e
  | .outOfFuel => .outOfFuel

/-- Takes one line. -/
def feed (s : Session) (fuel : Nat) (line : String) : SessionStep × Session :=
  let trimmed := trimBlank line
  if s.buffer.isEmpty && trimmed.toList.head? == some ':' then (command s.interp trimmed, s)
  else
    let source := s.buffer ++ line ++ "\n"
    match Expr.ofProgram source with
    | .ok program =>
      let (answer, interp) := s.interp.evalProgram fuel program
      (stepOfAnswer answer, ⟨interp, ""⟩)
    | .error e =>
      if e.isIncomplete && !(trimBlank source).isEmpty then (.incomplete, ⟨s.interp, source⟩)
      else (.failed (.unread e), ⟨s.interp, ""⟩)

end Session

end ScopeLisp
