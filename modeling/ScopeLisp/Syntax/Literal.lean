/-
ScopeLisp.Syntax.Literal — string literals: how a string is written in a
program, and what a written string stands for.
-/

namespace ScopeLisp

/-- How one character stands in a printed string. -/
def escapeChar (c : Char) : List Char :=
  if c = '"' then ['\\', '"']
  else if c = '\\' then ['\\', '\\']
  else if c = '\n' then ['\\', 'n']
  else if c = '\t' then ['\\', 't']
  else [c]

/-- The characters of a printed string, without its quotes. -/
def escape (cs : List Char) : List Char := cs.flatMap escapeChar

/-- The character that a backslash before `c` stands for. -/
def unescapeChar (c : Char) : Char :=
  if c = 'n' then '\n' else if c = 't' then '\t' else if c = 'r' then '\r' else c

/-- The characters that a written string stands for. A backslash at the very
end stands for itself. -/
def unescape : List Char → List Char
  | [] => []
  | ['\\'] => ['\\']
  | '\\' :: c :: cs => unescapeChar c :: unescape cs
  | c :: cs => c :: unescape cs

/-- The text without the quotes around it; a text that lacks one of the two
keeps the other. -/
def stripQuotes (cs : List Char) : List Char :=
  match cs with
  | '"' :: rest => if rest.getLast? = some '"' then rest.dropLast else cs
  | _ => cs

/-- The string that a written string literal stands for. -/
def literalValue (text : String) : String :=
  String.ofList (unescape (stripQuotes text.toList))

end ScopeLisp
