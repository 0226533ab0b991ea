/-
ScopeLisp.Cli.Args — the command line.

A command line names one subcommand. The four global options may stand before
or after it; those after it count, if both are given. At each of the two
places an option may be given once, except for module directories. After `--`
nothing is an option.
-/
import ScopeLisp.Number.Power

namespace ScopeLisp

namespace Cli

/-- What the global options ask for. -/
structure Options where
  verbose : Bool
  config : Option String
  moduleDirectories : List String
  maxDepth : Option Nat
deriving DecidableEq

inductive Command
  | run (file : String)
  | eval (source : String)
  | parse (file : String) (json : Bool)
  | repl
  | info
deriving DecidableEq

/-- What a command line asks for. -/
inductive Request
  | execute (options : Options) (command : Command)
  | showVersion
  | showHelp
  /-- The line is not one that is understood. -/
  | misused
deriving DecidableEq

/-! ## Single arguments -/

/-- An argument by its form. -/
inductive Arg
  | terminator
  /-- Two dashes and a name, perhaps with a value after an equals sign. -/
  | long (name : String) (value : Option String)
  /-- A dash and letters. -/
  | short (letters : List Char)
  | plain (text : String)
deriving DecidableEq

/-- The form of an argument. A dash alone is plain. -/
def Arg.ofString (s : String) : Arg :=
  match s.toList with
  | ['-', '-'] => .terminator
  | '-' :: '-' :: cs =>
    let name := String.ofList (cs.takeWhile (· ≠ '='))
    match cs.dropWhile (· ≠ '=') with
    | [] => .long name none
    | _ :: value => .long name (some (String.ofList value))
  | '-' :: c :: cs => .short (c :: cs)
  | _ => .plain s

/-- A number of calls: decimal digits, perhaps after a plus sign, below
`2 ^ 64`. -/
def readCount? (s : String) : Option Nat :=
  let ds := match s.toList with
    | '+' :: ds => ds
    | ds => ds
  if ds.isEmpty || !ds.all Char.isDigit then none
  else
    let n := ds.foldl (fun n c => 10 * n + (c.toNat - '0'.toNat)) 0
    if n < twoTo 64 then some n else none

/-! ## Options -/

/-- What has been given at one place of the command line. -/
structure Given where
  options : Options
  json : Bool
deriving DecidableEq

/-- Nothing given. -/
def Given.nothing : Given := ⟨⟨false, none, [], none⟩, false⟩

/-- What may be given at one place of the command line. -/
structure Place where
  allowsVersion : Bool
  allowsJson : Bool

/-- How far the reading of options has come. -/
inductive Progress
  | going (given : Given)
  | showVersion
  | showHelp
  | misused

/-- Notes a flag, which may be given once. -/
def setVerbose (g : Given) : Progress :=
  if g.options.verbose then .misused
  else .going { g with options := { g.options with verbose := true } }

def setJson (g : Given) : Progress := if g.json then .misused else .going { g with json := true }

/-- The options that take a value. -/
inductive ValueOption
  | config
  | modulePath
  | maxDepth
deriving DecidableEq

def ValueOption.ofName? (name : String) : Option ValueOption :=
  if name = "config" then some .config
  else if name = "module-path" then some .modulePath
  else if name = "max-depth" then some .maxDepth
  else none

/-- Notes the value of an option; a path may not be empty. -/
def setValue (g : Given) (option : ValueOption) (value : String) : Progress :=
  match option with
  | .config =>
    if value = "" ∨ g.options.config.isSome then .misused
    else .going { g with options := { g.options with config := some value } }
  | .modulePath =>
    if value = "" then .misused
    else
      let directories := g.options.moduleDirectories ++ [value]
      .going { g with options := { g.options with moduleDirectories := directories } }
  | .maxDepth =>
    if g.options.maxDepth.isSome then .misused
    else match readCount? value with
      | none => .misused
      | some n => .going { g with options := { g.options with maxDepth := some n } }

/-- Notes letters after one dash, from the left. -/
def setLetters (place : Place) : List Char → Given → Progress
  | [], g => .going g
  | c :: cs, g =>
    if c = 'h' then .showHelp
    else if c = 'V' ∧ place.allowsVersion then .showVersion
    else if c = 'v' then
      match setVerbose g with
      | .going g => setLetters place cs g
      | other => other
    else .misused

/-- Notes a flag with a long name. -/
def setFlag (place : Place) (name : String) (g : Given) : Progress :=
  if name = "help" then .showHelp
  else if name = "version" ∧ place.allowsVersion then .showVersion
  else if name = "verbose" then setVerbose g
  else if name = "json" ∧ place.allowsJson then setJson g
  else .misused

/-- How the reading of one place ends: at a plain argument, with what is left
after it, at the terminator, or at the end. -/
inductive Stop
  | plain (given : Given) (text : String) (rest : List String)
  | terminator (given : Given) (rest : List String)
  | finished (given : Given)
  | showVersion
  | showHelp
  | misused

/-- Notes one option, given the argument after it; the number says how many
arguments that takes. -/
def setOption (place : Place) (arg : Arg) (next : Option String) (g : Given) : Progress × Nat :=
  match arg with
  | .short letters => (setLetters place letters g, 0)
  | .long name value =>
    match ValueOption.ofName? name, value with
    | none, none => (setFlag place name g, 0)
    | none, some _ => (.misused, 0)
    | some option, some value => (setValue g option value, 0)
    | some option, none =>
      match next.map Arg.ofString with
      | some (.plain value) => (setValue g option value, 1)
      | _ => (.misused, 0)
  | _ => (.misused, 0)

/-- Reads options up to the next argument that is none. -/
def readOptions (place : Place) (g : Given) : List String → Stop
  | [] => .finished g
  | arg :: rest =>
    match Arg.ofString arg with
    | .terminator => .terminator g rest
    | .plain text => .plain g text rest
    | option =>
      match setOption place option rest.head? g with
      | (.going g, taken) => readOptions place g (rest.drop taken)
      | (.showVersion, _) => .showVersion
      | (.showHelp, _) => .showHelp
      | (.misused, _) => .misused
termination_by args => args.length
decreasing_by simp only [List.length_drop, List.length_cons]; omega

/-! ## Subcommands -/

/-- What may be given before the subcommand. -/
def beforeCommand : Place := ⟨true, false⟩

/-- What may be given after a subcommand. -/
def afterCommand (json : Bool) : Place := ⟨false, json⟩

/-- Options after the subcommand count before those in front of it. -/
def Options.merge (before after : Options) : Options where
  verbose := before.verbose || after.verbose
  config := after.config.or before.config
  moduleDirectories :=
    if after.moduleDirectories.isEmpty then before.moduleDirectories else after.moduleDirectories
  maxDepth := after.maxDepth.or before.maxDepth

/-- Reads the arguments of a subcommand without operands. -/
def readBare (before : Options) (command : Command) (args : List String) : Request :=
  match readOptions (afterCommand false) .nothing args with
  | .finished g | .terminator g [] => .execute (before.merge g.options) command
  | .showHelp => .showHelp
  | _ => .misused

/-- Reads the arguments of a subcommand with one operand. -/
def readOperand (before : Options) (json : Bool) (command : String → Bool → Command)
    (args : List String) : Request :=
  let execute (g : Given) (operand : String) : Request :=
    .execute (before.merge g.options) (command operand g.json)
  match readOptions (afterCommand json) .nothing args with
  | .terminator g [operand] => execute g operand
  | .plain g operand rest =>
    match readOptions (afterCommand json) g rest with
    | .finished g | .terminator g [] => execute g operand
    | .showHelp => .showHelp
    | _ => .misused
  | .showHelp => .showHelp
  | _ => .misused

/-- Reads the operand of a subcommand that takes a file, which has a name. -/
def readFileOperand (before : Options) (json : Bool) (command : String → Bool → Command)
    (args : List String) : Request :=
  match readOperand before json command args with
  | .execute _ (.run "") | .execute _ (.parse "" _) => .misused
  | request => request

/-- The subcommands. -/
def commandNames : List String := ["run", "eval", "parse", "repl", "info", "help"]

/-- Reads what follows the name of a subcommand. -/
def readCommand (before : Options) (name : String) (args : List String) : Request :=
  if name = "run" then readFileOperand before false (fun file _ => .run file) args
  else if name = "eval" then readOperand before false (fun source _ => .eval source) args
  else if name = "parse" then readFileOperand before true .parse args
  else if name = "repl" then readBare before .repl args
  else if name = "info" then readBare before .info args
  else if name = "help" then
    match args with
    | [] => .showHelp
    | [topic] => if commandNames.contains topic then .showHelp else .misused
    | _ => .misused
  else .misused

/-- What a command line asks for. -/
def Request.ofArgs (args : List String) : Request :=
  match readOptions beforeCommand .nothing args with
  | .plain g name rest => readCommand g.options name rest
  | .showVersion => .showVersion
  | .showHelp => .showHelp
  | _ => .misused

end Cli

end ScopeLisp
