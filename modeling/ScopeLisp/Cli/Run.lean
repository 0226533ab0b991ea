/-
ScopeLisp.Cli.Run — what the commands do.

Every command answers with an exit code and what it prints: 0 after success, 1
after an error that was reported, 2 for a command line that is not understood.
The settings are read before any command runs.
-/
import ScopeLisp.Cli.Args
import ScopeLisp.Config
import ScopeLisp.Eval.Session
import ScopeLisp.Json.Expr

namespace ScopeLisp

namespace Cli

/-- What a command leaves behind. -/
structure Finished where
  code : Nat
  printed : String
  /-- What is said about a failure, beside what is printed. -/
  report : String
deriving DecidableEq

/-- Lines as text. -/
def lines (ls : List String) : String := String.join (ls.map (· ++ "\n"))

def succeed (printed : String) : Finished := ⟨0, printed, ""⟩

def failAfter (printed report : String) : Finished := ⟨1, printed, report⟩

/-! ## Reports -/

/-- A report of an error, and of what may help. -/
def report (message : String) (help : Option String) : String :=
  lines (("Error: " ++ message) :: (help.map ("  help: " ++ ·)).toList)

def syntaxReport (e : SyntaxError) : String :=
  report (e.fault.message ++ " at byte " ++ toString e.offset) e.fault.help?

def failureReport : Failure → String
  | .unread e => syntaxReport e
  | .raised e => report e.message e.help?

def unreadableReport (file : String) : String := report ("Failed to read input file " ++ file) none

/-- How the command line is used. -/
def usage : String :=
  lines ["Usage: eva [OPTIONS] COMMAND", "", "Commands:",
    "  run FILE               Run a source file",
    "  eval EXPR              Evaluate a text",
    "  parse FILE [--json]    Print a file as it is read",
    "  repl                   Start a session",
    "  info                   Show what there is",
    "", "Options:",
    "  -v, --verbose          Say more",
    "      --config FILE      Read the settings from a file",
    "      --module-path DIR  Look for modules here first",
    "      --max-depth N      Limit the depth of calls",
    "  -h, --help             Show this text",
    "  -V, --version          Show the version"]

/-! ## Settings -/

/-- The settings of a command: from the named file or from that of the current
directory, with what the options add. -/
def settings (fs : FileSystem) (options : Options) : Except ConfigError Config := do
  let config ← match options.config with
    | some path => Config.load fs path
    | none => Config.discover fs "."
  let directories := options.moduleDirectories ++ config.search.directories
  return { config with
    search := { config.search with directories }
    maxCallDepth := options.maxDepth.getD config.maxCallDepth }

/-- What a command says about its settings when it is to say more. -/
def settingsText (config : Config) : String :=
  lines ["Depth of calls: at most " ++ toString config.maxCallDepth,
    "Modules: " ++ ", ".intercalate config.search.directories]

/-- An interpreter with the given settings and modules in files. -/
def interpreter (fs : FileSystem) (config : Config) : Interp :=
  .new ⟨config.maxCallDepth, config.memoize, config.search.source fs⟩ .standard

/-! ## Commands -/

/-- Runs a program and prints its value, unless it has none. -/
def evaluate (fuel : Nat) (interp : Interp) (source : String) : Finished :=
  let (answer, after) := interp.run fuel source
  let printed := lines after.state.output.toList
  match answer with
  | .value .undefined => succeed printed
  | .value v => succeed (printed ++ after.state.store.inspect v ++ "\n")
  | .error e => failAfter printed (failureReport e)
  | .outOfFuel => failAfter printed (report "Out of fuel" none)

/-- Prints a program as it is read, or as JSON. -/
def showProgram (json : Bool) (source : String) : Finished :=
  match Expr.ofProgram source with
  | .error e => failAfter "" (syntaxReport e)
  | .ok program => succeed ((if json then program.toJson.indented else program.text) ++ "\n")

/-- What a session prints before its first line. -/
def banner : String :=
  lines ["Eva REPL v" ++ languageVersion, "Type :help for help, :quit to exit", ""]

def farewell : String := "Goodbye!\n"

/-- What a session asks for the next line with. -/
def prompt (s : Session) : String := if s.isContinuing then "...> " else "eva> "

/-- What comes of one line of a session. -/
structure Reply where
  printed : String
  report : String
  /-- Whether the session goes on. -/
  goesOn : Bool

/-- What comes of a step of a session. -/
def replyTo (interp : Interp) : SessionStep → Reply
  | .value .undefined => ⟨"", "", true⟩
  | .value v => ⟨interp.state.store.inspect v ++ "\n", "", true⟩
  | .message text => ⟨text ++ "\n", "", true⟩
  | .quit => ⟨"", "", false⟩
  | .incomplete => ⟨"", "", true⟩
  | .failed e => ⟨"", failureReport e, true⟩
  | .unknownCommand name => ⟨"", report (Session.unknownCommandMessage name) none, true⟩
  | .outOfFuel => ⟨"", report "Out of fuel" none, true⟩

/-- Takes one line of a session. Blank lines count only while lines are
gathered. What programs print comes before their value. -/
def sessionLine (fuel : Nat) (s : Session) (line : String) : Reply × Session :=
  if (trimBlank line).isEmpty && !s.isContinuing then (⟨"", "", true⟩, s)
  else
    let (step, after) := s.feed fuel line
    let reply := replyTo after.interp step
    ({ reply with printed := lines after.interp.state.output.toList ++ reply.printed },
      { after with interp := after.interp.clearOutput })

/-- What a session prints and reports on lines until it ends, after what it has
printed and reported before. -/
def session (fuel : Nat) (printed report : String) (s : Session) : List String → Finished
  | [] => ⟨0, printed ++ farewell, report⟩
  | line :: rest =>
    let (reply, after) := sessionLine fuel s line
    let printed := printed ++ reply.printed
    let report := report ++ reply.report
    if reply.goesOn then session fuel printed report after rest
    else ⟨0, printed ++ farewell, report⟩

/-- The lines of an input. Each loses its line end; the last one may lack it. -/
def inputLines (input : String) : List String :=
  let parts := input.splitOn "\n"
  let ended := parts.dropLast.map fun line =>
    if line.toList.getLast? = some '\r' then String.ofList line.toList.dropLast else line
  let last := parts.getLast?.getD ""
  if last.isEmpty then ended else ended ++ [last]

/-- What the interpreter says about itself. -/
def infoText : String :=
  lines ["Eva interpreter", "Version: " ++ languageVersion, "", "Special forms:",
    "  begin var set if while lambda class super new prop module import", "Sugar:",
    "  def switch for ++ -- += -=", "", "Prelude:",
    "  " ++ " ".intercalate Prelude.standard.entries.names]

/-- What a command does with its settings. -/
def perform (fs : FileSystem) (fuel : Nat) (input : String) (config : Config) :
    Command → Finished
  | .run file =>
    match fs.readText? file with
    | none => failAfter "" (unreadableReport file)
    | some source => evaluate fuel (interpreter fs config) source
  | .eval source => evaluate fuel (interpreter fs config) source
  | .parse file json =>
    match fs.readText? file with
    | none => failAfter "" (unreadableReport file)
    | some source => showProgram json source
  | .repl => session fuel banner "" (.start (interpreter fs config)) (inputLines input)
  | .info => succeed infoText

/-- Runs a command with its settings. -/
def execute (fs : FileSystem) (fuel : Nat) (input : String) (options : Options)
    (config : Config) (command : Command) : Finished :=
  let finished := perform fs fuel input config command
  if options.verbose then { finished with report := settingsText config ++ finished.report }
  else finished

/-- Runs a command line. -/
def run (fs : FileSystem) (fuel : Nat) (args : List String) (input : String) : Finished :=
  match Request.ofArgs args with
  | .misused => ⟨2, "", usage⟩
  | .showHelp => succeed usage
  | .showVersion => succeed ("eva " ++ languageVersion ++ "\n")
  | .execute options command =>
    match settings fs options with
    | .error e => failAfter "" (report e.message none)
    | .ok config => execute fs fuel input options config command

end Cli

end ScopeLisp
