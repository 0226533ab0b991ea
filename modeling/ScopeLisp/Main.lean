/-
ScopeLisp.Main — the command line on a real machine.

The files that a command may read are taken in before it runs: the settings,
its operand, and every file in the search directories that has the extension
of modules. What comes of the command is decided without looking at the
machine again.
-/
import ScopeLisp.Cli.Run

namespace ScopeLisp

namespace Cli

/-- Files of the machine, by path. -/
abbrev Snapshot := List (String × ByteArray)

/-- The file system that a snapshot shows. -/
def Snapshot.fileSystem (s : Snapshot) : FileSystem := fun path => (s.lookup path).map .file

/-- Adds the file at a path, if there is one that can be read. -/
def Snapshot.add (s : Snapshot) (path : String) : IO Snapshot := do
  try
    let content ← IO.FS.readBinFile path
    return (path, content) :: s
  catch _ => return s

/-- The names of the files in a directory; none if it cannot be read. -/
def fileNames (directory : String) : IO (List String) := do
  try
    let here ← IO.currentDir
    let entries ← (here / directory).readDir
    return entries.toList.map (·.fileName)
  catch _ => return []

/-- Adds all files that modules may be read from. -/
def Snapshot.addModules (s : Snapshot) (search : ModuleSearch) : IO Snapshot :=
  search.directories.foldlM (fun s directory => do
    let names ← fileNames directory
    let modules := names.filter (·.endsWith ("." ++ search.extension))
    modules.foldlM (fun s name => s.add (joinPath directory name)) s) s

/-- The file that a command reads. -/
def Command.file? : Command → Option String
  | .run file => some file
  | .parse file _ => some file
  | _ => none

/-- Writes what comes of a command and gives its exit code. -/
def finish (f : Finished) : IO UInt32 := do
  (← IO.getStderr).putStr f.report
  (← IO.getStdout).putStr f.printed
  return f.code.toUInt32

/-- Takes lines of the standard input until the session ends. -/
partial def interact (fuel : Nat) (s : Session) : IO Unit := do
  let input ← IO.getStdin
  let output ← IO.getStdout
  if ← input.isTty then
    output.putStr (prompt s)
    output.flush
  let line ← input.getLine
  match inputLines line with
  | [] => output.putStr farewell
  | line :: _ =>
    let (reply, after) := sessionLine fuel s line
    output.putStr reply.printed
    output.flush
    (← IO.getStderr).putStr reply.report
    if reply.goesOn then interact fuel after else output.putStr farewell

/-- Runs a command line on the machine. -/
def runHere (args : List String) : IO UInt32 := do
  let fuel := Interp.ampleFuel
  match Request.ofArgs args with
  | .execute options command =>
    let first ← Snapshot.add [] (options.config.getD (Config.pathIn "."))
    match settings first.fileSystem options, command with
    | .ok config, .repl =>
      let files ← first.addModules config.search
      (← IO.getStdout).putStr banner
      interact fuel (.start (interpreter files.fileSystem config))
      return 0
    | .ok config, command =>
      let files ← command.file?.toList.foldlM Snapshot.add (← first.addModules config.search)
      finish (execute files.fileSystem fuel "" options config command)
    | .error _, _ => finish (run first.fileSystem fuel args "")
  | _ => finish (run (fun _ => none) fuel args "")

end Cli

end ScopeLisp

/-- Runs the command line. -/
def main (args : List String) : IO UInt32 := ScopeLisp.Cli.runHere args
