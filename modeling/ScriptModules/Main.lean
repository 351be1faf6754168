import ScriptModules.CommandLine.Report

/-!
# The program

Reads the files that the command line names, runs the module, and prints the report.
-/

namespace ScriptModules.CommandLine

/-- How to call the program. -/
def usageText : String :=
  "Usage: jsuse --root DIR [--search-path PATH]... [--resource-type TYPE] [--script PATH]\n" ++
  "             [--arg KEY=VALUE]... [--config FILE] MODULE\n"

/-- The fault that the system names. -/
def fileFault : IO.Error → FileFault
  | .noFileOrDirectory _ _ _ => .missing "No such file or directory (os error 2)"
  | e => .unreadable (toString e)

/-- The text of a file. -/
def readText (path : String) : IO (Except FileFault String) := do
  try
    match String.fromUTF8? (← IO.FS.readBinFile path) with
    | some text => return .ok text
    | none => return .error (.unreadable "stream did not contain valid UTF-8")
  catch e => return .error (fileFault e)

/-- The entries below a folder, which stands under the given names. -/
partial def entriesBelow (names : List String) (folder : String) :
    IO (List (List String × Entry)) := do
  let here ← IO.FS.realPath folder
  let mut entries := [(names, Entry.folder)]
  for e in ← here.readDir do
    let inner := names ++ [e.fileName]
    if ← e.path.isDir then
      entries := entries ++ (← entriesBelow inner e.path.toString)
    else
      let text ← readText e.path.toString
      entries := entries ++ [(inner, .file text.toOption)]
  return entries

/-- The directory at a path, if it is one. -/
def readDirectory (path : String) : IO (Option Directory) := do
  try
    let here ← IO.FS.realPath path
    if ← here.isDir then return some ⟨← entriesBelow [] path⟩
    else return none
  catch _ => return none

/-- What the files that an invocation names hold. -/
def lookAround (i : Invocation) : IO Found := do
  let configuration ← match i.config with
    | some path => readText path
    | none => pure (.ok "")
  return { configuration := configuration, root := ← readDirectory i.root }

/-- The fuel of a run. -/
def plentyOfFuel : Nat := 10000000

/-- Run the program, and yield its exit code. -/
def runProgram (arguments : List String) : IO UInt32 := do
  match CommandLine.read arguments with
  | .misused =>
    IO.eprint usageText
    return 2
  | .help =>
    IO.print usageText
    return 0
  | .run i =>
    match i.report? plentyOfFuel (← lookAround i) with
    | none => return 1
    | some r =>
      IO.print r.output
      IO.eprint r.errors
      return UInt32.ofNat r.code

end ScriptModules.CommandLine

def main (arguments : List String) : IO UInt32 := ScriptModules.CommandLine.runProgram arguments
