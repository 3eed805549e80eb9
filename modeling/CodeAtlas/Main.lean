import CodeAtlas.CommandLine.Command
import CodeAtlas.Settings.Variables
import Std.Time.Format

/-! The command line program. It takes its settings from the environment and the file `.env`, and a build
takes the names of the files to look at from standard input, one to a line. What is decided is decided
by `runCommand`; here files are read into a tree before it and the snapshot is written out after it. -/

namespace CodeAtlas.Program

/-- The lines of a stream, without their ends. -/
partial def readLines (input : IO.FS.Stream) : IO (List String) := do
  let line ← input.getLine
  if line.isEmpty then return []
  return String.ofList (line.toList.filter (· ≠ '\n')) :: (← readLines input)

def readFile? (name : String) : IO (Option ByteArray) := do
  try return some (← IO.FS.readBinFile name) catch _ => return none

def addFile (tree : Entry) (name : String) : IO Entry := do
  match ← readFile? name with
  | some bytes => return tree.put (Path.ofText name).parts (.file bytes)
  | none => return tree

def environment : IO Variables := do
  let mut vars : Variables := ∅
  for name in Settings.names do
    for spelling in [name, name.toUpper] do
      if let some value ← IO.getEnv spelling then
        vars := vars.insert (.text spelling) (some value)
  return vars

def settings : IO (Checked Settings) := do
  let assignments := (← readFile? ".env").map Text.utf8DecodeLenient
  return Settings.ofVariables (← environment) (assignments.getD "")

def timeText : IO String := do
  let now ← Std.Time.PlainDateTime.now
  return String.ofList (now.toLeanDateTimeString.toList.take 26)

/-- The files that an invocation works on: its snapshot, and for a build the files named on standard
input. -/
def filesFor (i : Invocation) : IO Entry := do
  let names ← if i.command matches .build .. then readLines (← IO.getStdin) else pure []
  (i.snapshot :: names).foldlM addFile .emptyFolder

def writeSnapshot (i : Invocation) (tree : Entry) : IO Unit := do
  let path := Path.ofText i.snapshot
  if let .ok bytes := tree.readBytes path.parts then
    IO.FS.createDirAll path.parent.text
    IO.FS.writeBinFile path.text bytes

/-- Carries out an invocation and answers its exit code. -/
def perform (settings : Settings) (i : Invocation) : IO UInt32 := do
  match (runCommand settings (← timeText) i).run (← filesFor i) with
  | .ok r tree =>
    if i.command matches .build .. then writeSnapshot i tree
    IO.print r.output
    return r.exitCode.toUInt32
  | .error e _ =>
    IO.eprintln (e.message?.getD "The snapshot cannot be used.")
    return 1

end CodeAtlas.Program

open CodeAtlas in
def main (args : List String) : IO UInt32 := do
  match ← Program.settings with
  | .error _ =>
    IO.eprintln "A setting cannot be read."
    return 1
  | .ok settings =>
    match Invocation.read settings args with
    | .ok i => Program.perform settings i
    | .error .help =>
      IO.println Invocation.usage
      return 0
    | .error .refused =>
      IO.eprintln Invocation.usage
      return 2
