import CodeAtlas.Settings.Basic
import CodeAtlas.Source.Analysis
import CodeAtlas.Source.Language
import CodeAtlas.Value.Access

/-! Collecting the source files below a folder: those with a supported ending and within the size limit,
outside of hidden and ignored folders. A folder's own files come first, by name, and then those of its
subfolders, by name. -/

namespace CodeAtlas

/-- A file found below the root of a scan. -/
structure ScannedFile where
  parts : List String
  size : Nat
  deriving DecidableEq

namespace ScannedFile

def path (f : ScannedFile) : String := String.intercalate "/" f.parts

def suffix (f : ScannedFile) : String := Text.lowerText (nameSuffix (f.parts.getLast?.getD ""))

def language (f : ScannedFile) : String := languageOf f.suffix

def fileType (f : ScannedFile) : FileType := fileTypeOf f.suffix

def toValue (f : ScannedFile) : Value :=
  .fields [
    ("path", .text f.path),
    ("file_type", .text f.fileType.name),
    ("language", .text f.language),
    ("size", .int f.size)]

end ScannedFile

namespace Scan

def ignoredFolders : List String :=
  ["node_modules", "venv", "env", "__pycache__", "build", "dist", "coverage", "site-packages"]

def isPruned (name : String) : Bool := name.toList.head? = some '.' || ignoredFolders.contains name

def byName {α : Type} (xs : List (String × α)) : List (String × α) :=
  xs.mergeSort fun a b => a.1 ≤ b.1

def filesIn (dir : List String) (entries : List (String × Entry)) : List ScannedFile :=
  (byName (entries.filterMap fun
    | (name, .file bytes) => some (name, bytes.size)
    | _ => none)).map fun (name, size) => ⟨dir ++ [name], size⟩

mutual

def walk (dir : List String) : Entry → List ScannedFile
  | .folder entries =>
    filesIn dir entries ++ (byName (walkSubfolders dir entries)).flatMap Prod.snd
  | _ => []

/-- The files below each subfolder that is not pruned. -/
def walkSubfolders (dir : List String) : List (String × Entry) → List (String × List ScannedFile)
  | [] => []
  | (name, e) :: rest =>
    if e.isFolder && !isPruned name then
      (name, walk (dir ++ [name]) e) :: walkSubfolders dir rest
    else walkSubfolders dir rest

end

def isEligible (settings : Settings) (f : ScannedFile) : Bool :=
  (settings.extensions.map Text.lowerText).contains f.suffix &&
    (f.size : Int) ≤ settings.maxFileSizeMb * 1024 * 1024

def capped {α : Type} (cap : Int) (xs : List α) : List α := if 0 ≤ cap then xs.take cap.toNat else xs

/-- A cap given as an open value: what is not a whole number is never reached. -/
def capOf (settings : Settings) : Value → Int
  | .null => settings.maxScanFiles
  | .int n => n
  | .bool b => if b then 1 else 0
  | .float x => (Decimal.whole? x).getD (-1)
  | _ => -1

def files (settings : Settings) (cap : Int) (root : Entry) : List ScannedFile :=
  capped cap ((walk [] root).filter (isEligible settings))

/-- Refuses a number of workers that is not positive; an absent one is the one of the settings. -/
def checkWorkers (settings : Settings) (workers : Value) : Checked Unit := do
  if (← (workers.orElse (.int settings.scanWorkers)).ceiling) ≤ 0 then throw .malformed

/-- The text of a file below the root of a scan; nothing if it is gone. Bytes that are no text are
dropped, and every end of line is a newline. -/
def content? (root : Entry) (f : ScannedFile) : Option String :=
  match root.get? f.parts with
  | some (.file bytes) =>
    some (String.ofList (Text.normalizeNewlines (Text.utf8DecodeLenient bytes).toList))
  | _ => none

def loaded (root : Entry) (found : List ScannedFile) : List (ScannedFile × String) :=
  found.filterMap fun f => (content? root f).map (f, ·)

def sourceFile (f : ScannedFile) (content : String) : SourceFile where
  path := .text f.path
  language := .text f.language
  content := .text content
  size := .int f.size

def analyses (settings : Settings) (root : Entry) : Checked (List Analysis) := do
  let found := files settings settings.maxScanFiles root
  checkWorkers settings .null
  Source.analyseAll ((loaded root found).map fun (f, content) => sourceFile f content)

/-- The folder that a path leads to, where double dots take back the part before them. The empty path
leads to the folder at hand, and a path that leads to no folder to an empty one. -/
def folderAt (root : Entry) (path : String) : Entry :=
  match root.get? (Path.ofText path).collapsed with
  | some (.folder entries) => .folder entries
  | _ => .emptyFolder

end Scan

end CodeAtlas
