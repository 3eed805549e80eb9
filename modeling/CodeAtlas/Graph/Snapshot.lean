import CodeAtlas.Files.Tree
import CodeAtlas.Graph.Export
import CodeAtlas.Value.Document
import CodeAtlas.Value.Parse

/-! Snapshots: a graph kept as a document in a file. Saving over an earlier snapshot keeps the time at
which the first one was made. -/

namespace CodeAtlas

/-- A change of the file tree that may fail; what it did before it failed stays done. -/
abbrev FileChange := EStateM Fault Entry

def FileChange.check {α : Type} : Checked α → FileChange α
  | .ok a => pure a
  | .error e => throw e

namespace Snapshot

def version : String := "1.0"

def createdIn (now : String) (document : Value) : Checked Value := do
  let metadata := (← document.field? "metadata").getD (.object [])
  return timeOr now (← metadata.field "created_at")

/-- The time at which the snapshot at a path was first made. A file that cannot be read as a document
does not count; a document that cannot be a snapshot is a fault. -/
def firstCreated (now : String) (root : Entry) (path : Path) : Checked Value :=
  if root.has path.parts then
    match (root.readText path.text).bind Value.parse with
    | .ok document => createdIn now document
    | .error _ => .ok (.text now)
  else .ok (.text now)

def document (g : Graph) (created : Value) (now : String) : Value :=
  .fields (g.toFields ++ [
    ("metadata", .fields [
      ("version", .text version),
      ("created_at", created),
      ("updated_at", .text now)])])

/-- Writes a graph to the file at a path. -/
def save (now : String) (path : String) (g : Graph) : FileChange Unit := do
  let path := Path.ofText path
  set (← FileChange.check (troubled ((← get).ensureFolders path.parent.parts.reverse)))
  let created ← FileChange.check (firstCreated now (← get) path)
  let _ ← FileChange.check g.toExport
  let text := (document g created now).write .readable
  set (← FileChange.check (troubled ((← get).writeBytes path.parts text.toUTF8)))

def load (now : String) (path : String) (root : Entry) : Checked Graph := do
  Graph.ofExport now (← Value.parse (← root.readText path))

end Snapshot

end CodeAtlas
