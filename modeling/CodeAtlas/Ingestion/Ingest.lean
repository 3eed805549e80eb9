import CodeAtlas.Graph.Change
import CodeAtlas.Ingestion.Package
import CodeAtlas.Ingestion.Record

/-! Turning analysis records into nodes and relationships: a node per file, function, class and imported
name, and an edge for each fact. A fact without a usable name is skipped and counted. -/

namespace CodeAtlas

/-- What an ingestion did. -/
structure IngestionReport where
  filesProcessed : Nat := 0
  nodesCreated : Nat := 0
  edgesCreated : Nat := 0
  skippedFacts : Nat := 0
  failedFiles : List String := []

namespace IngestionReport

def skip (r : IngestionReport) : IngestionReport := { r with skippedFacts := r.skippedFacts + 1 }

/-- A report with one more record that names no file; the report keeps the record's text. -/
def fail (r : IngestionReport) (shown : String) : IngestionReport :=
  { r with failedFiles := r.failedFiles ++ [shown] }

def toValue (r : IngestionReport) : Value :=
  .fields [
    ("files_processed", .int r.filesProcessed),
    ("nodes_created", .int r.nodesCreated),
    ("edges_created", .int r.edgesCreated),
    ("skipped_facts", .int r.skippedFacts),
    ("failed_files", .list (r.failedFiles.map .text))]

end IngestionReport

def Properties.ofFields (fields : List (String × Value)) : Properties :=
  Table.ofList (fields.map fun e => (.text e.1, e.2))

namespace Ingestion

def fileId (path : Value) : String := nodeId NodeKind.file.name path.shown

def functionId (path : Value) (name : String) : String :=
  nodeId NodeKind.function.name (path.shown ++ ":" ++ name)

def classId (path : Value) (name : String) : String :=
  nodeId NodeKind.classDecl.name (path.shown ++ ":" ++ name)

def dependencyId (importPath : String) : String := nodeId NodeKind.dependency.name importPath

def fileDraft (r : Record) : NodeDraft where
  kind := .file
  name := some r.path
  properties := .ofFields [
    ("language", r.language),
    ("size", r.size),
    ("complexity", .int (complexity r.functions.length r.classes.length r.imports.length))]

def functionDraft (path : Value) (name : String) (fact : Value) : NodeDraft where
  kind := .function
  name := some (.text name)
  properties := .ofFields [
    ("file", path),
    ("parameters",
      .list (((factField? "params" fact).getD ((factField? "parameters" fact).getD .null)).asList)),
    ("complexity", ((factField? "complexity" fact).getD .null).orElse (.int 1))]

def classDraft (path : Value) (name : String) (fact : Value) : NodeDraft where
  kind := .classDecl
  name := some (.text name)
  properties := .ofFields [
    ("file", path),
    ("methods", .list ((factField? "methods" fact).getD .null).asList),
    ("inheritance", .list ((factField? "inheritance" fact).getD .null).asList)]

def dependencyDraft (language : Value) (importPath : String) : NodeDraft where
  kind := .dependency
  name := some (.text importPath)
  properties := .ofFields [
    ("external", .bool (importPath.toList.head? ≠ some '.')),
    ("package", .text (packageOf (match language with
      | .text s => isDotted s
      | _ => false) importPath))]

def link (now : String) (source target : Scalar) (kind : RelationKind) (report : IngestionReport) :
    Change IngestionReport :=
  tryCatch (do let _ ← Graph.relate now source target kind ∅; return report) fun
    | .missingNodes _ => return report.skip
    | e => throw e

/-- Writes the nodes of named facts and makes each a part of the file. -/
def addFacts (now : String) (file : Scalar) (id : String → String)
    (draft : String → Value → NodeDraft) :
    IngestionReport → List Value → Change IngestionReport
  | report, [] => return report
  | report, fact :: rest => do
    match factName? fact with
    | none => addFacts now file id draft report.skip rest
    | some name =>
      let n ← Graph.writeNode now (.text (id name)) (draft name fact)
      let report ← link now n.id file .partOf report
      addFacts now file id draft report rest

/-- The node of an imported name, made when it is first needed. -/
def dependencyNode (now : String) (language : Value) (importPath : String) : Change Node := do
  let id : Scalar := .text (dependencyId importPath)
  match (← get).nodes.get? id with
  | some n => return n
  | none => Graph.writeNode now id (dependencyDraft language importPath)

/-- Makes the file depend on everything it imports. -/
def addImports (now : String) (file : Scalar) (language : Value) :
    IngestionReport → List Value → Change IngestionReport
  | report, [] => return report
  | report, v :: rest => do
    match v with
    | .text importPath =>
      if importPath.isEmpty then addImports now file language report.skip rest
      else
        let n ← dependencyNode now language importPath
        let report ← link now file n.id .dependsOn report
        addImports now file language report rest
    | _ => addImports now file language report.skip rest

def addRecord (now : String) (report : IngestionReport) (r : Record) : Change IngestionReport := do
  let nodesBefore := (← get).nodes.size
  let edgesBefore := (← get).edges.size
  let file ← Graph.writeNode now (.text (fileId r.path)) (fileDraft r)
  let report ← addFacts now file.id (functionId r.path) (functionDraft r.path) report r.functions
  let report ← addFacts now file.id (classId r.path) (classDraft r.path) report r.classes
  let report ← addImports now file.id r.language report r.imports
  return { report with
    nodesCreated := report.nodesCreated + ((← get).nodes.size - nodesBefore)
    edgesCreated := report.edgesCreated + ((← get).edges.size - edgesBefore)
    filesProcessed := report.filesProcessed + 1 }

/-- Ingests one open value; one that names no file is noted as failed. -/
def ingestRecord (now : String) (report : IngestionReport) (v : Value) :
    Change IngestionReport := do
  match ← Change.check (Record.read? v) with
  | none => return report.fail v.shown
  | some r => addRecord now report r

def ingest (now : String) (records : List Value) : Change IngestionReport :=
  records.foldlM (ingestRecord now) {}

end Ingestion

end CodeAtlas
