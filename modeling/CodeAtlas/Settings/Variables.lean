import CodeAtlas.Decimal.Numeral
import CodeAtlas.Settings.Assignments
import CodeAtlas.Settings.Basic
import CodeAtlas.Text.Case
import CodeAtlas.Value.Display

/-! Settings from variables: each setting has a variable of its own name, in any case, in the environment
or else in a file of assignments. -/

namespace CodeAtlas

namespace Settings

def lowered (vars : Variables) : Variables :=
  vars.entries.foldl (fun done e => done.insert (.text (Text.lowerText e.1.shown)) e.2) ∅

/-- The text of a variable by the lower-case name of its setting; the environment goes before the
file. -/
def lookUpVariable (environment file : Variables) (name : String) : Option String :=
  let value (vars : Variables) : Option String := ((lowered vars).get? (.text name)).join
  (value environment).or (value file)

def isOuterBlank (c : Char) : Bool := Text.isBlank c && !(0x1c ≤ c.toNat && c.toNat ≤ 0x1f)

def trimNumber (s : List Char) : List Char := Text.trimWhere isOuterBlank s

/-- A whole number in a variable: an optional sign, digits with single underscores between them, and
perhaps a fraction of zeros. -/
def readWhole? (text : String) : Option Int :=
  let s := trimNumber text.toList
  let whole := s.takeWhile (· ≠ '.')
  let fraction := (s.dropWhile (· ≠ '.')).drop 1
  if !fraction.all (· = '0') || whole.any (fun c => 0x7f ≤ c.toNat || Decimal.isSpace c) then none
  else Decimal.readInt? (String.ofList whole)

def readNumber? (text : String) : Option Float :=
  let s := trimNumber text.toList
  if s.any (fun c => 0x7f ≤ c.toNat) then none else Decimal.readFloat? (String.ofList s)

def wholeOr (default : Int) : Option String → Checked Int
  | none => .ok default
  | some s =>
    match readWhole? s with
    | some n => .ok n
    | none => .error .badSetting

def numberOr (default : Float) : Option String → Checked Float
  | none => .ok default
  | some s =>
    match readNumber? s with
    | some x => .ok x
    | none => .error .badSetting

def names : List String := [
  "graph_snapshot_path", "supported_extensions", "max_file_size_mb", "max_scan_files",
  "scan_workers", "default_query_limit", "default_dependency_depth", "similarity_threshold",
  "max_visit_nodes", "heavy_usage_threshold", "log_level", "log_file"]

/-- The settings under an environment and a file of assignments. -/
def ofVariables (environment : Variables) (file : String) : Checked Settings := do
  let assigned := Assignments.toVariables environment (Assignments.read file)
  let var := lookUpVariable environment assigned
  let d : Settings := {}
  return {
    graphSnapshotPath := (var "graph_snapshot_path").getD d.graphSnapshotPath
    supportedExtensions := (var "supported_extensions").getD d.supportedExtensions
    maxFileSizeMb := ← wholeOr d.maxFileSizeMb (var "max_file_size_mb")
    maxScanFiles := ← wholeOr d.maxScanFiles (var "max_scan_files")
    scanWorkers := ← wholeOr d.scanWorkers (var "scan_workers")
    defaultQueryLimit := ← wholeOr d.defaultQueryLimit (var "default_query_limit")
    defaultDependencyDepth := ← wholeOr d.defaultDependencyDepth (var "default_dependency_depth")
    similarityThreshold := ← numberOr d.similarityThreshold (var "similarity_threshold")
    maxVisitNodes := ← wholeOr d.maxVisitNodes (var "max_visit_nodes")
    heavyUsageThreshold := ← wholeOr d.heavyUsageThreshold (var "heavy_usage_threshold")
    logLevel := (var "log_level").getD d.logLevel
    logFile := (var "log_file").getD d.logFile }

/-- All settings, with what follows from them. -/
def toValue (s : Settings) : Value :=
  .fields [
    ("graph_snapshot_path", .text s.graphSnapshotPath),
    ("supported_extensions", .text s.supportedExtensions),
    ("max_file_size_mb", .int s.maxFileSizeMb),
    ("max_scan_files", .int s.maxScanFiles),
    ("scan_workers", .int s.scanWorkers),
    ("default_query_limit", .int s.defaultQueryLimit),
    ("default_dependency_depth", .int s.defaultDependencyDepth),
    ("similarity_threshold", .float s.similarityThreshold),
    ("max_visit_nodes", .int s.maxVisitNodes),
    ("heavy_usage_threshold", .int s.heavyUsageThreshold),
    ("log_level", .text s.logLevel),
    ("log_file", .text s.logFile),
    ("supported_extensions_list", .list (s.extensions.map .text)),
    ("log_dir", .text s.logFolder.text)]

end Settings

end CodeAtlas
