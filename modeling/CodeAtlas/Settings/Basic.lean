import CodeAtlas.Files.Tree
import CodeAtlas.Text.Blank

/-! The settings of the library, with their defaults. -/

namespace CodeAtlas

structure Settings where
  /-- Where snapshots are kept. -/
  graphSnapshotPath : String := "graph_data.json"
  /-- Endings of the files that are scanned, separated by commas. -/
  supportedExtensions : String := ".js,.ts,.jsx,.tsx,.mjs,.cjs,.py"
  maxFileSizeMb : Int := 10
  maxScanFiles : Int := 5000
  scanWorkers : Int := 4
  defaultQueryLimit : Int := 20
  defaultDependencyDepth : Int := 2
  similarityThreshold : Float := 0.3
  /-- The number of nodes that one traversal may visit. -/
  maxVisitNodes : Int := 10000
  /-- The number of dependents that make the usage of a package heavy. -/
  heavyUsageThreshold : Int := 3
  logLevel : String := "INFO"
  logFile : String := "logs/app.log"

namespace Settings

/-- The supported endings one by one, without blanks around them and without empty ones. -/
def extensions (s : Settings) : List String :=
  ((Text.splitAtChar ',' s.supportedExtensions.toList).map fun part =>
    String.ofList (Text.trim part)).filter (· ≠ "")

def logFolder (s : Settings) : Path := (Path.ofText s.logFile).parent

/-- Makes the folder of the log file, if there is to be one; an absolute path leads out of the tree. -/
def ensureFolders (s : Settings) (root : Entry) : Except FileTrouble Entry :=
  if s.logFile.isEmpty || s.logFolder.root ≠ "" then .ok root
  else root.ensureFolders s.logFolder.parts.reverse

end Settings

end CodeAtlas
