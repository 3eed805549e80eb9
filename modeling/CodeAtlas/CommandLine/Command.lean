import CodeAtlas.CommandLine.Arguments
import CodeAtlas.Files.Scan
import CodeAtlas.Graph.Snapshot
import CodeAtlas.Graph.View
import CodeAtlas.Ingestion.Build
import CodeAtlas.Query.Engine

/-! The commands: build a graph from a folder and keep it as a snapshot, and answer questions about a kept
snapshot. -/

namespace CodeAtlas

inductive Command where
  | build (folder : String) (withPatterns : Bool)
  | stats
  | query (kind : String) (filters : List (String × Value)) (limit : Int)

/-- A command and the snapshot it works on. -/
structure Invocation where
  snapshot : String
  command : Command

namespace Invocation

def snapshotOption : OptionSpec := ⟨"--snapshot", .text⟩

def noPatternsOption : OptionSpec := ⟨"--no-patterns", .flag⟩

def limitOption : OptionSpec := ⟨"--limit", .whole⟩

def filterOptions : List (OptionSpec × String) := [
  (⟨"--node-id", .text⟩, "nodeId"), (⟨"--depth", .whole⟩, "depth"),
  (⟨"--pattern", .text⟩, "pattern"), (⟨"--from", .text⟩, "from"), (⟨"--to", .text⟩, "to"),
  (⟨"--name", .text⟩, "name"), (⟨"--node-type", .text⟩, "type")]

def queryOptions : List OptionSpec := filterOptions.map Prod.fst ++ [limitOption]

def usage : String :=
  "usage: codeatlas [--snapshot FILE] build FOLDER [--no-patterns]\n" ++
  "       codeatlas [--snapshot FILE] stats\n" ++
  "       codeatlas [--snapshot FILE] query TYPE [--node-id ID] [--depth N] [--pattern NAME]\n" ++
  "                 [--from ID] [--to ID] [--name TEXT] [--node-type TYPE] [--limit N]"

def complete (p : Parsed) : Except Stop Parsed :=
  if p.unrecognized then .error .refused else .ok p

def optionValue? (p : Parsed) (o : OptionSpec) : Option Value :=
  (p.value? o.name).bind fun text =>
    if o.sort = .whole then (Decimal.readInt? text).map .int else some (.text text)

def readQuery (settings : Settings) (args : List String) : Except Stop Command := do
  let p ← complete (← Arguments.parse queryOptions (.singles 1) args)
  let filters := filterOptions.filterMap fun (o, filter) => (optionValue? p o).map (filter, ·)
  let limit := (p.value? limitOption.name).bind Decimal.readInt?
  return .query (p.positionals.headD "") filters (limit.getD settings.defaultQueryLimit)

def readBuild (args : List String) : Except Stop Command := do
  let p ← complete (← Arguments.parse [noPatternsOption] (.singles 1) args)
  return .build (p.positionals.headD "") (!p.flags.contains noPatternsOption.name)

def readStats (args : List String) : Except Stop Command := do
  let _ ← complete (← Arguments.parse [] (.singles 0) args)
  return .stats

/-- What a list of arguments asks for. -/
def read (settings : Settings) (args : List String) : Except Stop Invocation := do
  let p ← Arguments.parse [snapshotOption] .command args
  let command ←
    match p.positionals with
    | ["build"] => readBuild p.rest
    | ["stats"] => readStats p.rest
    | ["query"] => readQuery settings p.rest
    | _ => throw .refused
  let _ ← complete p
  return ⟨(p.value? snapshotOption.name).getD settings.graphSnapshotPath, command⟩

end Invocation

def Graph.buildFromFolder (settings : Settings) (now : String) (withPatterns : Bool)
    (folder : Entry) : Change IngestionReport := do
  let analyses ← Change.check (Scan.analyses settings folder)
  Graph.build now (.int settings.heavyUsageThreshold) withPatterns
    (Ingestion.ingestAnalyses now analyses)

namespace Command

def request (kind : String) (filters : List (String × Value)) (limit : Int) : Value :=
  .fields [("type", .text kind), ("filters", .fields filters), ("limit", .int limit)]

/-- Carries out a command on a file tree and says what it answers. -/
def execute (settings : Settings) (now : String) (i : Invocation) : FileChange Value := do
  match i.command with
  | .build folder withPatterns =>
    match (Graph.buildFromFolder settings now withPatterns
      (Scan.folderAt (← get) folder)).run Graph.empty with
    | .error e _ => throw e
    | .ok report g =>
      Snapshot.save now i.snapshot g
      return .fields [("ingestion", report.toValue), ("stats", g.stats.toValue)]
  | .stats =>
    let g ← FileChange.check (Snapshot.load now i.snapshot (← get))
    return g.stats.toValue
  | .query kind filters limit =>
    let g ← FileChange.check (Snapshot.load now i.snapshot (← get))
    let r ← FileChange.check (QueryRequest.read (request kind filters limit))
    return .list (← FileChange.check ((QueryEngine.ofSettings settings g).answer settings r))

end Command

/-- The outcome of a run: its exit code and what it prints. -/
structure RunResult where
  exitCode : Nat
  output : String
  deriving DecidableEq

/-- What a run printed: the answer, one part to a line, and a final newline. -/
def printed (answer : Value) : String := answer.write .readable ++ "\n"

/-- Runs a list of arguments on a file tree. A command that fails for a reason to be expected ends with
exit code 1 and prints nothing. The output takes every text there is, as texts are made of whole
characters, so printing the answer does not fail. -/
def runCommand (settings : Settings) (now : String) (i : Invocation) : FileChange RunResult :=
  tryCatch (return ⟨0, printed (← Command.execute settings now i)⟩) fun e =>
    if e.isReported then return ⟨1, ""⟩ else throw e

end CodeAtlas
