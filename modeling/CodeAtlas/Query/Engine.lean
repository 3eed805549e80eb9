import CodeAtlas.Query.Dependencies
import CodeAtlas.Query.Route
import CodeAtlas.Query.Search
import CodeAtlas.Settings.Basic

/-! Asking a graph questions given as open values. An id that names no node has an empty answer; limits
and bounds are looked at only when they matter. -/

namespace CodeAtlas

inductive QueryKind where
  | findSimilar
  | findDependencies
  | findUsage
  | findPatterns
  | pathBetween
  | search
  deriving DecidableEq

namespace QueryKind

def name : QueryKind → String
  | findSimilar => "findSimilar"
  | findDependencies => "findDependencies"
  | findUsage => "findUsage"
  | findPatterns => "findPatterns"
  | pathBetween => "pathBetween"
  | search => "search"

def all : List QueryKind :=
  [findSimilar, findDependencies, findUsage, findPatterns, pathBetween, search]

/-- The kind of question that a value names; what names none asks for a search. -/
def read : Value → QueryKind
  | .text s => (all.find? (·.name = s)).getD search
  | _ => search

end QueryKind

/-- A question. -/
structure QueryRequest where
  kind : Value := .text QueryKind.search.name
  filters : Value := .object []
  limit : Value := .null

/-- A question given as an object, with defaults for what is absent. -/
def QueryRequest.read (data : Value) : Checked QueryRequest := do
  let kind := (← data.field "type").orElse (.text QueryKind.search.name)
  let filters ← (← data.field "filters").toTable
  return ⟨kind, .object filters.entries, ← data.field "limit"⟩

/-- A graph to be asked, the score that similar nodes have to exceed, and the number of nodes that a
traversal may visit. -/
structure QueryEngine where
  graph : Graph
  threshold : Value
  budget : Value

namespace QueryEngine

def ofSettings (s : Settings) (g : Graph) : QueryEngine :=
  ⟨g, .float s.similarityThreshold, .int s.maxVisitNodes⟩

def node? (q : QueryEngine) (id : Value) : Checked (Option Node) :=
  if id.isFalsy then .ok none else return q.graph.nodes.get? (← id.key)

def nodeKey? (q : QueryEngine) (id : Value) : Checked (Option Scalar) := do
  if id.isFalsy then return none
  let key ← id.key
  return if q.graph.hasNode key then some key else none

def nodeBudget (q : QueryEngine) : Checked Int := do
  if (← q.budget.floor) < 1 then return 0 else q.budget.ceiling

def findSimilar (q : QueryEngine) (id limit : Value) : Checked (List Hit) := do
  match ← q.node? id with
  | none => return []
  | some n => Query.similarTo q.graph q.threshold.threshold limit n

def findDependencies (q : QueryEngine) (id maxDepth : Value) : Checked (List Hit) := do
  match ← q.nodeKey? id with
  | none => return []
  | some start =>
    let maxDepth ← maxDepth.floor
    if maxDepth < 0 then return []
    let walk := q.graph.dependencyWalk start ⟨maxDepth, ← q.nodeBudget⟩
    q.graph.ordered walk.visited <|
      walk.hits.map fun h => { node := h.node, depth := some h.depth, relationship := some h.edge }

def findUsage (q : QueryEngine) (id limit : Value) : Checked (List Hit) := do
  match ← q.nodeKey? id with
  | none => return []
  | some key => Query.usage q.graph limit key

def findPatterns (q : QueryEngine) (name limit : Value) : Checked (List Hit) :=
  Query.patterns q.graph limit name

def routeStop (g : Graph) (id : Scalar) : Option Value :=
  (g.nodes.get? id).map fun n =>
    .fields [("id", .scalar id), ("name", n.name), ("type", .text n.kind.name)]

def pathBetween (q : QueryEngine) (source target : Value) : Checked (List Value) := do
  if source.isFalsy || target.isFalsy then return []
  match ← q.nodeKey? source with
  | none => return []
  | some start =>
    match ← q.nodeKey? target with
    | none => return []
    | some goal =>
      let budget ← if start.same goal then pure 0 else q.nodeBudget
      q.graph.ordered (q.graph.routeSearch budget start goal).expanded <|
        (q.graph.route budget start goal).filterMap (routeStop q.graph)

def search (q : QueryEngine) (filters limit : Value) : Checked (List Hit) :=
  Query.search q.graph limit filters

def answer (settings : Settings) (q : QueryEngine) (r : QueryRequest) : Checked (List Value) := do
  let limit := if r.limit matches .null then .int settings.defaultQueryLimit else r.limit
  let project (hits : Checked (List Hit)) : Checked (List Value) := return (← hits).map (·.toValue)
  match QueryKind.read r.kind with
  | .findSimilar => project (q.findSimilar (← r.filters.field "nodeId") limit)
  | .findDependencies =>
    let depth ←
      match ← r.filters.field "depth" with
      | .null => pure settings.defaultDependencyDepth
      | v => v.toInt
    project (q.findDependencies (← r.filters.field "nodeId") (.int depth))
  | .findUsage => project (q.findUsage (← r.filters.field "nodeId") limit)
  | .findPatterns => project (q.findPatterns ((← r.filters.field "pattern").orElse (.text "")) limit)
  | .pathBetween => q.pathBetween (← r.filters.field "from") (← r.filters.field "to")
  | .search => project (q.search r.filters limit)

end QueryEngine

end CodeAtlas
