import CodeAtlas.Graph.Basic
import CodeAtlas.Graph.Identity

/-! Changing the graph: writing nodes and relationships. Both keep the connections of every node equal to
the edges that touch it. -/

namespace CodeAtlas

/-- A change of the graph that may fail; what it did before it failed stays done. -/
abbrev Change := EStateM Fault Graph

def Change.check {α : Type} : Checked α → Change α
  | .ok a => pure a
  | .error e => throw e

def NodeKind.read : Value → Checked NodeKind
  | .text s =>
    match NodeKind.ofName? s with
    | some k => .ok k
    | none => .error (.unknownKind .node (.text s))
  | v => .error (.unknownKind .node v)

def RelationKind.read : Value → Checked RelationKind
  | .text s =>
    match RelationKind.ofName? s with
    | some k => .ok k
    | none => .error (.unknownKind .relationship (.text s))
  | v => .error (.unknownKind .relationship v)

/-- What is said about a node when it is written; without a name an old node keeps its own. -/
structure NodeDraft where
  kind : NodeKind
  name : Option Value
  properties : Properties
  weight : Float := 1.0

def NodeDraft.read (data : Value) : Checked NodeDraft := do
  let kind ← NodeKind.read (← data.field "type")
  let properties ← (← data.field "properties").toTable
  let weight ←
    match ← data.field "weight" with
    | .null => pure 1.0
    | w => w.toFloat
  return ⟨kind, ← data.field? "name", properties, weight⟩

namespace Node

def fresh (now : String) (id : Scalar) (d : NodeDraft) : Node where
  id := id
  kind := d.kind
  name := d.name.getD (.text "")
  properties := d.properties
  metadata := ⟨.text now, .text now, d.weight⟩
  connections := ∅

/-- A node written over: only its id, its creation time and its connections stay. -/
def overwritten (now : String) (n : Node) (d : NodeDraft) : Node :=
  { n with
    kind := d.kind
    name := d.name.getD n.name
    properties := d.properties
    metadata := { n.metadata with lastUpdated := .text now, weight := d.weight } }

def connect (n : Node) (edge : Scalar) : Node := { n with connections := n.connections.add edge }

end Node

namespace Graph

/-- The index once `old` is written over by a node of kind `kind`: a node that stops being a concept
takes the entry of its name along. -/
def conceptsWithout (g : Graph) (old : Node) (kind : NodeKind) : Checked (Table Scalar) :=
  if old.kind = .concept ∧ kind ≠ .concept then
    return g.concepts.erase (.text (← old.name.lowered))
  else return g.concepts

/-- Writes a node into the node table. The index loses what the node takes along and gains nothing. -/
def putNode (g : Graph) (now : String) (id : Scalar) (d : NodeDraft) : Checked (Graph × Node) :=
  match g.nodes.get? id with
  | none =>
    let n := Node.fresh now id d
    .ok ({ g with nodes := g.nodes.insert id n }, n)
  | some old => do
    let concepts ← g.conceptsWithout old d.kind
    let n := Node.overwritten now old d
    return ({ g with nodes := g.nodes.insert id n, concepts := concepts }, n)

def indexNode (g : Graph) (id : Scalar) (n : Node) : Checked Graph :=
  if n.kind = .concept then
    return { g with concepts := g.concepts.insert (.text (← n.name.lowered)) id }
  else return g

/-- Writes a node, new or over the node that has its id. The node is in place before its name goes into
the index, and stays if the name cannot go there. -/
def writeNode (now : String) (id : Scalar) (d : NodeDraft) : Change Node := do
  let (g, n) ← Change.check ((← get).putNode now id d)
  set g
  set (← Change.check (g.indexNode id n))
  return n

def addNode (now : String) (id data : Value) : Change Node := do
  let d ← Change.check (NodeDraft.read data)
  writeNode now (← Change.check id.key) d

def missing (g : Graph) (ids : List Scalar) : List Scalar := ids.filter fun id => !g.hasNode id

/-- The fault of a relationship whose ends are missing; it lists the ids, which must be texts. -/
def missingFault (ids : List Scalar) : Fault :=
  match ids.mapM fun
    | .text s => some s
    | _ => none with
  | some names => .missingNodes names
  | none => .wrongSort

def clampStrength (s : Float) : Float :=
  let low := if 0.0 < s then s else 0.0
  if low < 1.0 then low else 1.0

def strengthOf (properties : Properties) : Checked Float :=
  match properties.get? (.text "strength") with
  | none => .ok 1.0
  | some v => return clampStrength (← v.toFloat)

def putEdge (g : Graph) (e : Edge) : Graph where
  nodes := (g.nodes.modify e.source (·.connect e.id)).modify e.target (·.connect e.id)
  edges := g.edges.insert e.id e
  concepts := g.concepts

/-- Refuses ends that are no nodes; an id missing at both ends is listed once. -/
def checkEnds (g : Graph) (source target : Scalar) : Checked Unit :=
  match g.missing (if source.same target then [source] else [source, target]) with
  | [] => .ok ()
  | ids => .error (missingFault ids)

/-- Stores a relationship between two nodes. -/
def relate (now : String) (source target : Scalar) (kind : RelationKind)
    (properties : Properties) : Change Edge := do
  Change.check ((← get).checkEnds source target)
  let strength ← Change.check (strengthOf properties)
  let e : Edge := {
    id := .text (edgeId source.shown target.shown kind.name)
    source, target, kind, strength, properties
    created := .text now }
  modify (·.putEdge e)
  return e

/-- Stores a relationship described by open values. -/
def addRelationship (now : String) (source target kind properties : Value) : Change Edge := do
  let kind ← Change.check (RelationKind.read kind)
  let source ← Change.check source.key
  let target ← Change.check target.key
  Change.check ((← get).checkEnds source target)
  relate now source target kind (← Change.check properties.toTable)

end Graph

end CodeAtlas
