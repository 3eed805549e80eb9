import CodeAtlas.Fault
import CodeAtlas.Table
import CodeAtlas.Text.Search
import CodeAtlas.Value.Access
import CodeAtlas.Value.Order

/-! The knowledge graph: nodes, directed relationships between them, and an index of the concepts by
lower-case name. Every node also holds the ids of the relationships that touch it. -/

namespace CodeAtlas

/-- Open data by key, in the order it was given. -/
abbrev Properties := Table Value

/-- When a node was made and last written, and its weight. -/
structure Metadata where
  created : Value
  lastUpdated : Value
  weight : Float

/-- An entity of the code, or a concept. -/
structure Node where
  id : Scalar
  kind : NodeKind
  name : Value
  properties : Properties
  metadata : Metadata
  connections : KeySet

/-- A relationship from one node to another. -/
structure Edge where
  id : Scalar
  source : Scalar
  target : Scalar
  kind : RelationKind
  strength : Float
  properties : Properties
  created : Value

/-- The end of an edge that is not this node; a loop has the node itself at its other end. -/
def Edge.otherEnd (e : Edge) (id : Scalar) : Scalar :=
  if e.source.same id then e.target else e.source

/-- Nodes and edges under their ids, and the ids of concepts under their lower-case names. -/
structure Graph where
  nodes : Table Node
  edges : Table Edge
  concepts : Table Scalar

namespace Graph

def empty : Graph := ⟨∅, ∅, ∅⟩

instance : Inhabited Graph := ⟨empty⟩

def hasNode (g : Graph) (id : Scalar) : Bool := g.nodes.contains id

def hasEdge (g : Graph) (id : Scalar) : Bool := g.edges.contains id

def conceptId? (g : Graph) (name : String) : Option Scalar :=
  g.concepts.get? (.text (Text.lowerText name))

/-- The edges that touch a node, in ascending order of their ids, each with its other end. -/
def neighbors (g : Graph) (id : Scalar) : List (Edge × Scalar) :=
  match g.nodes.get? id with
  | none => []
  | some n =>
    (sortKeys n.connections.keys).filterMap fun eid =>
      (g.edges.get? eid).map fun e => (e, e.otherEnd id)

/-- Whether the connections of every one of these nodes can be put in order. -/
def orderable (g : Graph) (ids : List Scalar) : Bool :=
  ids.all fun id =>
    match g.nodes.get? id with
    | none => true
    | some n => areComparable n.connections.keys

def ordered {α : Type} (g : Graph) (ids : List Scalar) (answer : α) : Checked α :=
  if g.orderable ids then .ok answer else .error .wrongSort

end Graph

/-- Whether `x` is in a value: a part of a text, an item of a list, a key of an object. -/
def Value.holds (v x : Value) : Checked Bool :=
  match v, x with
  | .text s, .text t => .ok (Text.within t s)
  | .list items, x => .ok (items.any (·.same x))
  | .object entries, x => return (lookup? (← x.key) entries).isSome
  | _, _ => .error .wrongSort

/-- The table of an open value: the fields of an object, or a list of pairs; an absent value is the
empty table. -/
def Value.toTable (v : Value) : Checked Properties :=
  if v.isFalsy then .ok ∅
  else
    match v with
    | .object entries => .ok (Table.ofList entries)
    | v => do
      let entries ← (← v.elements).mapM fun item => do
        let (k, w) ← item.pair
        return (← k.key, w)
      return Table.ofList entries

end CodeAtlas
