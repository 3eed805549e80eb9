import CodeAtlas.Graph.Basic
import CodeAtlas.Grouping

/-! Looking at the graph: nodes by name, the relationships of one node, and counts over the whole. -/

namespace CodeAtlas

/-- A relationship seen from one of its ends. -/
structure Relationship where
  kind : RelationKind
  target : Scalar
  strength : Float
  outgoing : Bool

/-- Counts over a graph; kinds stand in the order they first occur. -/
structure Stats where
  nodeCount : Nat
  edgeCount : Nat
  nodesByKind : List (NodeKind × Nat)
  edgesByKind : List (RelationKind × Nat)
  concepts : Nat
  averageConnections : Float

namespace Graph

def findNodes (g : Graph) (fragment : Value) : Checked (List Node) :=
  g.nodes.values.filterM fun n => n.name.holds fragment

def relationships (g : Graph) (id : Scalar) : List Relationship :=
  (g.neighbors id).map fun (e, other) => ⟨e.kind, other, e.strength, e.source.same id⟩

/-- The number of all connections, each edge counted at both of its ends and a loop once. -/
def connectionTotal (g : Graph) : Nat :=
  g.nodes.values.foldl (fun total n => total + n.connections.size) 0

def averageConnections (g : Graph) : Float :=
  if g.nodes.size = 0 then 0.0
  else Float.ofNat g.connectionTotal / Float.ofNat g.nodes.size

def stats (g : Graph) : Stats where
  nodeCount := g.nodes.size
  edgeCount := g.edges.size
  nodesByKind := tally (g.nodes.values.map (·.kind))
  edgesByKind := tally (g.edges.values.map (·.kind))
  concepts := g.concepts.size
  averageConnections := g.averageConnections

end Graph

def Relationship.toValue (r : Relationship) : Value :=
  .fields [
    ("type", .text r.kind.name),
    ("target", .scalar r.target),
    ("strength", .float r.strength),
    ("direction", .text (if r.outgoing then "outgoing" else "incoming"))]

def Stats.toValue (s : Stats) : Value :=
  .fields [
    ("totalNodes", .int s.nodeCount),
    ("totalEdges", .int s.edgeCount),
    ("nodesByType", .fields (s.nodesByKind.map fun e => (e.1.name, .int e.2))),
    ("edgesByType", .fields (s.edgesByKind.map fun e => (e.1.name, .int e.2))),
    ("concepts", .int s.concepts),
    ("avgConnectionsPerNode", .float s.averageConnections)]

end CodeAtlas
