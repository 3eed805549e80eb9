import CodeAtlas.Graph.Export

/-! What a query answers: nodes, each with what the query has to say about it. -/

namespace CodeAtlas

/-- A node in an answer. -/
structure Hit where
  node : Node
  score : Option Float := none
  depth : Option Nat := none
  relationship : Option Edge := none
  context : Option Value := none

def Node.projection (n : Node) : Value :=
  .fields [
    ("id", .scalar n.id),
    ("name", n.name),
    ("type", .text n.kind.name),
    ("properties", n.properties.toValue)]

namespace Hit

/-- The value of a hit; what the query did not say is left out. -/
def toValue (h : Hit) : Value :=
  .fields ([("node", h.node.projection)]
    ++ (h.score.map fun x => ("score", Value.float x)).toList
    ++ (h.depth.map fun n => ("depth", Value.int n)).toList
    ++ (h.relationship.map fun e => ("relationship", e.toValue)).toList
    ++ (h.context.map fun v => ("context", v)).toList)

/-- What is said about the use of a node through an edge. -/
def usageContext (e : Edge) : Value :=
  .fields [
    ("relationship", .text e.kind.name),
    ("strength", .float e.strength),
    ("properties", e.properties.toValue)]

end Hit

end CodeAtlas
