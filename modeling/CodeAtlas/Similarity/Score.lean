import CodeAtlas.Graph.Basic
import CodeAtlas.Similarity.EditDistance

/-! How alike two nodes are: a weighted sum over their names, the keys of their properties and the kinds
of their relationships. Nodes of different kinds are not alike at all. -/

namespace CodeAtlas

namespace Similarity

def nameWeight : Float := 0.4

def propertiesWeight : Float := 0.3

def connectionsWeight : Float := 0.3

instance : BEq Value := ⟨Value.same⟩

/-- How alike two names are; any value with parts can be compared. -/
def names (a b : Value) : Checked Float :=
  match a, b with
  | .text s, .text t => .ok (sequenceSimilarity s.toList t.toList)
  | a, b => return sequenceSimilarity (← a.elements) (← b.elements)

/-- How many of the larger set's keys are shared; two empty sets are alike. -/
def keySets (a b : KeySet) : Float :=
  if a.size = 0 ∧ b.size = 0 then 1.0
  else
    let shared := a.keys.filter b.contains
    if shared.isEmpty then 0.0
    else Float.ofNat shared.length / Float.ofNat (max a.size b.size)

/-- The set of the parts of a value, all of which must be keys; an absent value has none. -/
def keySetOf (v : Value) : Checked KeySet :=
  if v.isFalsy then .ok ∅ else return KeySet.ofList (← (← v.elements).mapM Value.key)

end Similarity

def Table.keySet {α : Type} (t : Table α) : KeySet := KeySet.ofList t.keys

namespace Graph

/-- The kinds of relationship that a node takes part in. -/
def connectionKinds (g : Graph) (n : Node) : List RelationKind :=
  RelationKind.all.filter fun k =>
    n.connections.keys.any fun eid =>
      match g.edges.get? eid with
      | some e => e.kind = k
      | none => false

/-- How many kinds of relationship two nodes share, out of the larger number of kinds. -/
def connectionSimilarity (g : Graph) (a b : Node) : Float :=
  let kindsA := g.connectionKinds a
  let kindsB := g.connectionKinds b
  Float.ofNat (kindsA.filter (kindsB.contains ·)).length /
    Float.ofNat (max (max kindsA.length kindsB.length) 1)

/-- How alike two nodes are, from zero to one. -/
def similarity (g : Graph) (a b : Node) : Checked Float :=
  if a.kind ≠ b.kind then .ok 0.0
  else do
    let names ← Similarity.names a.name b.name
    return Similarity.nameWeight * names
      + Similarity.propertiesWeight * Similarity.keySets a.properties.keySet b.properties.keySet
      + Similarity.connectionsWeight * g.connectionSimilarity a b

end Graph

end CodeAtlas
