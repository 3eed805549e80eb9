import CodeAtlas.Graph.Change

/-! The graph as an open value, and back. The export lists three tables in order; an import trusts the
node and edge tables, works the connections out anew and completes the concept index. -/

namespace CodeAtlas

def Properties.toValue (p : Properties) : Value := .object p.entries

def Metadata.toValue (m : Metadata) : Value :=
  .fields [("created", m.created), ("lastUpdated", m.lastUpdated), ("weight", .float m.weight)]

def Node.toValue (n : Node) : Value :=
  .fields [
    ("id", .scalar n.id),
    ("type", .text n.kind.name),
    ("name", n.name),
    ("properties", n.properties.toValue),
    ("metadata", n.metadata.toValue),
    ("connections", .list ((sortKeys n.connections.keys).map .scalar))]

def Node.describe (n : Node) : Checked Value :=
  if areComparable n.connections.keys then .ok n.toValue else .error .wrongSort

def Edge.toValue (e : Edge) : Value :=
  .fields [
    ("id", .scalar e.id),
    ("from", .scalar e.source),
    ("to", .scalar e.target),
    ("type", .text e.kind.name),
    ("strength", .float e.strength),
    ("properties", e.properties.toValue),
    ("created", e.created)]

def Table.toPairs {α : Type} (write : α → Value) (t : Table α) : Value :=
  .list (t.entries.map fun e => .list [.scalar e.1, write e.2])

namespace Graph

def toFields (g : Graph) : List (String × Value) := [
  ("nodes", g.nodes.toPairs Node.toValue),
  ("edges", g.edges.toPairs Edge.toValue),
  ("conceptIndex", g.concepts.toPairs .scalar)]

def toValue (g : Graph) : Value := .fields g.toFields

def toExport (g : Graph) : Checked Value := g.ordered g.nodes.keys g.toValue

end Graph

def exportTable (name : String) (data : Value) : Checked (List Value) := do
  match ← data.field? name with
  | none => return []
  | some v => v.elements

/-- The time given, unless it counts as absent. -/
def timeOr (now : String) (v : Value) : Value := v.orElse (.text now)

def Metadata.read (now : String) (v : Value) : Checked Metadata := do
  let data := v.orElse (.object [])
  let created ← data.field "created"
  let lastUpdated ← data.field "lastUpdated"
  let older ← data.field "last_updated"
  let weight ← ((← data.field? "weight").getD (.float 1.0)).toFloat
  return ⟨timeOr now created, timeOr now (lastUpdated.orElse older), weight⟩

/-- A node record; its connections come later. -/
def Node.read (now : String) (id record : Value) : Checked Node := do
  let kind ← NodeKind.read (← record.field "type")
  let name := (← record.field? "name").getD (.text "")
  let properties ← (← record.field "properties").toTable
  let metadata ← Metadata.read now (← record.field "metadata")
  return { id := ← id.key, kind, name, properties, metadata, connections := ∅ }

/-- An edge record, whose ends must be in the node table. -/
def Edge.read (now : String) (nodes : Table Node) (id record : Value) : Checked Edge := do
  let source ← record.field "from"
  let target ← record.field "to"
  let ends := [← source.key, ← target.key]
  match ends.filter fun k => !nodes.contains k with
  | [] => pure ()
  | ids => throw (Graph.missingFault ids)
  let kind ← RelationKind.read (← record.field "type")
  let strength ← ((← record.field? "strength").getD (.float 1.0)).toFloat
  let properties ← (← record.field "properties").toTable
  let created := timeOr now (← record.field "created")
  return { id := ← id.key, source := ← source.key, target := ← target.key, kind, strength, properties,
           created }

namespace Graph

def importNode (now : String) (nodes : Table Node) (item : Value) : Checked (Table Node) := do
  let (id, record) ← item.pair
  let n ← Node.read now id record
  return nodes.insert n.id n

def importEdge (now : String) (g : Graph) (item : Value) : Checked Graph := do
  let (id, record) ← item.pair
  return g.putEdge (← Edge.read now g.nodes id record)

/-- An entry of the index is taken over if it names a node. -/
def importConcept (nodes : Table Node) (concepts : Table Scalar) (item : Value) :
    Checked (Table Scalar) := do
  let (name, id) ← item.pair
  let id ← id.key
  if nodes.contains id then return concepts.insert (← name.key) id else return concepts

def completeConcept (concepts : Table Scalar) (n : Node) : Checked (Table Scalar) := do
  if n.kind = .concept then return concepts.insertNew (.text (← n.name.lowered)) n.id
  else return concepts

def ofExport (now : String) (data : Value) : Checked Graph := do
  let nodes ← (← exportTable "nodes" data).foldlM (importNode now) ∅
  let g ← (← exportTable "edges" data).foldlM (importEdge now) { empty with nodes := nodes }
  let concepts ← (← exportTable "conceptIndex" data).foldlM (importConcept g.nodes) ∅
  let concepts ← g.nodes.values.foldlM completeConcept concepts
  return { g with concepts := concepts }

def importExport (now : String) (data : Value) : Change Unit := do
  set (← Change.check (ofExport now data))

end Graph

end CodeAtlas
