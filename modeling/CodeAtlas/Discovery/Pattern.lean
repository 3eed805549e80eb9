import CodeAtlas.Graph.Change
import CodeAtlas.Ingestion.Ingest

/-! Patterns found in a graph, and how one becomes a concept node that its nodes implement. -/

namespace CodeAtlas

/-- A pattern and the nodes that show it. -/
structure Pattern where
  name : String
  description : String
  confidence : Float
  related : List Scalar
  category : String

namespace Pattern

def toValue (p : Pattern) : Value :=
  .fields [
    ("name", .text p.name),
    ("description", .text p.description),
    ("confidence", .float p.confidence),
    ("related_nodes", .list (p.related.map .scalar)),
    ("category", .text p.category)]

def conceptId (name : Value) : Scalar := .text (nodeId NodeKind.concept.name name.shown)

/-- Makes a node implement a concept, unless it is missing. -/
def implement (now : String) (concept : Scalar) (confidence : Value) (related : Scalar) :
    Change Unit :=
  tryCatch
    (do
      let _ ← Graph.relate now related concept .implements (.ofFields [("confidence", confidence)]))
    fun
    | .missingNodes _ => return ()
    | e => throw e

/-- Writes the concept node of a pattern given by open values, and links the related nodes to it. -/
def materializeOpen (now : String) (name description confidence category : Value)
    (related : List Value) : Change Node := do
  let concept ← Graph.writeNode now (conceptId name) {
    kind := .concept
    name := some name
    properties := .ofFields [
      ("description", description),
      ("confidence", confidence),
      ("instances", .int related.length),
      ("category", category)] }
  related.forM fun v => do implement now concept.id confidence (← Change.check v.key)
  return ((← get).nodes.get? concept.id).getD concept

def materialize (now : String) (p : Pattern) : Change Node :=
  materializeOpen now (.text p.name) (.text p.description) (.float p.confidence) (.text p.category)
    (p.related.map .scalar)

end Pattern

end CodeAtlas
