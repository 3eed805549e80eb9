import CodeAtlas.Query.Hit
import CodeAtlas.Similarity.Score
import CodeAtlas.Value.Document

/-! Queries that look at all nodes, or at all edges of one node: nodes like a given one, users of a node,
implementations of a concept, and search by kind and name. -/

namespace CodeAtlas

namespace Query

/-- The items that pass a test, up to a limit. The limit is asked for when an item passes, and nothing
is tested any more once it is reached. -/
def takeWhere {α : Type} (limit : Checked Int) (test : α → Checked Bool) :
    Nat → List α → Checked (List α)
  | _, [] => .ok []
  | count, x :: rest => do
    if ← test x then
      if (← limit) ≤ count then return []
      else return x :: (← takeWhere limit test (count + 1) rest)
    else takeWhere limit test count rest

/-- Nodes of the kind of `target` that are more alike to it than `threshold`, with their scores. The
threshold is asked for when there is a score to compare. -/
def candidates (g : Graph) (threshold : Checked Float) (target : Node) :
    List Node → Checked (List (Node × Float))
  | [] => .ok []
  | n :: rest => do
    if n.id.same target.id || n.kind ≠ target.kind then candidates g threshold target rest
    else
      let score ← g.similarity target n
      if (← threshold) < score then return (n, score) :: (← candidates g threshold target rest)
      else candidates g threshold target rest

def rank (scored : List (Node × Float)) : List (Node × Float) :=
  scored.mergeSort fun a b => b.2 ≤ a.2

def similarTo (g : Graph) (threshold : Checked Float) (limit : Value) (target : Node) :
    Checked (List Hit) := do
  let scored ← candidates g threshold target g.nodes.values
  if scored.isEmpty then return []
  let best ← limit.limited (rank scored)
  return best.map fun (n, score) => { node := n, score := some score }

/-- The edges that lead to a node, with the nodes they come from. -/
def usages (g : Graph) (id : Scalar) : List Hit :=
  (g.neighbors id).filterMap fun (e, _) =>
    if e.target.same id then
      (g.nodes.get? e.source).map fun n =>
        { node := n, relationship := some e, context := some (Hit.usageContext e) }
    else none

def usage (g : Graph) (limit : Value) (id : Scalar) : Checked (List Hit) := do
  if !g.hasNode id then return []
  limit.limited (← g.ordered [id] (usages g id))

/-- The text in which a keyword is sought: the name and the properties of a node. -/
def searchText (n : Node) : String :=
  Text.lowerText (n.name.shown ++ " " ++ n.properties.toValue.write .compact)

def mentioning (g : Graph) (limit : Checked Int) (keyword : String) : Checked (List Hit) :=
  return (← takeWhere limit (fun n => .ok (Text.within (Text.lowerText keyword) (searchText n))) 0
    g.nodes.values).map fun n => { node := n, score := some 1.0 }

/-- The implementations of the concept of this name; if there is none, nodes that mention the name. -/
def patterns (g : Graph) (limit : Value) (name : Value) : Checked (List Hit) := do
  match name with
  | .text s =>
    match g.conceptId? s with
    | some id => if (Value.scalar id).isFalsy then mentioning g limit.ceiling s else usage g limit id
    | none => mentioning g limit.ceiling s
  | _ => throw .notOffered

/-- Whether a node is of the kind asked for and has the name asked for in its name; what is empty asks
for nothing. -/
def matchesFilter (kind : Value) (name : String) (n : Node) : Checked Bool := do
  if !kind.isFalsy && !kind.same (.text n.kind.name) then return false
  else if name.isEmpty then return true
  else return Text.within name (← n.name.lowered)

/-- The nodes that match a filter, up to a limit. -/
def search (g : Graph) (limit : Value) (filters : Value) : Checked (List Hit) := do
  let filters := filters.orElse (.object [])
  let kind ← filters.field "type"
  let name ← ((← filters.field "name").orElse (.text "")).lowered
  let found ← takeWhere limit.ceiling (matchesFilter kind name) 0 g.nodes.values
  return found.map fun n => { node := n, score := some 1.0 }

end Query

end CodeAtlas
