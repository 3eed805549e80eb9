import CodeAtlas.Discovery.Pattern
import CodeAtlas.Grouping
import CodeAtlas.Similarity.NamingStyle

/-! The passes that look for patterns: by the names and methods of nodes, by naming convention, and by how
many nodes depend on a package. Concepts are what passes produce, and the passes over nodes leave them out. -/

namespace CodeAtlas

/-- The methods of an open list of methods, each a bare name or an object with one. -/
def methodNamesOf (methods : Value) : Checked (List String) := do
  if methods.isFalsy then return []
  return (← methods.elements).filterMap fun
    | .text s => some s
    | .object entries =>
      match lookup? (.text "name") entries with
      | some name => if name.isFalsy then none else some name.shown
      | none => none
    | _ => none

def Node.methodNames (n : Node) : Checked (List String) :=
  methodNamesOf ((n.properties.get? (.text "methods")).getD .null)

namespace Discovery

def single (name description : String) (confidence : Float) (category : String)
    (related : List Scalar) : List Pattern :=
  if related.isEmpty then [] else [⟨name, description, confidence, related, category⟩]

def codeNodes (g : Graph) : List Node := g.nodes.values.filter (·.kind ≠ .concept)

def classes (g : Graph) : List Node := g.nodes.values.filter (·.kind = .classDecl)

def named (word : String) (n : Node) : Checked Bool := return Text.within word (← n.name.lowered)

def hasMethod (test : String → Bool) (n : Node) : Checked Bool := return (← n.methodNames).any test

/-- Whether a node's name holds a word or, failing that, one of its methods passes the test. -/
def namedOrHas (word : String) (test : String → Bool) (n : Node) : Checked Bool := do
  if ← named word n then return true else hasMethod test n

def idsWhere (test : Node → Checked Bool) (ns : List Node) : Checked (List Scalar) :=
  return (← ns.filterM test).map (·.id)

def singletonAccessors : List String := ["getInstance", "get_instance"]

def factoryStart : String := "create"

def observerMethods : List String := ["subscribe", "unsubscribe", "notify", "emit"]

def repositoryMethods : List String := ["save", "find", "delete", "findById"]

def singleton (g : Graph) : Checked (List Pattern) :=
  return single "singleton" "Singleton Design Pattern" 0.8 "design"
    (← idsWhere (namedOrHas "singleton" (singletonAccessors.contains ·)) (classes g))

def factory (g : Graph) : Checked (List Pattern) :=
  return single "factory" "Factory Design Pattern" 0.7 "design"
    (← idsWhere (namedOrHas "factory" fun m => factoryStart.toList.isPrefixOf m.toList) (classes g))

def observer (g : Graph) : Checked (List Pattern) :=
  return single "observer" "Observer Design Pattern" 0.8 "design"
    (← idsWhere (hasMethod (observerMethods.contains ·)) (classes g))

def distinct (ids : List Scalar) : List Scalar := (KeySet.ofList ids).keys

/-- Controllers, models and views, if there are any of both the first. -/
def mvc (g : Graph) : Checked (List Pattern) := do
  let controllers ← idsWhere (named "controller") (codeNodes g)
  let models ← idsWhere (named "model") (codeNodes g)
  let views ← idsWhere (named "view") (codeNodes g)
  if controllers.isEmpty || models.isEmpty then return []
  else return [⟨"mvc", "Model-View-Controller Architecture", 0.9,
    distinct (controllers ++ models ++ views), "architectural"⟩]

def repository (g : Graph) : Checked (List Pattern) :=
  return single "repository" "Repository Pattern" 0.8 "architectural"
    (← idsWhere (namedOrHas "repository" (repositoryMethods.contains ·)) (codeNodes g))

def service (g : Graph) : Checked (List Pattern) :=
  return single "service" "Service Pattern" 0.7 "architectural"
    (← idsWhere (named "service") (codeNodes g))

def styleOf (n : Node) : Checked NamingStyle :=
  match n.name with
  | .text s => .ok (NamingStyle.of s)
  | _ => .error .wrongSort

def naming (g : Graph) : Checked (List Pattern) := do
  let styled ← (codeNodes g).mapM fun n => return (← styleOf n, n.id)
  return (groupItems styled).map fun (style, ids) =>
    ⟨"naming_" ++ style.name, style.name ++ " naming convention", 0.6, ids, "naming"⟩

/-- The package of the node that an edge leads to, if the edge is a dependency and the node has one. -/
def packageOfTarget (g : Graph) (e : Edge) : Checked (Option Scalar) :=
  if e.kind ≠ .dependsOn then .ok none
  else
    match (g.nodes.get? e.target).bind (·.properties.get? (.text "package")) with
    | none => .ok none
    | some p => if p.isFalsy then .ok none else return some (← p.key)

/-- Notes the source of an edge among the dependents of the package it leads to. -/
def addDependent (g : Graph) (groups : Table KeySet) (e : Edge) : Checked (Table KeySet) := do
  match ← packageOfTarget g e with
  | none => return groups
  | some p => return groups.insert p (((groups.get? p).getD ∅).add e.source)

def dependents (g : Graph) : Checked (Table KeySet) :=
  g.edges.values.foldlM (addDependent g) ∅

def heavyUsage (package : Scalar) (files : KeySet) : Pattern :=
  ⟨"dependency_" ++ package.shown, "Heavy usage of " ++ package.shown, 0.8, files.keys, "dependency"⟩

/-- The packages with at least `threshold` dependents; the threshold is looked at only if there is a
package. -/
def dependency (threshold : Value) (g : Graph) : Checked (List Pattern) := do
  let groups ← dependents g
  if groups.size = 0 then return []
  let least ← threshold.ceiling
  return (groups.entries.filter fun e => least ≤ e.2.size).map fun e => heavyUsage e.1 e.2

def design (g : Graph) : Checked (List Pattern) :=
  return (← singleton g) ++ (← factory g) ++ (← observer g)

def architectural (g : Graph) : Checked (List Pattern) :=
  return (← mvc g) ++ (← repository g) ++ (← service g)

/-- All patterns by category. -/
structure Found where
  design : List Pattern
  architectural : List Pattern
  naming : List Pattern
  dependency : List Pattern

def Found.toValue (f : Found) : Value :=
  let all (ps : List Pattern) : Value := .list (ps.map (·.toValue))
  .fields [
    ("design", all f.design),
    ("architectural", all f.architectural),
    ("naming", all f.naming),
    ("dependency", all f.dependency)]

def Found.all (f : Found) : List Pattern := f.design ++ f.architectural ++ f.naming ++ f.dependency

def detect (threshold : Value) (g : Graph) : Checked Found :=
  return ⟨← design g, ← architectural g, ← naming g, ← dependency threshold g⟩

/-- Finds all patterns first and then writes them all into the graph, so that no pass sees what another
found. -/
def discover (now : String) (threshold : Value) : Change Found := do
  let found ← Change.check (detect threshold (← get))
  found.all.forM fun p => do let _ ← p.materialize now
  return found

end Discovery

end CodeAtlas
