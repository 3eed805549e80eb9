import CodeAtlas.Value.Basic

/-! The closed vocabularies of the graph: kinds of node and kinds of relationship, with their words. -/

namespace CodeAtlas

inductive NodeKind where
  | file
  | function
  | classDecl
  | interface
  | concept
  | dependency
  | technology
  | pattern
  deriving DecidableEq, Inhabited

namespace NodeKind

def all : List NodeKind :=
  [file, function, classDecl, interface, concept, dependency, technology, pattern]

def name : NodeKind → String
  | file => "file"
  | function => "function"
  | classDecl => "class"
  | interface => "interface"
  | concept => "concept"
  | dependency => "dependency"
  | technology => "technology"
  | pattern => "pattern"

def ofName? (s : String) : Option NodeKind := all.find? (·.name = s)

theorem ofName?_name (k : NodeKind) : ofName? k.name = some k := by cases k <;> decide

end NodeKind

inductive RelationKind where
  | dependsOn
  | similarTo
  | implements
  | uses
  | partOf
  | calls
  | imports
  deriving DecidableEq, Inhabited

namespace RelationKind

def all : List RelationKind :=
  [dependsOn, similarTo, implements, uses, partOf, calls, imports]

def name : RelationKind → String
  | dependsOn => "DEPENDS_ON"
  | similarTo => "SIMILAR_TO"
  | implements => "IMPLEMENTS"
  | uses => "USES"
  | partOf => "PART_OF"
  | calls => "CALLS"
  | imports => "IMPORTS"

def ofName? (s : String) : Option RelationKind := all.find? (·.name = s)

theorem ofName?_name (k : RelationKind) : ofName? k.name = some k := by cases k <;> decide

end RelationKind

/-- The two vocabularies. -/
inductive Family where
  | node
  | relationship
  deriving DecidableEq

namespace Family

def label : Family → String
  | node => "node"
  | relationship => "relationship"

def words : Family → List String
  | node => (NodeKind.all.map NodeKind.name).mergeSort (· ≤ ·)
  | relationship => (RelationKind.all.map RelationKind.name).mergeSort (· ≤ ·)

end Family

end CodeAtlas
