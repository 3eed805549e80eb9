import CodeAtlas.Value.Access

/-! Analysis records: what was found in one file. A record may say its facts itself or leave them to its
`components`, and a fact may be a bare name or an object. -/

namespace CodeAtlas

/-- The facts of one file. -/
structure Record where
  path : Value
  language : Value
  size : Value
  functions : List Value
  classes : List Value
  imports : List Value

/-- A list as it is, nothing as the empty list, and any other value as the list of itself. -/
def Value.asList : Value → List Value
  | .null => []
  | .list items => items
  | v => [v]

/-- A usable name: a text that is not empty, or one shown for any value that does not count as absent. -/
def factName? (fact : Value) : Option String :=
  match fact with
  | .text s => if s.isEmpty then none else some s
  | .object entries =>
    match lookup? (.text "name") entries with
    | some name => if name.isFalsy then none else some name.shown
    | none => none
  | _ => none

def factField? (name : String) : Value → Option Value
  | .object entries => lookup? (.text name) entries
  | _ => none

namespace Record

/-- The record that a value describes; nothing if it names no file. -/
def read? (v : Value) : Checked (Option Record) :=
  match v with
  | .object _ => do
    let components := (← v.field "components").orElse (.object [])
    let fromEither (name : String) : Checked (Option Value) := do
      let fallback ← components.field? name
      return match ← v.field? name with
        | some w => some w
        | none => fallback
    let functions := ((← fromEither "functions").getD .null).asList
    let classes := ((← fromEither "classes").getD .null).asList
    let imports := ((← fromEither "imports").getD .null).asList
    let path ← v.field "path"
    let language := (← v.field "language").orElse (.text "text")
    let size := ((← fromEither "size").getD (.int 0)).orElse (.int 0)
    return if path.isFalsy then none else some { path, language, size, functions, classes, imports }
  | _ => .ok none

end Record

def complexity (functions classes imports : Nat) : Nat :=
  1 + 2 * functions + 3 * classes + imports

end CodeAtlas
