import CodeAtlas.Text.Split

/-! The top-level package that an import names. -/

namespace CodeAtlas

/-- The package of an import: `local` for a path that starts with a dot, both parts of a scoped name,
else the first part; with dotted names, its part before the first dot. -/
def packageOf (dotted : Bool) (importPath : String) : String :=
  let cs := importPath.toList
  if cs.head? = some '.' then "local"
  else
    match Text.splitAtChar '/' cs with
    | [] => ""
    | first :: rest =>
      match cs.head?, rest with
      | some '@', second :: _ => String.ofList (first ++ '/' :: second)
      | _, _ => String.ofList (if dotted then first.takeWhile (· ≠ '.') else first)

def isDotted (language : String) : Bool := language = "python"

end CodeAtlas
