import CodeAtlas.Text.Split

/-! Paths written with slashes. Empty parts and single dots do not count; double dots stay, since what
they mean depends on the folders there are. -/

namespace CodeAtlas

/-- A path: the slashes it starts from, if any, and its parts. -/
structure Path where
  root : String
  parts : List String
  deriving DecidableEq

namespace Path

/-- Two slashes at the front are kept apart from one, and three or more count as one. -/
def rootOf : List Char → String
  | '/' :: '/' :: '/' :: _ => "/"
  | '/' :: '/' :: _ => "//"
  | '/' :: _ => "/"
  | _ => ""

def ofText (s : String) : Path where
  root := rootOf s.toList
  parts := ((Text.splitAtChar '/' s.toList).map String.ofList).filter fun p => p ≠ "" ∧ p ≠ "."

def text (p : Path) : String :=
  if p.root = "" ∧ p.parts = [] then "." else p.root ++ String.intercalate "/" p.parts

def collapsed (p : Path) : List String :=
  p.parts.foldl (fun done part => if part = ".." then done.dropLast else done ++ [part]) []

def parent (p : Path) : Path := { p with parts := p.parts.dropLast }

end Path

/-- The ending of a file name from its last dot on; a name that starts or ends with that dot has none. -/
def nameSuffix (name : String) : String :=
  let cs := name.toList
  let stem := (cs.reverse.dropWhile (· ≠ '.')).reverse
  let ending := (cs.reverse.takeWhile (· ≠ '.')).reverse
  if stem.length ≤ 1 ∨ ending.isEmpty then "" else String.ofList ('.' :: ending)

end CodeAtlas
