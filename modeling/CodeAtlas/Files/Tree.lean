import CodeAtlas.Fault
import CodeAtlas.Files.Path
import CodeAtlas.Text.Line
import CodeAtlas.Text.Utf8

/-! A tree of files as a value: finding an entry by path, making folders, reading and writing files, with
the trouble that each of these can run into. -/

namespace CodeAtlas

/-- What stands under a name: a file, a link that leads nowhere, or a folder. -/
inductive Entry where
  | file (bytes : ByteArray)
  | deadLink
  | folder (entries : List (String × Entry))
  deriving Inhabited

namespace Entry

def emptyFolder : Entry := .folder []

def isFolder : Entry → Bool
  | folder _ => true
  | _ => false

def get? : List String → Entry → Option Entry
  | [], e => some e
  | name :: rest, folder entries => (entries.lookup name).bind (get? rest)
  | _ :: _, _ => none

def putNamed (name : String) (e : Entry) : List (String × Entry) → List (String × Entry)
  | [] => [(name, e)]
  | x :: rest => if x.1 = name then (name, e) :: rest else x :: putNamed name e rest

/-- Puts an entry at a path, with folders on the way where there are none. -/
def put : Entry → List String → Entry → Entry
  | _, [], new => new
  | folder entries, name :: rest, new =>
    folder (putNamed name (put ((entries.lookup name).getD emptyFolder) rest new) entries)
  | _, name :: rest, new => folder [(name, put emptyFolder rest new)]

def remove : List String → Entry → Entry
  | [name], folder entries => folder (entries.filter (·.1 ≠ name))
  | name :: rest, folder entries =>
    match entries.lookup name with
    | some e => folder (putNamed name (remove rest e) entries)
    | none => folder entries
  | _, e => e

/-- Follows a path from the folder at `here`, so that no double dots are left. All but the last part must
be folders; the last need not exist. -/
def resolve (root : Entry) (here : List String) : List String → Except FileTrouble (List String)
  | [] => .ok here
  | ".." :: rest => root.resolve here.dropLast rest
  | [name] => .ok (here ++ [name])
  | name :: rest =>
    match root.get? (here ++ [name]) with
    | some (folder _) => root.resolve (here ++ [name]) rest
    | some (file _) => .error .notFolder
    | _ => .error .notFound

def find (root : Entry) (parts : List String) : Except FileTrouble Entry := do
  match root.get? (← root.resolve [] parts) with
  | none | some deadLink => throw .notFound
  | some e => return e

def has (root : Entry) (parts : List String) : Bool := (root.find parts).isOk

def makeFolder (root : Entry) (parts : List String) : Except FileTrouble Entry := do
  let place ← root.resolve [] parts
  match root.get? place with
  | some _ => throw .alreadyExists
  | none => return root.put place emptyFolder

/-- Makes one folder unless it is there. -/
def ensureFolder (root : Entry) (parts : List String) : Except FileTrouble Entry :=
  match root.makeFolder parts with
  | .ok root => .ok root
  | .error e =>
    match root.find parts with
    | .ok (folder _) => .ok root
    | _ => .error e

/-- Makes a folder and the folders above it, given from the innermost part outwards, unless they are
there. -/
def ensureFolders (root : Entry) : List String → Except FileTrouble Entry
  | [] => .ok root
  | name :: up =>
    match root.makeFolder (name :: up).reverse with
    | .ok root => .ok root
    | .error .notFound => do (← root.ensureFolders up).ensureFolder (name :: up).reverse
    | .error e =>
      match root.find (name :: up).reverse with
      | .ok (folder _) => .ok root
      | _ => .error e

def readBytes (root : Entry) (parts : List String) : Except FileTrouble ByteArray := do
  match ← root.find parts with
  | file bytes => return bytes
  | _ => throw .isFolder

def writeBytes (root : Entry) (parts : List String) (bytes : ByteArray) :
    Except FileTrouble Entry := do
  let place ← root.resolve [] parts
  match root.get? place with
  | some (folder _) => throw .isFolder
  | _ => return root.put place (.file bytes)

mutual

def folderPaths (here : List String) : Entry → List (List String)
  | .folder entries => folderPathsIn here entries
  | _ => []

def folderPathsIn (here : List String) : List (String × Entry) → List (List String)
  | [] => []
  | (name, e) :: rest =>
    (if e.isFolder then [here ++ [name]] else []) ++ folderPaths (here ++ [name]) e ++
      folderPathsIn here rest

end

end Entry

def troubled {α : Type} : Except FileTrouble α → Checked α
  | .ok a => .ok a
  | .error t => .error (.file t)

/-- The text of a file, which must be UTF-8. A path that ends in a slash asks for a folder. -/
def Entry.readText (root : Entry) (path : String) : Checked String := do
  if path.isEmpty then throw (.file .notFound)
  let bytes ← troubled (root.readBytes (Path.ofText path).parts)
  if path.toList.getLast? = some '/' then throw (.file .notFolder)
  match Text.utf8Decode? bytes with
  | some s => return s
  | none => throw .badEncoding

end CodeAtlas
