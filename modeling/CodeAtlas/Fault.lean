import CodeAtlas.Graph.Kind
import CodeAtlas.Value.Display

/-! What can go wrong. Values come from outside, so an operation may meet one that it does not apply to;
the other causes belong to the graph, to documents and to files. -/

namespace CodeAtlas

/-- Why a path cannot be used as asked. -/
inductive FileTrouble where
  | notFound
  | alreadyExists
  | isFolder
  | notFolder
  deriving DecidableEq

/-- The causes of failure. -/
inductive Fault where
  /-- A word outside the vocabulary of its family. -/
  | unknownKind (family : Family) (given : Value)
  /-- Ends of a relationship that are not in the graph. -/
  | missingNodes (ids : List String)
  /-- The value has no such operation: no fields to look up, no letters to lower. -/
  | notOffered
  /-- The operation exists but not for this sort of value: not a key, not a number, not a list. -/
  | wrongSort
  /-- The right sort of value with an unusable content. -/
  | malformed
  /-- A number beyond what a double, or an integer, can hold. -/
  | outOfRange
  /-- A text that is no document. -/
  | badDocument
  /-- Bytes that are no UTF-8 text. -/
  | badEncoding
  /-- A setting that cannot be read as its type. -/
  | badSetting
  | file (trouble : FileTrouble)

namespace Fault

/-- The wording of the two causes that belong to the graph itself. -/
def message? : Fault → Option String
  | unknownKind family given =>
    some ("Unknown " ++ family.label ++ " type " ++ given.quoted ++ "; expected one of " ++
      String.intercalate ", " family.words)
  | missingNodes ids =>
    some ("Both nodes must exist before creating relationship; missing: " ++
      String.intercalate ", " ids)
  | _ => none

/-- The causes that a command reports by its exit code; the others mean that its input broke a promise. -/
def isReported : Fault → Bool
  | notOffered | wrongSort | outOfRange => false
  | _ => true

end Fault

/-- An answer, or why there is none. -/
abbrev Checked (α : Type) := Except Fault α

end CodeAtlas
