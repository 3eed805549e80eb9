import CodeAtlas.Text.Blank
import CodeAtlas.Text.Split
import CodeAtlas.Value.Basic

/-! What is found in a source file: functions, classes with their methods and bases, and imports. -/

namespace CodeAtlas

/-- A function or a method; not every language says its parameters. -/
structure FunctionFact where
  name : String
  params : Option (List String)
  deriving DecidableEq

structure ClassFact where
  name : String
  methods : List FunctionFact
  inheritance : List String
  deriving DecidableEq

/-- The facts of a file in the order they stand in it. -/
structure SourceFacts where
  functions : List FunctionFact
  classes : List ClassFact
  imports : List String
  deriving DecidableEq

def Value.ofTexts (texts : List String) : Value := .list (texts.map .text)

def FunctionFact.toValue (f : FunctionFact) : Value :=
  .fields ([("name", Value.text f.name)] ++ (f.params.map fun ps => ("params", Value.ofTexts ps)).toList)

def ClassFact.toValue (c : ClassFact) : Value :=
  .fields [
    ("name", .text c.name),
    ("methods", .list (c.methods.map (·.toValue))),
    ("inheritance", .ofTexts c.inheritance)]

namespace Source

def splitCommas (s : List Char) : List (List Char) := Text.splitAtChar ',' s

/-- The name in one parameter: what stands before a default or an annotation, without stars. -/
def paramName (part : List Char) : String :=
  let head := (Text.trim part).takeWhile fun c => c ≠ '=' && c ≠ ':'
  String.ofList ((Text.trim head).dropWhile (· = '*'))

def receivers : List String := ["self", "cls"]

def params (raw : List Char) : List String :=
  ((splitCommas raw).map paramName).filter fun name => name ≠ "" && !receivers.contains name

def distinctTexts (texts : List String) : List String :=
  texts.foldl (fun seen t => if seen.contains t then seen else seen ++ [t]) []

end Source

end CodeAtlas
