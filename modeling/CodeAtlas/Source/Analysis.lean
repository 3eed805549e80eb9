import CodeAtlas.Source.JavaScript
import CodeAtlas.Source.Python
import CodeAtlas.Value.Display

/-! The analysis of one file: its facts by its language, as a record for ingestion. -/

namespace CodeAtlas

/-- A file to analyse; what is not a text comes from outside. -/
structure SourceFile where
  path : Value
  language : Value := .null
  content : Value := .null
  size : Value := .int 0

/-- What was found in one file. -/
structure Analysis where
  path : Value
  language : Value
  facts : SourceFacts
  size : Value

namespace Analysis

/-- The parts of an analysis by name. -/
def fields (a : Analysis) : List (String × Value) := [
  ("path", a.path),
  ("language", a.language),
  ("functions", .list (a.facts.functions.map (·.toValue))),
  ("classes", .list (a.facts.classes.map (·.toValue))),
  ("imports", .ofTexts a.facts.imports),
  ("size", a.size)]

def toValue (a : Analysis) : Value := .fields a.fields

def shown (a : Analysis) : String :=
  "AnalysisRecord(" ++
    String.intercalate ", " (a.fields.map fun e => e.1 ++ "=" ++ e.2.quoted) ++ ")"

end Analysis

namespace Source

/-- The facts of a file; in an unknown language there are none. -/
def factsOf (language content : Value) : Checked SourceFacts :=
  match language, content with
  | .text "python", .text s => Python.facts s.toList
  | .text "javascript", .text s => .ok (JavaScript.facts s.toList)
  | .text "typescript", .text s => .ok (JavaScript.facts s.toList)
  | .text "python", _ => .error .wrongSort
  | .text "javascript", _ => .error .wrongSort
  | .text "typescript", _ => .error .wrongSort
  | _, _ => .ok ⟨[], [], []⟩

def analyse (file : SourceFile) : Checked Analysis := do
  let language := file.language.orElse (.text "text")
  let facts ← factsOf language (file.content.orElse (.text ""))
  return { path := file.path, language, facts, size := file.size }

def analyseAll (files : List SourceFile) : Checked (List Analysis) :=
  (files.filter fun f => !(f.content matches .null)).mapM analyse

end Source

end CodeAtlas
