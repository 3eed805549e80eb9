import CodeAtlas.Fault
import CodeAtlas.Source.Facts
import CodeAtlas.Text.Line
import CodeAtlas.Text.Regex

/-! Reading the structure of Python sources by their surface. A definition belongs to the last class before
it whose body is still open there, and is a method if it is indented like the first definition of that
class. -/

namespace CodeAtlas.Source.Python

open CodeAtlas.Text

def indent : Regex := .group 1 (.many fun c => c == ' ' || c == '\t')

def parenthesized : Regex := .all [.literal "(", .group 3 (.many (· ≠ ')')), .literal ")"]

def functionRegex : Regex :=
  .all [
    .lineStart, indent, .optional (.all [.literal "async", .someBlanks]), .literal "def", .someBlanks,
    .group 2 .word, .blanks, parenthesized]

def classRegex : Regex :=
  .all [
    .lineStart, indent, .literal "class", .someBlanks, .group 2 .word, .blanks,
    .optional parenthesized, .blanks, .literal ":"]

def isDotted (c : Char) : Bool := isWord c || c == '.'

/-- An import statement of either form. -/
def importRegex : Regex :=
  .all [
    .lineStart, .blanks,
    .alt
      (.all [
        .literal "from", .someBlanks, .group 1 (.seq (.many (· == '.')) (.many isDotted)),
        .someBlanks, .literal "import", .wordEdge])
      (.all [
        .literal "import", .someBlanks,
        .group 2 (.seq (.oneOrMore isDotted)
          (.star (.all [.blanks, .literal ",", .blanks, .oneOrMore isDotted])))])]

structure ClassHead where
  name : String
  bases : List String
  indent : Nat
  /-- The index just past the head. -/
  stop : Nat

structure FunctionHead where
  fact : FunctionFact
  indent : Nat
  start : Nat

/-- The bases in the parenthesis of a class head; what holds an equals sign is no base. -/
def basesOf (raw : List Char) : List String :=
  ((splitCommas raw).filter fun b => !(trim b).isEmpty && !b.contains '=').map fun b =>
    String.ofList (trim b)

def classHead (m : Match) : ClassHead where
  name := m.text 2
  bases := basesOf ((m.group? 3).getD [])
  indent := ((m.group? 1).getD []).length
  stop := m.stop

def functionHead (m : Match) : FunctionHead where
  fact := ⟨m.text 2, some (params ((m.group? 3).getD []))⟩
  indent := ((m.group? 1).getD []).length
  start := m.start

def classHeads (content : List Char) : List ClassHead := (classRegex.findAll content).map classHead

def functionHeads (content : List Char) : List FunctionHead :=
  (functionRegex.findAll content).map functionHead

/-- Whether a line closes the body of a class with this indentation: it is not blank and not further
indented. -/
def closes (classIndent : Nat) (line : List Char) : Bool :=
  !(trim line).isEmpty && indentation line ≤ classIndent

/-- Whether the body of a class is still open at an index, by the lines after the one of the head. -/
def isOpenAt (content : List Char) (h : ClassHead) (index : Nat) : Bool :=
  let lines := splitLines ((content.drop h.stop).take (index - h.stop))
  !(lines.drop 1).any (closes h.indent)

/-- A class while the definitions of a source are gone through: the first of them that stands in the body
sets how the methods are indented. -/
structure ClassBody where
  head : ClassHead
  methodIndent : Option Nat
  methods : List FunctionFact

namespace ClassBody

def ofHead (h : ClassHead) : ClassBody := ⟨h, none, []⟩

/-- Puts a definition into a body; it is a method if it is indented like the first one. -/
def add (b : ClassBody) (f : FunctionHead) : ClassBody :=
  let methodIndent := b.methodIndent.getD f.indent
  { b with
    methodIndent := some methodIndent
    methods := if f.indent = methodIndent then b.methods ++ [f.fact] else b.methods }

def fact (b : ClassBody) : ClassFact := ⟨b.head.name, b.methods, b.head.bases⟩

end ClassBody

/-- The number of the innermost class whose body is open at a definition, where the bodies have numbers
from `i` on and `found` is the one found before them. From the first class on that starts behind the
definition there is none to look at. -/
def openBodyFrom (content : List Char) (f : FunctionHead) (i : Nat) (found : Option Nat) :
    List ClassBody → Option Nat
  | [] => found
  | b :: rest =>
    if f.start < b.head.stop then found
    else if f.indent ≤ b.head.indent then openBodyFrom content f (i + 1) found rest
    else if isOpenAt content b.head f.start then openBodyFrom content f (i + 1) (some i) rest
    else openBodyFrom content f (i + 1) found rest

/-- The functions and classes of a source, as far as its definitions have been gone through. -/
structure Outline where
  functions : List FunctionFact
  bodies : List ClassBody

namespace Outline

def ofHeads (heads : List ClassHead) : Outline := ⟨[], heads.map .ofHead⟩

/-- Takes a definition into the class whose body it stands in, or else, from the margin, as a function. -/
def add (content : List Char) (o : Outline) (f : FunctionHead) : Outline :=
  match openBodyFrom content f 0 none o.bodies with
  | some i => { o with bodies := o.bodies.modify i (·.add f) }
  | none => if f.indent = 0 then { o with functions := o.functions ++ [f.fact] } else o

def ofContent (content : List Char) : Outline :=
  (functionHeads content).foldl (add content) (ofHeads (classHeads content))

end Outline

/-- The modules that one import statement names. A statement that names none cannot be read. -/
def importedBy (m : Match) : Checked (List String) :=
  match m.group? 1, m.group? 2 with
  | some (c :: cs), _ => .ok [trimText (String.ofList (c :: cs))]
  | _, some names => .ok ((splitCommas names).map fun name => String.ofList (trim name))
  | _, none => .error .notOffered

def facts (content : List Char) : Checked SourceFacts := do
  let outline := Outline.ofContent content
  let imports ← (importRegex.findAll content).mapM importedBy
  return {
    functions := outline.functions
    classes := outline.bodies.map (·.fact)
    imports := distinctTexts (imports.flatten.filter (· ≠ "")) }

end CodeAtlas.Source.Python
