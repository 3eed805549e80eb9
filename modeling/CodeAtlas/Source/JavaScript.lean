import CodeAtlas.Source.Facts
import CodeAtlas.Text.Regex

/-! Reading the structure of JavaScript and TypeScript sources by their surface: classes reach from their
opening brace to the matching one, and functions count when they do not start inside a class. -/

namespace CodeAtlas.Source.JavaScript

open CodeAtlas.Text

def keywords : List String :=
  ["if", "for", "while", "switch", "catch", "return", "function", "typeof", "constructor", "super",
    "new", "await", "import", "require"]

def isKeyword (s : String) : Bool := keywords.contains s

def parenthesized (inside : Regex → Regex) : Regex :=
  .all [.literal "(", inside (.many (· ≠ ')')), .literal ")"]

/-- A function declaration, or a variable that is given a function. -/
def functionRegex : Regex :=
  .alt
    (.all [
      .alt .lineStart (.one fun c => !(isWord c) && c ≠ '.'),
      .literal "function", .blanks, .optional (.literal "*"), .blanks, .group 1 .word, .blanks,
      .literal "("])
    (.all [
      .any [.literal "const", .literal "let", .literal "var"], .someBlanks, .group 2 .word, .blanks,
      .literal "=", .blanks, .optional (.all [.literal "async", .someBlanks]),
      .any [
        .all [.literal "function", .wordEdge],
        .all [parenthesized id, .blanks, .literal "=>"],
        .all [.word, .blanks, .literal "=>"]]])

/-- The head of a class up to its opening brace. -/
def classRegex : Regex :=
  .all [
    .wordEdge, .literal "class", .someBlanks, .group 1 .word,
    .optional (.all [
      .someBlanks, .literal "extends", .someBlanks,
      .group 2 (.oneOrMore fun c => isWord c || c == '.')]),
    .blanks, .literal "\x7b"]

def methodRegex : Regex :=
  .all [
    .lineStart, .blanks, .optional (.all [.literal "static", .someBlanks]),
    .optional (.all [.literal "async", .someBlanks]), .optional (.literal "*"), .blanks,
    .group 1 .word, .blanks, parenthesized (.group 2), .blanks, .literal "\x7b"]

def quotedName (index : Nat) : Regex :=
  .all [.oneOf "'\"", .group index (.oneOrMore fun c => c ≠ '\'' && c ≠ '"'), .oneOf "'\""]

/-- An import of a module by either of the two ways. -/
def importRegex : Regex :=
  .alt
    (.all [
      .literal "import", .someBlanks,
      .optional (.all [
        .few fun c => isWord c || isBlank c || c == '*' || c == '\x7b' || c == '\x7d' || c == ',',
        .someBlanks, .literal "from", .someBlanks]),
      quotedName 1])
    (.all [
      .literal "require", .blanks, .literal "(", .blanks, quotedName 2, .blanks, .literal ")"])

/-- The index just past the brace that closes the block, from the index `position` on, with `depth`
blocks open; the end of the text if nothing closes it. -/
def blockEndFrom : Nat → Int → List Char → Nat
  | position, _, [] => position
  | position, depth, c :: rest =>
    if c = '\x7b' then blockEndFrom (position + 1) (depth + 1) rest
    else if c = '\x7d' then
      if depth = 1 then position + 1 else blockEndFrom (position + 1) (depth - 1) rest
    else blockEndFrom (position + 1) depth rest

def blockEnd (content : List Char) (openBrace : Nat) : Nat :=
  blockEndFrom openBrace 0 (content.drop openBrace)

def slice (content : List Char) (start stop : Nat) : List Char :=
  (content.drop start).take (stop - start)

/-- A class head and the index just past its block. -/
structure ClassSpan where
  head : Match
  stop : Nat

def ClassSpan.covers (span : ClassSpan) (index : Nat) : Bool :=
  span.head.start ≤ index && index < span.stop

def classSpans (content : List Char) : List ClassSpan :=
  (classRegex.findAll content).map fun m => ⟨m, blockEnd content (m.stop - 1)⟩

/-- The methods in the block of a class, which is taken without its last character. -/
def methodsOf (content : List Char) (span : ClassSpan) : List FunctionFact :=
  ((methodRegex.findAll (slice content span.head.stop (span.stop - 1))).filter fun m =>
    !isKeyword (m.text 1)).map fun m => ⟨m.text 1, some (params ((m.group? 2).getD []))⟩

def classFact (content : List Char) (span : ClassSpan) : ClassFact where
  name := span.head.text 1
  methods := methodsOf content span
  inheritance := (span.head.group? 2).toList.map String.ofList

def eitherName (m : Match) : String :=
  String.ofList ((m.group? 1).getD ((m.group? 2).getD []))

/-- The names of the functions that start outside of all classes. -/
def functionNames (content : List Char) (spans : List ClassSpan) : List String :=
  distinctTexts <|
    ((functionRegex.findAll content).filter fun m =>
      !isKeyword (eitherName m) && !spans.any (·.covers m.start)).map eitherName

def facts (content : List Char) : SourceFacts :=
  let spans := classSpans content
  { functions := (functionNames content spans).map fun name => ⟨name, none⟩
    classes := spans.map (classFact content)
    imports := distinctTexts ((importRegex.findAll content).map eitherName) }

end CodeAtlas.Source.JavaScript
