import CodeAtlas.Table
import CodeAtlas.Text.Line

/-! Files of assignments: a name, an equals sign and a value on a line, with comments, quotes and escapes.
A value may refer to variables assigned before it or set in the environment. -/

namespace CodeAtlas

/-- Variables by name. A variable may be named without being given a value. -/
abbrev Variables := Table (Option String)

namespace Assignments

open CodeAtlas.Text

def isInnerBlank (c : Char) : Bool := isBlank c && c ≠ '\n'

def skipInner (s : List Char) : List Char := s.dropWhile isInnerBlank

def nextLine (s : List Char) : List Char := (s.dropWhile (· ≠ '\n')).drop 1

/-- A quoted text up to its closing mark, with the rest after it. An escaped mark closes it only if there
is no mark after it that could. -/
def quoted? (mark : Char) : List Char → Option (List Char × List Char)
  | [] => none
  | '\\' :: c :: rest =>
    if c = mark then
      match quoted? mark rest with
      | some (s, rest) => some ('\\' :: c :: s, rest)
      | none => some (['\\'], rest)
    else (quoted? mark (c :: rest)).map fun (s, rest) => ('\\' :: s, rest)
  | c :: rest =>
    if c = mark then some ([], rest) else (quoted? mark rest).map fun (s, rest) => (c :: s, rest)
termination_by s => s.length

/-- Replaces escapes: those of the given characters by what the table says. -/
def unescape (table : List (Char × Char)) : List Char → List Char
  | '\\' :: c :: rest =>
    match table.lookup c with
    | some d => d :: unescape table rest
    | none => '\\' :: unescape table (c :: rest)
  | c :: rest => c :: unescape table rest
  | [] => []
termination_by s => s.length

def singleEscapes : List (Char × Char) := [('\\', '\\'), ('\'', '\'')]

def doubleEscapes : List (Char × Char) :=
  [('\\', '\\'), ('\'', '\''), ('"', '"'), ('a', '\x07'), ('b', '\x08'), ('f', '\x0c'), ('n', '\n'),
    ('r', '\r'), ('t', '\t'), ('v', '\x0b')]

def dropComment : List Char → List Char
  | [] => []
  | c :: rest =>
    if isBlank c && (rest.dropWhile isBlank).head? = some '#' then [] else c :: dropComment rest

def value? (s : List Char) : Option (List Char × List Char) :=
  match s with
  | '\'' :: rest => (quoted? '\'' rest).map fun (v, rest) => (unescape singleEscapes v, rest)
  | '"' :: rest => (quoted? '"' rest).map fun (v, rest) => (unescape doubleEscapes v, rest)
  | s => some (trimRight (dropComment (s.takeWhile (· ≠ '\n'))), s.dropWhile (· ≠ '\n'))

/-- The name of an assignment and the rest after it. -/
def name? (s : List Char) : Option (List Char × List Char) :=
  match s with
  | '\'' :: rest =>
    match rest.span (· ≠ '\'') with
    | (name, _ :: rest) => if name.isEmpty then none else some (name, rest)
    | (_, []) => none
  | s =>
    let isName (c : Char) : Bool := c ≠ '=' && c ≠ '#' && !isBlank c
    let name := s.takeWhile isName
    if name.isEmpty then none else some (name, s.dropWhile isName)

/-- Drops the word that marks a variable as exported. -/
def dropExport (s : List Char) : List Char :=
  let word := "export".toList
  if word.isPrefixOf s then
    match s.drop word.length with
    | c :: rest => if isInnerBlank c then skipInner rest else s
    | [] => s
  else s

def endsHere (s : List Char) : Bool :=
  match skipInner s with
  | [] => true
  | c :: _ => c = '\n' || c = '#'

/-- What an assignment says: a name, and a value if there is an equals sign. -/
abbrev Assignment := String × Option String

/-- An assignment, unless something else follows it on its line. -/
def onItsOwn (a : Assignment) (rest : List Char) : Option Assignment × List Char :=
  (if endsHere rest then some a else none, rest)

/-- The assignment at the front, if there is one, and the place up to which it was read. -/
def assignment (s : List Char) : Option Assignment × List Char :=
  let s := dropExport s
  match name? s with
  | none => (none, s)
  | some (name, rest) =>
    match skipInner rest with
    | '=' :: rest =>
      let rest := skipInner rest
      match value? rest with
      | none => (none, rest)
      | some (value, rest) => onItsOwn (String.ofList name, some (String.ofList value)) rest
    | rest => onItsOwn (String.ofList name, none) rest

/-- The assignments of a text in order. What is no assignment is passed over, up to the end of the line
that it was read to. The first argument bounds the number of lines. -/
def readLines : Nat → List Char → List Assignment
  | 0, _ => []
  | n + 1, s =>
    match trimLeft s with
    | [] => []
    | s =>
      let (a, rest) := assignment s
      a.toList ++ readLines n (nextLine rest)

def read (text : String) : List Assignment :=
  readLines (text.length + 1) (normalizeNewlines text.toList)

/-- Puts the values of variables in the place of references to them. A reference may name a default. The
first argument bounds the length of the text. -/
def expand (lookUp : String → Option String) : Nat → List Char → List Char
  | 0, _ => []
  | _ + 1, [] => []
  | n + 1, '$' :: '\x7b' :: rest =>
    let name := rest.takeWhile fun c => c ≠ '\x7d' && c ≠ ':'
    let after := rest.dropWhile fun c => c ≠ '\x7d' && c ≠ ':'
    let found (default : List Char) : List Char :=
      (((lookUp (String.ofList name)).map String.toList).getD default)
    match after with
    | '\x7d' :: after => found [] ++ expand lookUp n after
    | ':' :: '-' :: after =>
      match after.span (· ≠ '\x7d') with
      | (default, _ :: after) => found default ++ expand lookUp n after
      | (_, []) => '$' :: expand lookUp n ('\x7b' :: rest)
    | _ => '$' :: expand lookUp n ('\x7b' :: rest)
  | n + 1, c :: rest => c :: expand lookUp n rest

/-- The value that a reference stands for: an earlier assignment goes before the environment, and a
variable without a value is empty. -/
def resolve (environment earlier : Variables) (name : String) : Option String :=
  match earlier.get? (.text name) with
  | some v => some (v.getD "")
  | none => (environment.get? (.text name)).join

/-- The variables of a list of assignments, each value expanded by the values before it. -/
def toVariables (environment : Variables) (assigned : List Assignment) : Variables :=
  assigned.foldl (fun earlier a =>
    let expanded := a.2.map fun v =>
      String.ofList (expand (resolve environment earlier) (v.length + 1) v.toList)
    earlier.insert (.text a.1) expanded) ∅

end Assignments

end CodeAtlas
