import CodeAtlas.Text.Blank
import CodeAtlas.Text.Character

/-! Regular expressions with captures. An expression is tried with its choices in order of preference, and
the first way through that lets the rest succeed is taken; a text is searched from left to right
without overlaps. -/

namespace CodeAtlas.Text

/-- A place in a text: how many characters are before it, the last of those, and what follows. -/
structure Cursor where
  position : Nat
  previous : Option Char
  rest : List Char

namespace Cursor

def start (s : List Char) : Cursor := ⟨0, none, s⟩

def step? (test : Char → Bool) (c : Cursor) : Option Cursor :=
  match c.rest with
  | [] => none
  | a :: rest => if test a then some ⟨c.position + 1, some a, rest⟩ else none

/-- The places after one, two, and so on of the following characters, as long as they pass the test. -/
def run (test : Char → Bool) (position : Nat) : List Char → List Cursor
  | [] => []
  | a :: rest =>
    if test a then ⟨position + 1, some a, rest⟩ :: run test (position + 1) rest else []

def atLineStart (c : Cursor) : Bool :=
  match c.previous with
  | none => true
  | some a => a == '\n'

def atWordEdge (c : Cursor) : Bool :=
  c.previous.any isWord != c.rest.head?.any isWord

end Cursor

/-- A regular expression over characters. -/
inductive Regex where
  | empty
  | one (test : Char → Bool)
  | seq (a b : Regex)
  | alt (a b : Regex)
  /-- As many characters that pass the test as the rest allows. -/
  | many (test : Char → Bool)
  /-- As few characters that pass the test as the rest needs, but one at least. -/
  | few (test : Char → Bool)
  /-- As many repetitions as the rest allows. -/
  | star (a : Regex)
  | group (index : Nat) (a : Regex)
  | lineStart
  | wordEdge

/-- What a group captured: so many characters from a place on. -/
structure Capture where
  place : Cursor
  size : Nat

def Capture.chars (c : Capture) : List Char := c.place.rest.take c.size

/-- What the groups captured, latest first. -/
abbrev Captures := List (Nat × Capture)

/-- What is left to match after an expression. -/
abbrev Continuation (ρ : Type) := Cursor → Captures → Option ρ

namespace Regex

/-- Repeats a step, at most so often, before going on; a repetition must take a character. -/
def repeatStep {ρ : Type} (step : Cursor → Captures → Continuation ρ → Option ρ) :
    Nat → Cursor → Captures → Continuation ρ → Option ρ
  | 0, c, caps, k => k c caps
  | n + 1, c, caps, k =>
    (step c caps fun c' caps' =>
      if c.position < c'.position then repeatStep step n c' caps' k else none).or (k c caps)

/-- Matches an expression here and then what is left, taking the first choice that works out. -/
def matchThen {ρ : Type} : Regex → Cursor → Captures → Continuation ρ → Option ρ
  | empty, c, caps, k => k c caps
  | one test, c, caps, k => (c.step? test).bind fun c => k c caps
  | seq a b, c, caps, k => a.matchThen c caps fun c caps => b.matchThen c caps k
  | alt a b, c, caps, k => (a.matchThen c caps k).or (b.matchThen c caps k)
  | many test, c, caps, k =>
    ((Cursor.run test c.position c.rest).reverse.findSome? fun c => k c caps).or (k c caps)
  | few test, c, caps, k => (Cursor.run test c.position c.rest).findSome? fun c => k c caps
  | star a, c, caps, k => repeatStep (fun c caps k => a.matchThen c caps k) c.rest.length c caps k
  | group i a, c, caps, k =>
    a.matchThen c caps fun c' caps' =>
      k c' ((i, ⟨c, c'.position - c.position⟩) :: caps')
  | lineStart, c, caps, k => if c.atLineStart then k c caps else none
  | wordEdge, c, caps, k => if c.atWordEdge then k c caps else none

end Regex

/-- A match: where it starts, the place after it, and what its groups captured. -/
structure Match where
  start : Nat
  after : Cursor
  captures : Captures

namespace Match

def stop (m : Match) : Nat := m.after.position

def group? (m : Match) (i : Nat) : Option (List Char) := (m.captures.lookup i).map (·.chars)

/-- What a group captured, as a text. -/
def text (m : Match) (i : Nat) : String := String.ofList ((m.group? i).getD [])

end Match

namespace Regex

def matchAt? (r : Regex) (c : Cursor) : Option Match :=
  r.matchThen c [] fun after caps => some ⟨c.position, after, caps⟩

/-- The matches from here on, each after the one before. -/
def findFrom (r : Regex) (c : Cursor) : List Match :=
  match c, r.matchAt? c with
  | ⟨position, _, a :: rest⟩, none => r.findFrom ⟨position + 1, some a, rest⟩
  | ⟨_, _, []⟩, none => []
  | ⟨_, _, a :: rest⟩, some m =>
    if m.after.rest.length < (a :: rest).length then m :: r.findFrom m.after else [m]
  | ⟨_, _, []⟩, some m => [m]
termination_by c.rest.length
decreasing_by
  · exact Nat.lt_succ_self _
  · assumption

def findAll (r : Regex) (s : List Char) : List Match := r.findFrom (Cursor.start s)

def all (rs : List Regex) : Regex := rs.foldr seq empty

def any : List Regex → Regex
  | [] => one fun _ => false
  | [r] => r
  | r :: rest => alt r (any rest)

def optional (r : Regex) : Regex := alt r empty

def literal (s : String) : Regex := all (s.toList.map fun a => one (· == a))

def oneOf (s : String) : Regex := one fun c => s.toList.contains c

def oneOrMore (test : Char → Bool) : Regex := seq (one test) (many test)

def blanks : Regex := many isBlank

def someBlanks : Regex := oneOrMore isBlank

def word : Regex := oneOrMore isWord

end Regex

end CodeAtlas.Text
