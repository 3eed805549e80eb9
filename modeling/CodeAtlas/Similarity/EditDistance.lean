/-! The edit distance of two sequences, row by row: row `i` holds the distances between the first `i`
items of the one sequence and every initial part of the other. -/

namespace CodeAtlas

variable {α : Type} [BEq α]

/-- The entries of a row after its first, for the item `x`: `diagonal` and `above` come from the row
before, `left` is the entry just made. -/
def fillRow (x : α) : List α → Nat → Nat → List Nat → List Nat
  | y :: ys, diagonal, left, above :: rest =>
    let entry := if x == y then diagonal else 1 + min diagonal (min above left)
    entry :: fillRow x ys above entry rest
  | _, _, _, _ => []

def nextRow (b : List α) (row : List Nat) (x : α) : List Nat :=
  match row with
  | [] => []
  | first :: rest => (first + 1) :: fillRow x b first (first + 1) rest

def lastEntry (a b : List α) : Nat :=
  ((a.foldl (nextRow b) (List.range (b.length + 1))).getLast?).getD 0

/-- The least number of insertions, deletions and substitutions that turn one sequence into the
other. The rows lie along the shorter sequence. -/
def editDistance (a b : List α) : Nat :=
  if a.length < b.length then lastEntry b a else lastEntry a b

/-- How much of the longer sequence an optimal edit keeps; two empty sequences are alike. -/
def sequenceSimilarity (a b : List α) : Float :=
  let longest := max a.length b.length
  if longest = 0 then 1.0
  else Float.ofNat (longest - editDistance a b) / Float.ofNat longest

end CodeAtlas
