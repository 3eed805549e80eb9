import CodeAtlas.Decimal.Binary

/-! The shortest decimal that reads back as a given double. A double stands for all reals that round to
it; for one digit, two digits and so on, the two neighbours of the exact value on that decimal grid
are tried, and the first grid with a neighbour in the interval wins. -/

namespace CodeAtlas.Decimal

def digitCount (n : Nat) : Nat := (Nat.toDigits 10 n).length

def magnitude (num den : Nat) : Int :=
  if den ≤ num then (digitCount (num / den) : Int) - 1
  else -(digitCount ((den - 1) / num) : Int)

/-- The interval of reals that round to `m * 2 ^ q`, in quarters of `2 ^ q`. Below a power of two the
doubles lie twice as close. -/
def interval (m : Nat) (q : Int) : Nat × Nat :=
  (if m = Nat.pow 2 52 ∧ -1074 < q then 4 * m - 1 else 4 * m - 2, 4 * m + 2)

/-- A decimal grid, whose points are the multiples of `10 ^ place`. A quarter of `2 ^ q` measures
`up / down` of its steps. -/
structure Grid where
  place : Int
  up : Nat
  down : Nat

def Grid.of (q place : Int) : Grid where
  place := place
  up := Nat.pow 2 (q - 2).toNat * Nat.pow 10 (-place).toNat
  down := Nat.pow 2 (2 - q).toNat * Nat.pow 10 place.toNat

/-- Whether the point `d` of the grid rounds to `m * 2 ^ q`. The ends of the interval do so when the
mantissa is even. -/
def Grid.hits (g : Grid) (m : Nat) (q : Int) (d : Nat) : Bool :=
  let (lo, hi) := interval m q
  if m % 2 = 0 then lo * g.up ≤ d * g.down && d * g.down ≤ hi * g.up
  else lo * g.up < d * g.down && d * g.down < hi * g.up

/-- Of two neighbouring grid points, the one nearer to the value; the even one on a tie. -/
def Grid.nearer (g : Grid) (m d : Nat) : Nat :=
  let below := 4 * m * g.up - d * g.down
  let above := (d + 1) * g.down - 4 * m * g.up
  if below < above then d else if above < below then d + 1 else if d % 2 = 0 then d else d + 1

/-- The point of the grid that is written for `m * 2 ^ q`, if a neighbour of the value rounds to it. -/
def Grid.point? (g : Grid) (m : Nat) (q : Int) : Option Nat :=
  let d := 4 * m * g.up / g.down
  match g.hits m q d, g.hits m q (d + 1) with
  | true, true => some (g.nearer m d)
  | true, false => some d
  | false, true => some (d + 1)
  | false, false => none

def dropZeros : Nat → Nat → Int → Nat × Int
  | 0, d, e => (d, e)
  | n + 1, d, e => if d ≠ 0 ∧ d % 10 = 0 then dropZeros n (d / 10) (e + 1) else (d, e)

/-- The shortest decimal that reads back as the positive double `m * 2 ^ q`, as a coefficient and a
power of ten. Seventeen digits always read back. -/
def shortest (m : Nat) (q : Int) : Nat × Int :=
  let (num, den) := fraction m q
  let top := magnitude num den
  let grids := (List.range 17).map fun (n : Nat) => Grid.of q (top - n)
  match grids.findSome? (fun g => (g.point? m q).map (·, g.place)) with
  | some (d, place) => dropZeros 18 d place
  | none => (m, q)

end CodeAtlas.Decimal
