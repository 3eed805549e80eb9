/-! What the bits of a double stand for: a sign, a whole mantissa and a power of two. The exact
integer parts (towards zero, down, up) are read off that form. -/

namespace CodeAtlas.Decimal

/-- The meaning of a double; a finite one is `mantissa * 2 ^ exponent` with its sign. -/
inductive Reading where
  | nan
  | infinite (negative : Bool)
  | finite (negative : Bool) (mantissa : Nat) (exponent : Int)

def Reading.ofFloat (x : Float) : Reading :=
  let bits := x.toBits.toNat
  let negative := bits / Nat.pow 2 63 == 1
  let biased : Nat := bits / Nat.pow 2 52 % Nat.pow 2 11
  let fraction : Nat := bits % Nat.pow 2 52
  if biased = 2047 then (if fraction = 0 then .infinite negative else .nan)
  else if biased = 0 then .finite negative fraction (-1074)
  else .finite negative (fraction + Nat.pow 2 52) ((biased : Int) - 1075)

/-- The fraction `m * 2 ^ q`, as a numerator and a denominator. -/
def fraction (m : Nat) (q : Int) : Nat × Nat :=
  if 0 ≤ q then (m * Nat.pow 2 q.toNat, 1) else (m, Nat.pow 2 (-q).toNat)

/-- The whole number that a double is, if it is one. -/
def whole? (x : Float) : Option Int :=
  match Reading.ofFloat x with
  | .finite negative m q =>
    let (num, den) := fraction m q
    if num % den = 0 then
      some (if negative then -(num / den : Nat) else (num / den : Nat))
    else none
  | _ => none

/-- The whole part of a finite double, cut towards zero. -/
def truncate? (x : Float) : Option Int :=
  match Reading.ofFloat x with
  | .finite negative m q =>
    let (num, den) := fraction m q
    some (if negative then -(num / den : Nat) else (num / den : Nat))
  | _ => none

/-- The greatest integer not above a finite double. -/
def floor? (x : Float) : Option Int :=
  match Reading.ofFloat x with
  | .finite negative m q =>
    let (num, den) := fraction m q
    some ((if negative then -(num : Int) else num).fdiv den)
  | _ => none

def ceil? (x : Float) : Option Int :=
  (floor? (-x)).map (- ·)

end CodeAtlas.Decimal
