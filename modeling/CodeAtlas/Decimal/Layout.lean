import CodeAtlas.Decimal.Shortest

/-! How the shortest decimal of a double is laid out as text: positional or with an exponent. -/

namespace CodeAtlas.Decimal

/-- The choices that a written double rests on: the powers of ten of the leading digit that are
written positionally, and the words for what is no number. -/
structure Layout where
  leastPositional : Int
  greatestPositional : Int
  nan : String
  infinity : String

def Layout.plain : Layout := ⟨-4, 15, "nan", "inf"⟩

def Layout.document : Layout := ⟨-4, 15, "NaN", "Infinity"⟩

def zeros (n : Nat) : String := String.ofList (List.replicate n '0')

/-- A positional number keeps a point and at least one digit after it. -/
def positional (digits : String) (exponent : Int) : String :=
  let size : Int := digits.length
  if 0 ≤ exponent then digits ++ zeros exponent.toNat ++ ".0"
  else if 0 < size + exponent then
    let split := (size + exponent).toNat
    String.ofList (digits.toList.take split) ++ "." ++ String.ofList (digits.toList.drop split)
  else "0." ++ zeros (-(size + exponent)).toNat ++ digits

/-- One digit before the point, no point if nothing follows it, a signed exponent of at least two
digits. -/
def scientific (digits : String) (exponent : Int) : String :=
  let lead := exponent + digits.length - 1
  let mantissa :=
    match digits.toList with
    | [] => ""
    | [c] => String.ofList [c]
    | c :: rest => String.ofList (c :: '.' :: rest)
  let size := toString lead.natAbs
  mantissa ++ (if lead < 0 then "e-" else "e+") ++
    (if size.length < 2 then "0" ++ size else size)

/-- The text of a double. -/
def Layout.write (l : Layout) (x : Float) : String :=
  let sign (negative : Bool) := if negative then "-" else ""
  match Reading.ofFloat x with
  | .nan => l.nan
  | .infinite negative => sign negative ++ l.infinity
  | .finite negative 0 _ => sign negative ++ "0.0"
  | .finite negative m q =>
    let (d, exponent) := shortest m q
    let digits := toString d
    let lead := exponent + digits.length - 1
    sign negative ++
      (if l.leastPositional ≤ lead ∧ lead ≤ l.greatestPositional then positional digits exponent
      else scientific digits exponent)

end CodeAtlas.Decimal
