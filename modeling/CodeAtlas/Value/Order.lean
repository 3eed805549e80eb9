import CodeAtlas.Value.Basic

/-! The order of keys: numbers by value, then texts by code point. Keys of both sorts side by side can be
listed but not compared, and whoever shows an ordered list of keys has to check that. -/

namespace CodeAtlas

namespace Scalar

/-- Order of numbers in canonical form: integers, and doubles that are not whole. -/
def numberLe : Scalar → Scalar → Bool
  | .int m, .int n => m ≤ n
  | .int m, .float y =>
    match Decimal.floor? y with
    | some n => m ≤ n
    | none => 0.0 < y
  | .float x, .int n =>
    match Decimal.ceil? x with
    | some m => m ≤ n
    | none => x < 0.0
  | .float x, .float y => x ≤ y
  | _, _ => true

/-- The sort of a scalar, as far as order is concerned. -/
def rank : Scalar → Nat
  | .null => 0
  | .text _ => 2
  | _ => 1

def le (a b : Scalar) : Bool :=
  match a, b with
  | .text s, .text t => s ≤ t
  | a, b => if a.rank = b.rank then a.canon.numberLe b.canon else a.rank < b.rank

end Scalar

def sortKeys (keys : List Scalar) : List Scalar := keys.mergeSort Scalar.le

/-- Whether keys can be compared with each other: all numbers or all texts, or no two of them. -/
def areComparable : List Scalar → Bool
  | [] => true
  | [_] => true
  | keys => keys.all (·.rank = 1) || keys.all (·.rank = 2)

end CodeAtlas
