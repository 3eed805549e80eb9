import CodeAtlas.Decimal.Numeral
import CodeAtlas.Fault
import CodeAtlas.Text.Case

/-! Using an open value as one thing or another: a field holder, a sequence, a key, a number, a bound.
Each use says which fault arises when the value does not lend itself to it. -/

namespace CodeAtlas

namespace Value

def field? (name : String) : Value → Checked (Option Value)
  | .object entries => .ok (lookup? (.text name) entries)
  | _ => .error .notOffered

def field (name : String) (v : Value) : Checked Value :=
  return (← v.field? name).getD .null

/-- The parts of a value: items of a list, keys of an object, characters of a text. -/
def elements : Value → Checked (List Value)
  | .list items => .ok items
  | .object entries => .ok (entries.map fun e => .scalar e.1)
  | .text s => .ok (s.toList.map fun c => .text (String.singleton c))
  | _ => .error .wrongSort

def size (v : Value) : Checked Nat := return (← v.elements).length

def key : Value → Checked Scalar
  | .scalar s => .ok s
  | _ => .error .wrongSort

def pair (v : Value) : Checked (Value × Value) := do
  match ← v.elements with
  | [a, b] => return (a, b)
  | _ => throw .malformed

def lowered : Value → Checked String
  | .text s => .ok (Text.lowerText s)
  | _ => .error .notOffered

/-- A value as a double. -/
def toFloat : Value → Checked Float
  | .float x => .ok x
  | .bool b => .ok (if b then 1.0 else 0.0)
  | .int n =>
    let x := Float.ofInt n
    if x.isInf then .error .outOfRange else .ok x
  | .text s =>
    match Decimal.readFloat? s with
    | some x => .ok x
    | none => .error .malformed
  | _ => .error .wrongSort

/-- A value as an integer, cut towards zero. -/
def toInt : Value → Checked Int
  | .int n => .ok n
  | .bool b => .ok (if b then 1 else 0)
  | .float x =>
    match Decimal.truncate? x with
    | some n => .ok n
    | none => .error (if x.isNaN then .malformed else .outOfRange)
  | .text s =>
    match Decimal.readInt? s with
    | some n => .ok n
    | none => .error .malformed
  | _ => .error .wrongSort

def beyond : Int := Int.pow 2 1100

/-- The least integer that counts as at least this number: a count reaches the one exactly when it
reaches the other. -/
def ceiling : Value → Checked Int
  | .int n => .ok n
  | .bool b => .ok (if b then 1 else 0)
  | .float x => .ok ((Decimal.ceil? x).getD (if x < 0.0 then -beyond else beyond))
  | _ => .error .wrongSort

/-- The greatest integer that is at most this number: a count exceeds the one exactly when it exceeds
the other. -/
def floor : Value → Checked Int
  | .int n => .ok n
  | .bool b => .ok (if b then 1 else 0)
  | .float x => .ok ((Decimal.floor? x).getD (if x < 0.0 then -beyond else beyond))
  | _ => .error .wrongSort

def threshold : Value → Checked Float
  | .int n => .ok (Float.ofInt n)
  | .bool b => .ok (if b then 1.0 else 0.0)
  | .float x => .ok x
  | _ => .error .wrongSort

end Value

def takeUpTo {α : Type} (limit : Int) (xs : List α) : List α :=
  if 0 ≤ limit then xs.take limit.toNat else xs.take (xs.length - limit.natAbs)

namespace Value

/-- The items within a limit, which is an integer, or nothing for all of them. -/
def limited {α : Type} (limit : Value) (xs : List α) : Checked (List α) :=
  match limit with
  | .null => .ok xs
  | .int n => .ok (takeUpTo n xs)
  | .bool b => .ok (takeUpTo (if b then 1 else 0) xs)
  | _ => .error .wrongSort

end Value

end CodeAtlas
