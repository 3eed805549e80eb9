import CodeAtlas.Decimal.Binary

/-! Open data. Names, ids and properties come from outside and may hold any value that a document can
hold; a scalar may also be a key, and two scalars are the same key when they are equal as numbers or
equal as they stand. -/

namespace CodeAtlas

/-- A value without parts. -/
inductive Scalar where
  | null
  | bool (b : Bool)
  | int (n : Int)
  | float (x : Float)
  | text (s : String)
  deriving DecidableEq, Inhabited

/-- The representative of all scalars that are the same key: truth values and whole doubles count as
integers. -/
def Scalar.canon : Scalar → Scalar
  | .bool b => .int (if b then 1 else 0)
  | .float x =>
    match Decimal.whole? x with
    | some n => .int n
    | none => .float x
  | s => s

def Scalar.same (a b : Scalar) : Bool := a.canon = b.canon

@[simp] theorem Scalar.same_iff {a b : Scalar} : a.same b = true ↔ a.canon = b.canon := by
  simp [Scalar.same]

@[simp] theorem Scalar.canon_text (s : String) : (Scalar.text s).canon = .text s := rfl

theorem Scalar.canon_eq_text_iff {a : Scalar} {s : String} : a.canon = .text s ↔ a = .text s := by
  cases a with
  | float x => cases h : Decimal.whole? x <;> simp [Scalar.canon, h]
  | _ => simp [Scalar.canon]

/-- A value as a document can hold it. -/
inductive Value where
  | scalar (s : Scalar)
  | list (items : List Value)
  | object (entries : List (Scalar × Value))
  deriving Inhabited

namespace Value

@[match_pattern] abbrev null : Value := .scalar .null
@[match_pattern] abbrev bool (b : Bool) : Value := .scalar (.bool b)
@[match_pattern] abbrev int (n : Int) : Value := .scalar (.int n)
@[match_pattern] abbrev float (x : Float) : Value := .scalar (.float x)
@[match_pattern] abbrev text (s : String) : Value := .scalar (.text s)

def fields (entries : List (String × Value)) : Value :=
  .object (entries.map fun e => (.text e.1, e.2))

/-- Nothing, no, zero and the empty text, list and object count as absent where a default may stand
in. -/
def isFalsy : Value → Bool
  | .null | .bool false | .int 0 | .text "" | .list [] | .object [] => true
  | .float x => x == 0.0
  | _ => false

def orElse (v default : Value) : Value := if v.isFalsy then default else v

end Value

def lookup? {α : Type} (key : Scalar) : List (Scalar × α) → Option α
  | [] => none
  | e :: rest => if e.1.canon = key.canon then some e.2 else lookup? key rest

namespace Value

mutual

/-- Equality of values: numbers by value, objects without regard to order. -/
def same : Value → Value → Bool
  | .scalar a, .scalar b => a.same b
  | .list a, .list b => sameItems a b
  | .object a, .object b => a.length == b.length && sameEntries a b
  | _, _ => false

def sameItems : List Value → List Value → Bool
  | [], [] => true
  | a :: as, b :: bs => same a b && sameItems as bs
  | _, _ => false

/-- Whether every entry of the first object is in the second. -/
def sameEntries : List (Scalar × Value) → List (Scalar × Value) → Bool
  | [], _ => true
  | (k, v) :: rest, bs =>
    (match lookup? k bs with
      | some w => same v w
      | none => false) && sameEntries rest bs

end

end Value

end CodeAtlas
