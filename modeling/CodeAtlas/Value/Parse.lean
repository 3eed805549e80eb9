import CodeAtlas.Decimal.Numeral
import CodeAtlas.Fault
import CodeAtlas.Table

/-! Reading a JSON document. Besides the standard the words `NaN`, `Infinity` and `-Infinity` are numbers;
of two fields with one name the later value stands in the place of the earlier. Each reader returns
what it read and the characters after it.

Two things that documents can hold are not taken over. Texts are made of whole characters, so half of a surrogate
pair that is escaped on its own is not kept as such; and no depth of nesting is too much, where an
interpreter with a limit on its recursion gives up. -/

namespace CodeAtlas.Document

def isSpace (c : Char) : Bool := c = ' ' || c = '\t' || c = '\n' || c = '\r'

def skipSpace (s : List Char) : List Char := s.dropWhile isSpace

def hexValue? (c : Char) : Option Nat :=
  if c.isDigit then some (c.toNat - 0x30)
  else if 'a' ≤ c && c ≤ 'f' then some (c.toNat - 0x57)
  else if 'A' ≤ c && c ≤ 'F' then some (c.toNat - 0x37)
  else none

/-- The number of four hexadecimal digits. -/
def hexQuad? : List Char → Option (Nat × List Char)
  | a :: b :: c :: d :: rest => do
    let a ← hexValue? a
    let b ← hexValue? b
    let c ← hexValue? c
    let d ← hexValue? d
    return (((a * 16 + b) * 16 + c) * 16 + d, rest)
  | _ => none

def lowSurrogate? : List Char → Option (Nat × List Char)
  | '\\' :: 'u' :: rest => do
    let (n, rest) ← hexQuad? rest
    if 0xdc00 ≤ n ∧ n < 0xe000 then some (n, rest) else none
  | _ => none

/-- The character that one escape stands for; a pair of surrogates stands for one character. Half of one is no
character, and the replacement character takes its place. -/
def readEscape? : List Char → Option (Char × List Char)
  | '"' :: rest => some ('"', rest)
  | '\\' :: rest => some ('\\', rest)
  | '/' :: rest => some ('/', rest)
  | 'b' :: rest => some ('\x08', rest)
  | 'f' :: rest => some ('\x0c', rest)
  | 'n' :: rest => some ('\n', rest)
  | 'r' :: rest => some ('\r', rest)
  | 't' :: rest => some ('\t', rest)
  | 'u' :: rest => do
    let (n, rest) ← hexQuad? rest
    if 0xd800 ≤ n ∧ n < 0xdc00 then
      match lowSurrogate? rest with
      | some (low, rest) => some (Char.ofNat (0x10000 + (n - 0xd800) * 0x400 + (low - 0xdc00)), rest)
      | none => some ('\ufffd', rest)
    else if 0xdc00 ≤ n ∧ n < 0xe000 then some ('\ufffd', rest)
    else some (Char.ofNat n, rest)
  | _ => none

/-- The rest of a string after its opening quote, with the characters read so far latest first. The
first argument bounds the number of characters. -/
def readString : Nat → List Char → List Char → Except Fault (String × List Char)
  | 0, _, _ => .error .badDocument
  | _ + 1, _, [] => .error .badDocument
  | n + 1, done, c :: rest =>
    if c = '"' then .ok (String.ofList done.reverse, rest)
    else if c = '\\' then
      match readEscape? rest with
      | some (e, rest) => readString n (e :: done) rest
      | none => .error .badDocument
    else if c.toNat < 0x20 then .error .badDocument
    else readString n (c :: done) rest

/-- The digits at the front of a number's exponent, if it has one. -/
def readExponent (s : List Char) : Option Int × List Char :=
  match s with
  | c :: rest =>
    if c = 'e' || c = 'E' then
      let (negative, rest) := Decimal.splitSign rest
      let digits := rest.takeWhile Char.isDigit
      if digits.isEmpty then (none, s)
      else
        let e : Int := Decimal.natOfDigits digits
        (some (if negative then -e else e), rest.dropWhile Char.isDigit)
    else (none, s)
  | [] => (none, s)

/-- The digits after a number's point, if it has one. -/
def readFraction (s : List Char) : Option (List Char) × List Char :=
  match s with
  | '.' :: rest =>
    let digits := rest.takeWhile Char.isDigit
    if digits.isEmpty then (none, s) else (some digits, rest.dropWhile Char.isDigit)
  | _ => (none, s)

/-- A number without its sign: an integer unless it has a fraction or an exponent. -/
def readMagnitude (negative : Bool) (s : List Char) : Except Fault (Value × List Char) :=
  let digits :=
    match s with
    | '0' :: _ => ['0']
    | _ => s.takeWhile Char.isDigit
  if digits.isEmpty then .error .badDocument
  else
    let (fraction, s) := readFraction (s.drop digits.length)
    let (exponent, s) := readExponent s
    match fraction, exponent with
    | none, none =>
      if Decimal.digitLimit < digits.length then .error .malformed
      else
        let n : Int := Decimal.natOfDigits digits
        .ok (.int (if negative then -n else n), s)
    | _, _ =>
      let decimals := fraction.getD []
      let x := Decimal.nearest (Decimal.natOfDigits (digits ++ decimals))
        (exponent.getD 0 - decimals.length)
      .ok (.float (if negative then -x else x), s)

def literals : List (String × Value) :=
  [("null", .null), ("true", .bool true), ("false", .bool false), ("NaN", .float (0.0 / 0.0)),
    ("Infinity", .float (1.0 / 0.0)), ("-Infinity", .float (-1.0 / 0.0))]

def after? (word : List Char) (s : List Char) : Option (List Char) :=
  if word.isPrefixOf s then some (s.drop word.length) else none

def readAtom (s : List Char) : Except Fault (Value × List Char) :=
  match literals.findSome? fun l => (after? l.1.toList s).map (l.2, ·) with
  | some (v, rest) => .ok (v, rest)
  | none =>
    match s with
    | '-' :: rest => readMagnitude true rest
    | _ => readMagnitude false s

mutual

/-- The value at the front. The first argument bounds the number of values, items and fields, and the length
of every string; twice the number of characters is enough for all of them. -/
def readValue : Nat → List Char → Except Fault (Value × List Char)
  | 0, _ => .error .badDocument
  | n + 1, s =>
    match s with
    | '"' :: rest => do
      let (t, rest) ← readString n [] rest
      return (.text t, rest)
    | '[' :: rest =>
      match skipSpace rest with
      | ']' :: rest => .ok (.list [], rest)
      | rest => do
        let (items, rest) ← readItems n rest
        return (.list items, rest)
    | '\x7b' :: rest =>
      match skipSpace rest with
      | '\x7d' :: rest => .ok (.object [], rest)
      | rest => do
        let (entries, rest) ← readFields n rest
        return (.object (Table.ofList entries).entries, rest)
    | _ => readAtom s

/-- The items of a list up to its closing bracket. -/
def readItems : Nat → List Char → Except Fault (List Value × List Char)
  | 0, _ => .error .badDocument
  | n + 1, s => do
    let (v, rest) ← readValue n (skipSpace s)
    match skipSpace rest with
    | ',' :: rest => do
      let (items, rest) ← readItems n rest
      return (v :: items, rest)
    | ']' :: rest => return ([v], rest)
    | _ => throw .badDocument

/-- The fields of an object up to its closing brace. -/
def readFields : Nat → List Char → Except Fault (List (Scalar × Value) × List Char)
  | 0, _ => .error .badDocument
  | n + 1, s =>
    match skipSpace s with
    | '"' :: rest => do
      let (name, rest) ← readString n [] rest
      match skipSpace rest with
      | ':' :: rest => do
        let (v, rest) ← readValue n (skipSpace rest)
        match skipSpace rest with
        | ',' :: rest => do
          let (fields, rest) ← readFields n rest
          return ((.text name, v) :: fields, rest)
        | '\x7d' :: rest => return ([(.text name, v)], rest)
        | _ => throw .badDocument
      | _ => throw .badDocument
    | _ => .error .badDocument

end

end CodeAtlas.Document

namespace CodeAtlas

def Value.parse (text : String) : Except Fault Value := do
  let s := text.toList
  let (v, rest) ← Document.readValue (2 * s.length + 2) (Document.skipSpace s)
  if (Document.skipSpace rest).isEmpty then return v else throw .badDocument

end CodeAtlas
