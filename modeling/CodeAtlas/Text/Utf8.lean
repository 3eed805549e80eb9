/-! Reading bytes as UTF-8. Strict reading wants all bytes to be well formed. Lenient reading takes the one
well-formed sequence at the front, or else gives up one byte, and so on. -/

namespace CodeAtlas.Text

def continuation? (b : UInt8) : Option Nat :=
  if 0x80 ≤ b && b < 0xc0 then some (b.toNat - 0x80) else none

/-- The character of a code point, unless it is written too long or is no scalar value. -/
def scalar? (least code : Nat) : Option Char :=
  if h : code.isValidChar then
    if least ≤ code then some (Char.ofNatAux code h) else none
  else none

/-- The well-formed sequence at the front: its character and the bytes after it. -/
def utf8Step? : List UInt8 → Option (Char × List UInt8)
  | [] => none
  | a :: rest =>
    let lead := a.toNat
    if lead < 0x80 then (scalar? 0 lead).map (·, rest)
    else if lead < 0xc0 then none
    else if lead < 0xe0 then
      match rest with
      | b :: rest => do
        let b ← continuation? b
        let c ← scalar? 0x80 ((lead - 0xc0) * 64 + b)
        return (c, rest)
      | _ => none
    else if lead < 0xf0 then
      match rest with
      | b :: c :: rest => do
        let b ← continuation? b
        let c ← continuation? c
        let ch ← scalar? 0x800 (((lead - 0xe0) * 64 + b) * 64 + c)
        return (ch, rest)
      | _ => none
    else if lead < 0xf8 then
      match rest with
      | b :: c :: d :: rest => do
        let b ← continuation? b
        let c ← continuation? c
        let d ← continuation? d
        let ch ← scalar? 0x10000 ((((lead - 0xf0) * 64 + b) * 64 + c) * 64 + d)
        return (ch, rest)
      | _ => none
    else none

/-- The characters of a byte sequence without the bytes that belong to none. The first argument bounds the
number of steps. -/
def utf8Scan : Nat → List UInt8 → List Char
  | 0, _ => []
  | _ + 1, [] => []
  | n + 1, a :: rest =>
    match utf8Step? (a :: rest) with
    | some (c, rest) => c :: utf8Scan n rest
    | none => utf8Scan n rest

def utf8Decode? (bytes : ByteArray) : Option String := String.fromUTF8? bytes

def utf8DecodeLenient (bytes : ByteArray) : String :=
  (utf8Decode? bytes).getD (String.ofList (utf8Scan bytes.size bytes.toList))

end CodeAtlas.Text
