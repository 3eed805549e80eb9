import CodeAtlas.Text.Blank
import CodeAtlas.Text.Character

/-! Reading numbers from text: whole numbers and decimals with blanks around them, an optional sign, the
digits of any script, and single underscores between digits. -/

namespace CodeAtlas.Decimal

open CodeAtlas.Text

def digitLimit : Nat := 4300

def isSpace (c : Char) : Bool := c = ' ' || (0x9 ≤ c.toNat && c.toNat ≤ 0xd)

/-- Spells a number in ASCII: digits of other scripts become ASCII digits, other blanks spaces, and
what else is not ASCII a character that no number holds. -/
def toAscii (s : List Char) : List Char :=
  s.map fun c =>
    if c.toNat < 0x7f then c
    else if isBlank c then ' '
    else
      match digitValue? c with
      | some d => Char.ofNat (0x30 + d)
      | none => '?'

def stripSpaces (s : List Char) : List Char := trimWhere isSpace s

def splitSign : List Char → Bool × List Char
  | '-' :: rest => (true, rest)
  | '+' :: rest => (false, rest)
  | s => (false, s)

/-- Removes the underscores, each of which must stand between two digits. -/
def dropUnderscores? (previous : Char) : List Char → Option (List Char)
  | [] => if previous = '_' then none else some []
  | c :: rest =>
    if c = '_' then
      if previous.isDigit then dropUnderscores? c rest else none
    else if previous = '_' && !c.isDigit then none
    else (dropUnderscores? c rest).map (c :: ·)

def natOfDigits (s : List Char) : Nat :=
  s.foldl (fun n c => n * 10 + (c.toNat - 0x30)) 0

def readInt? (text : String) : Option Int := do
  let (negative, digits) := splitSign (stripSpaces (toAscii text.toList))
  let digits ← dropUnderscores? ' ' digits
  if digits.isEmpty || !digits.all Char.isDigit || digitLimit < digits.length then none
  else some (if negative then -(natOfDigits digits : Int) else natOfDigits digits)

/-- The double nearest to `coefficient * 10 ^ exponent`. Beyond these powers of ten every double is zero
or infinite, so the power is not computed. -/
def nearest (coefficient : Nat) (exponent : Int) : Float :=
  let lead := exponent + (Nat.toDigits 10 coefficient).length
  if coefficient = 0 || lead < -400 then 0.0
  else if 400 < lead then 1.0 / 0.0
  else if 0 ≤ exponent then Float.ofScientific coefficient false exponent.toNat
  else Float.ofScientific coefficient true (-exponent).toNat

/-- The value of an unsigned decimal: digits with an optional point among them, then optionally an
exponent. -/
def readUnsigned? (s : List Char) : Option Float := do
  let wholePart := s.takeWhile Char.isDigit
  let s := s.dropWhile Char.isDigit
  let (fractionPart, s) :=
    match s with
    | '.' :: rest => (rest.takeWhile Char.isDigit, rest.dropWhile Char.isDigit)
    | s => ([], s)
  if wholePart.isEmpty && fractionPart.isEmpty then none
  else
    let coefficient := natOfDigits (wholePart ++ fractionPart)
    match s with
    | [] => some (nearest coefficient (-(fractionPart.length : Int)))
    | c :: rest =>
      if c ≠ 'e' && c ≠ 'E' then none
      else
        let (negative, digits) := splitSign rest
        if digits.isEmpty || !digits.all Char.isDigit then none
        else
          let e : Int := natOfDigits digits
          some (nearest coefficient ((if negative then -e else e) - fractionPart.length))

/-- The double that a text spells; infinities and not-a-number have their words, in any case. -/
def readFloat? (text : String) : Option Float := do
  let s ← dropUnderscores? ' ' (stripSpaces (toAscii text.toList))
  let (negative, s) := splitSign s
  let x ←
    match String.ofList (s.map Char.toLower) with
    | "inf" | "infinity" => some (1.0 / 0.0)
    | "nan" => some (0.0 / 0.0)
    | _ => readUnsigned? s
  return if negative then -x else x

end CodeAtlas.Decimal
