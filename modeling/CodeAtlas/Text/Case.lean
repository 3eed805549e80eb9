import CodeAtlas.Text.CaseTable

/-! Full lower-casing: one character at a time, but for the dotted capital I, which becomes two
characters, and the capital sigma, whose form depends on what stands around it. -/

namespace CodeAtlas.Text

def lowerChar (c : Char) : Char :=
  if c.toNat < 0x80 then c.toLower
  else
    match caseRuns.find? (fun r => r.first ≤ c.toNat && c.toNat ≤ r.last) with
    | some r =>
      if (c.toNat - r.first) % r.step == 0 then Char.ofNat ((c.toNat : Int) + r.offset).toNat else c
    | none => c

def isCaseIgnorable (c : Char) : Bool := inRanges caseIgnorableRanges c.toNat

def isCased (c : Char) : Bool := inRanges casedRanges c.toNat

/-- Whether the first character that a sigma does not look through is a cased one. -/
def seesCased (s : List Char) : Bool :=
  match s.dropWhile isCaseIgnorable with
  | [] => false
  | c :: _ => isCased c

def lowerSigma (before after : List Char) : Char :=
  if seesCased before && !seesCased after then 'ς' else 'σ'

/-- Lowers the rest of a text whose characters so far, latest first, are `before`. -/
def lowerFrom (before : List Char) : List Char → List Char
  | [] => []
  | c :: rest =>
    let lowered :=
      if c = 'İ' then ['i', '\u0307']
      else if c = 'Σ' then [lowerSigma before rest]
      else [lowerChar c]
    lowered ++ lowerFrom (c :: before) rest

def lower (s : List Char) : List Char := lowerFrom [] s

def lowerText (s : String) : String := String.ofList (lower s.toList)

end CodeAtlas.Text
