/-! Finding one text inside another. -/

namespace CodeAtlas.Text

def occursIn (needle : List Char) : List Char → Bool
  | [] => needle.isEmpty
  | c :: rest => needle.isPrefixOf (c :: rest) || occursIn needle rest

/-- What the search decides: whether the one list stands in the other in one piece. -/
theorem occursIn_iff {needle s : List Char} : occursIn needle s = true ↔ needle <:+: s := by
  induction s with
  | nil => simp [occursIn]
  | cons c rest ih => simp [occursIn, ih, List.infix_cons_iff]

def within (needle s : String) : Bool := occursIn needle.toList s.toList

end CodeAtlas.Text
