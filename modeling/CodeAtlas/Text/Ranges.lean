/-! Sets of characters given as lists of code point ranges, and membership in them. -/

namespace CodeAtlas.Text

def inRanges (ranges : List (Nat × Nat)) (n : Nat) : Bool :=
  ranges.any fun r => r.1 ≤ n && n ≤ r.2

end CodeAtlas.Text
