/-! Blank characters in the wide sense (every Unicode space and the ASCII separators), and trimming. -/

namespace CodeAtlas.Text

/-- The blank characters: tab to carriage return, the four ASCII information separators, the space,
the next-line control and the Unicode spaces. -/
def isBlank (c : Char) : Bool :=
  let n := c.toNat
  (0x9 ≤ n && n ≤ 0xd) || (0x1c ≤ n && n ≤ 0x20) || n == 0x85 || n == 0xa0 || n == 0x1680 ||
    (0x2000 ≤ n && n ≤ 0x200a) || n == 0x2028 || n == 0x2029 || n == 0x202f || n == 0x205f ||
    n == 0x3000

def trimWhere (test : Char → Bool) (s : List Char) : List Char :=
  ((s.dropWhile test).reverse.dropWhile test).reverse

def trimLeft (s : List Char) : List Char := s.dropWhile isBlank

def trimRight (s : List Char) : List Char := (s.reverse.dropWhile isBlank).reverse

def trim (s : List Char) : List Char := trimWhere isBlank s

def trimText (s : String) : String := String.ofList (trim s.toList)

end CodeAtlas.Text
