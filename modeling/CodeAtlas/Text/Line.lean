import CodeAtlas.Text.Blank

/-! Line structure: cutting a text at its line breaks, reading any end of line as a newline, and the
indentation of a line. -/

namespace CodeAtlas.Text

def isLineBreak (c : Char) : Bool :=
  let n := c.toNat
  (0xa ≤ n && n ≤ 0xd) || (0x1c ≤ n && n ≤ 0x1e) || n == 0x85 || n == 0x2028 || n == 0x2029

/-- Cuts a text into lines without their breaks; a carriage return and the newline after it are one
break, and a break at the very end opens no further line. -/
def splitLines : List Char → List (List Char)
  | [] => []
  | '\r' :: '\n' :: rest => [] :: splitLines rest
  | c :: rest =>
    if isLineBreak c then [] :: splitLines rest
    else
      match splitLines rest with
      | [] => [[c]]
      | line :: lines =>
        (c :: line) :: lines
termination_by s => s.length

/-- Reads every carriage return, and every pair of one and a newline, as a newline. -/
def normalizeNewlines : List Char → List Char
  | [] => []
  | '\r' :: '\n' :: rest => '\n' :: normalizeNewlines rest
  | '\r' :: rest => '\n' :: normalizeNewlines rest
  | c :: rest => c :: normalizeNewlines rest

def indentation (line : List Char) : Nat := (line.takeWhile isBlank).length

end CodeAtlas.Text
