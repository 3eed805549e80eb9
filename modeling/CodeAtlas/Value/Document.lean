import CodeAtlas.Decimal.Layout
import CodeAtlas.Text.Quoted
import CodeAtlas.Value.Basic

/-! Writing a value as a JSON document, compactly or one part to a line. -/

namespace CodeAtlas

/-- How a document is laid out: the depth of one indentation step (none for a document on one line),
what separates a key from its value, and whether characters beyond ASCII are escaped. -/
structure DocumentStyle where
  indent : Option Nat
  colon : String
  asciiOnly : Bool

def DocumentStyle.compact : DocumentStyle := ⟨none, ":", true⟩

def DocumentStyle.readable : DocumentStyle := ⟨some 2, ": ", false⟩

namespace Document

open CodeAtlas.Text

def unicodeEscape (n : Nat) : List Char := '\\' :: 'u' :: hexDigits 4 n

/-- One character inside a string. A character beyond sixteen bits is escaped as two surrogates. -/
def escapeChar (asciiOnly : Bool) (c : Char) : List Char :=
  if c = '"' then ['\\', '"']
  else if c = '\\' then ['\\', '\\']
  else if c = '\n' then ['\\', 'n']
  else if c = '\r' then ['\\', 'r']
  else if c = '\t' then ['\\', 't']
  else if c.toNat = 0x8 then ['\\', 'b']
  else if c.toNat = 0xc then ['\\', 'f']
  else if c.toNat < 0x20 then unicodeEscape c.toNat
  else if !asciiOnly || c.toNat < 0x7f then [c]
  else if c.toNat < 0x10000 then unicodeEscape c.toNat
  else
    let n := c.toNat - 0x10000
    unicodeEscape (0xd800 + n / 0x400) ++ unicodeEscape (0xdc00 + n % 0x400)

def writeString (asciiOnly : Bool) (s : String) : String :=
  String.ofList ('"' :: s.toList.flatMap (escapeChar asciiOnly) ++ ['"'])

def writeScalar (style : DocumentStyle) : Scalar → String
  | .null => "null"
  | .bool true => "true"
  | .bool false => "false"
  | .int n => toString n
  | .float x => Decimal.Layout.document.write x
  | .text s => writeString style.asciiOnly s

def writeKey (style : DocumentStyle) : Scalar → String
  | .text s => writeString style.asciiOnly s
  | s => "\"" ++ writeScalar style s ++ "\""

def lineBreak (style : DocumentStyle) (depth : Nat) : String :=
  match style.indent with
  | none => ""
  | some n => "\n" ++ String.ofList (List.replicate (n * depth) ' ')

/-- The parts of a list or an object between its brackets. -/
def bracket (style : DocumentStyle) (depth : Nat) (opening closing : String)
    (parts : List String) : String :=
  if parts.isEmpty then opening ++ closing
  else
    opening ++ lineBreak style (depth + 1) ++
      String.intercalate ("," ++ lineBreak style (depth + 1)) parts ++
      lineBreak style depth ++ closing

mutual

def writeAt (style : DocumentStyle) (depth : Nat) : Value → String
  | .scalar s => writeScalar style s
  | .list items => bracket style depth "[" "]" (writeItems style (depth + 1) items)
  | .object entries => bracket style depth "\x7b" "\x7d" (writeEntries style (depth + 1) entries)

def writeItems (style : DocumentStyle) (depth : Nat) : List Value → List String
  | [] => []
  | v :: rest => writeAt style depth v :: writeItems style depth rest

def writeEntries (style : DocumentStyle) (depth : Nat) : List (Scalar × Value) → List String
  | [] => []
  | (k, v) :: rest =>
    (writeKey style k ++ style.colon ++ writeAt style depth v) :: writeEntries style depth rest

end

end Document

def Value.write (style : DocumentStyle) (v : Value) : String := Document.writeAt style 0 v

end CodeAtlas
