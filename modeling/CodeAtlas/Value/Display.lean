import CodeAtlas.Decimal.Layout
import CodeAtlas.Text.Quoted
import CodeAtlas.Value.Basic

/-! The readable text of a value: a text as it is, and quoted inside a list or an object. -/

namespace CodeAtlas

def Scalar.quoted : Scalar → String
  | .null => "None"
  | .bool true => "True"
  | .bool false => "False"
  | .int n => toString n
  | .float x => Decimal.Layout.plain.write x
  | .text s => Text.quote s

def Scalar.shown : Scalar → String
  | .text s => s
  | s => s.quoted

namespace Value

mutual

def quoted : Value → String
  | .scalar s => s.quoted
  | .list items => "[" ++ String.intercalate ", " (quotedItems items) ++ "]"
  | .object entries => "\x7b" ++ String.intercalate ", " (quotedEntries entries) ++ "\x7d"

def quotedItems : List Value → List String
  | [] => []
  | v :: rest => quoted v :: quotedItems rest

def quotedEntries : List (Scalar × Value) → List String
  | [] => []
  | (k, v) :: rest => (k.quoted ++ ": " ++ quoted v) :: quotedEntries rest

end

def shown : Value → String
  | .scalar s => s.shown
  | v => v.quoted

end Value

end CodeAtlas
