import CodeAtlas.Digest.Sha256
import CodeAtlas.Text.Quoted

/-! Ids made from content: the front of the digest of a text that says what is identified. -/

namespace CodeAtlas

def idLength : Nat := 16

/-- The id of a text. A text is made of whole characters: half of a surrogate pair has no bytes to digest, and
a text with one has no id. -/
def contentId (text : String) : String :=
  let digest := (Digest.sha256 text.toUTF8.data.toList).toList.flatMap fun w => Text.hexDigits 8 w.toNat
  String.ofList (digest.take idLength)

def nodeText (kind identifier : String) : String := kind ++ ":" ++ identifier

def edgeText (source target kind : String) : String := source ++ "->" ++ target ++ ":" ++ kind

def nodeId (kind identifier : String) : String := contentId (nodeText kind identifier)

def edgeId (source target kind : String) : String := contentId (edgeText source target kind)

end CodeAtlas
