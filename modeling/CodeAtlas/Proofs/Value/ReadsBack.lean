import CodeAtlas.Proofs.Graph.Change
import CodeAtlas.Value.Document
import CodeAtlas.Value.Parse

/-! Whether a value is read back from the document that it is written to. The document is taken as characters,
which is how it is read; then the question can be settled by computation. -/

namespace CodeAtlas

namespace Document

variable {style : DocumentStyle}

def scalarChars (style : DocumentStyle) : Scalar → List Char
  | .text s => '"' :: s.toList.flatMap (escapeChar style.asciiOnly) ++ ['"']
  | s => (writeScalar style s).toList

def keyChars (style : DocumentStyle) : Scalar → List Char
  | .text s => scalarChars style (.text s)
  | s => '"' :: scalarChars style s ++ ['"']

def breakChars (style : DocumentStyle) (depth : Nat) : List Char :=
  match style.indent with
  | none => []
  | some n => '\n' :: List.replicate (n * depth) ' '

def bracketChars (style : DocumentStyle) (depth : Nat) (opening closing : String)
    (parts : List (List Char)) : List Char :=
  if parts.isEmpty then opening.toList ++ closing.toList
  else
    opening.toList ++ breakChars style (depth + 1) ++
      List.intercalate (',' :: breakChars style (depth + 1)) parts ++
      breakChars style depth ++ closing.toList

mutual

def charsAt (style : DocumentStyle) (depth : Nat) : Value → List Char
  | .scalar s => scalarChars style s
  | .list items => bracketChars style depth "[" "]" (itemChars style (depth + 1) items)
  | .object entries => bracketChars style depth "\x7b" "\x7d" (entryChars style (depth + 1) entries)

def itemChars (style : DocumentStyle) (depth : Nat) : List Value → List (List Char)
  | [] => []
  | v :: rest => charsAt style depth v :: itemChars style depth rest

def entryChars (style : DocumentStyle) (depth : Nat) : List (Scalar × Value) → List (List Char)
  | [] => []
  | (k, v) :: rest =>
    (keyChars style k ++ style.colon.toList ++ charsAt style depth v) :: entryChars style depth rest

end

theorem toList_writeScalar (s : Scalar) : (writeScalar style s).toList = scalarChars style s := by
  cases s with
  | text s => exact String.toList_ofList
  | _ => rfl

theorem toList_writeKey (k : Scalar) : (writeKey style k).toList = keyChars style k := by
  cases k with
  | text s => exact toList_writeScalar (.text s)
  | _ => simp [writeKey, keyChars, String.toList_append, toList_writeScalar]

theorem toList_lineBreak (depth : Nat) : (lineBreak style depth).toList = breakChars style depth := by
  unfold lineBreak breakChars
  cases style.indent <;> simp [String.toList_append, String.toList_ofList]

theorem toList_bracket {depth : Nat} {opening closing : String} {parts : List String} :
    (bracket style depth opening closing parts).toList =
      bracketChars style depth opening closing (parts.map String.toList) := by
  unfold bracket bracketChars
  rw [List.isEmpty_map]
  split
  · exact String.toList_append
  · simp [String.toList_append, String.toList_intercalate, toList_lineBreak]

mutual

theorem toList_writeAt (depth : Nat) (v : Value) : (writeAt style depth v).toList = charsAt style depth v := by
  cases v with
  | scalar s => exact toList_writeScalar s
  | list items =>
    rw [writeAt, charsAt, ← map_writeItems]
    exact toList_bracket
  | object entries =>
    rw [writeAt, charsAt, ← map_writeEntries]
    exact toList_bracket

theorem map_writeItems (depth : Nat) (items : List Value) :
    (writeItems style depth items).map String.toList = itemChars style depth items := by
  cases items with
  | nil => rfl
  | cons v rest =>
    rw [writeItems, itemChars, List.map_cons, toList_writeAt depth v, map_writeItems depth rest]

theorem map_writeEntries (depth : Nat) (entries : List (Scalar × Value)) :
    (writeEntries style depth entries).map String.toList = entryChars style depth entries := by
  cases entries with
  | nil => rfl
  | cons e rest =>
    obtain ⟨k, v⟩ := e
    rw [writeEntries, entryChars, List.map_cons, String.toList_append, String.toList_append,
      toList_writeKey, toList_writeAt depth v, map_writeEntries depth rest]

end

def parseChars (s : List Char) : Checked Value := do
  let (v, rest) ← readValue (2 * s.length + 2) (skipSpace s)
  if (skipSpace rest).isEmpty then return v else throw .badDocument

end Document

namespace Value

mutual

/-- Whether two values are one and the same, down to the order of fields. -/
def identical : Value → Value → Bool
  | .scalar a, .scalar b => a = b
  | .list as, .list bs => identicalItems as bs
  | .object as, .object bs => identicalEntries as bs
  | _, _ => false

def identicalItems : List Value → List Value → Bool
  | [], [] => true
  | a :: as, b :: bs => identical a b && identicalItems as bs
  | _, _ => false

def identicalEntries : List (Scalar × Value) → List (Scalar × Value) → Bool
  | [], [] => true
  | (k, v) :: as, (l, w) :: bs => k = l && identical v w && identicalEntries as bs
  | _, _ => false

end

mutual

theorem eq_of_identical (v w : Value) (h : v.identical w = true) : v = w := by
  match v, w, h with
  | .scalar a, .scalar b, h =>
    rw [identical, decide_eq_true_eq] at h
    rw [h]
  | .list as, .list bs, h =>
    rw [identical] at h
    rw [eq_of_identicalItems as bs h]
  | .object as, .object bs, h =>
    rw [identical] at h
    rw [eq_of_identicalEntries as bs h]

theorem eq_of_identicalItems (vs ws : List Value) (h : identicalItems vs ws = true) : vs = ws := by
  match vs, ws, h with
  | [], [], _ => rfl
  | v :: vs, w :: ws, h =>
    rw [identicalItems, Bool.and_eq_true] at h
    rw [eq_of_identical v w h.1, eq_of_identicalItems vs ws h.2]

theorem eq_of_identicalEntries (as bs : List (Scalar × Value)) (h : identicalEntries as bs = true) :
    as = bs := by
  match as, bs, h with
  | [], [], _ => rfl
  | (k, v) :: as, (l, w) :: bs, h =>
    rw [identicalEntries, Bool.and_eq_true, Bool.and_eq_true, decide_eq_true_eq] at h
    rw [h.1.1, eq_of_identical v w h.1.2, eq_of_identicalEntries as bs h.2]

end

def readsBack (style : DocumentStyle) (v : Value) : Bool :=
  match Document.parseChars (Document.charsAt style 0 v) with
  | .ok w => w.identical v
  | .error _ => false

theorem parse_write_of_readsBack {style : DocumentStyle} {v : Value} (h : v.readsBack style = true) :
    Value.parse (v.write style) = .ok v := by
  have hchars : Value.parse (v.write style) = Document.parseChars (Document.charsAt style 0 v) := by
    rw [← Document.toList_writeAt]
    rfl
  rw [hchars]
  unfold readsBack at h
  split at h
  · rename_i w hw
    rw [hw, eq_of_identical w v h]
  · cases h

end Value

end CodeAtlas
