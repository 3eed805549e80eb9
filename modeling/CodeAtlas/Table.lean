import CodeAtlas.Value.Basic

/-! Tables in insertion order. No two keys of a table are the same; writing under a key that is there
keeps its place and its spelling. -/

namespace CodeAtlas

/-- Writes `v` under `key`: in place if the key is there, at the end if not. -/
def writeEntry {α : Type} (key : Scalar) (v : α) : List (Scalar × α) → List (Scalar × α)
  | [] => [(key, v)]
  | e :: rest =>
    if e.1.canon = key.canon then (e.1, v) :: rest else e :: writeEntry key v rest

/-- Every key of a written list is an old key or the one written. -/
theorem canon_mem_writeEntry {α : Type} {key : Scalar} {v : α} {es : List (Scalar × α)}
    {e : Scalar × α} (h : e ∈ writeEntry key v es) :
    e.1.canon = key.canon ∨ ∃ e' ∈ es, e'.1 = e.1 := by
  induction es with
  | nil =>
    simp only [writeEntry, List.mem_singleton] at h
    exact Or.inl (by rw [h])
  | cons a rest ih =>
    rw [writeEntry] at h
    split at h
    · rename_i hk
      rcases List.mem_cons.1 h with rfl | h
      · exact Or.inl hk
      · exact Or.inr ⟨e, List.mem_cons_of_mem _ h, rfl⟩
    · rcases List.mem_cons.1 h with rfl | h
      · exact Or.inr ⟨e, List.mem_cons_self, rfl⟩
      · rcases ih h with h | ⟨e', he', h⟩
        · exact Or.inl h
        · exact Or.inr ⟨e', List.mem_cons_of_mem _ he', h⟩

def DistinctKeys {α : Type} (es : List (Scalar × α)) : Prop :=
  es.Pairwise fun a b => a.1.canon ≠ b.1.canon

theorem DistinctKeys.writeEntry {α : Type} {key : Scalar} {v : α} {es : List (Scalar × α)}
    (h : DistinctKeys es) : DistinctKeys (writeEntry key v es) := by
  induction es with
  | nil => exact List.pairwise_singleton _ _
  | cons a rest ih =>
    have hrest := (List.pairwise_cons.1 h).2
    have ha := (List.pairwise_cons.1 h).1
    rw [CodeAtlas.writeEntry]
    split
    · exact List.pairwise_cons.2 ⟨ha, hrest⟩
    · rename_i hk
      refine List.pairwise_cons.2 ⟨fun b hb => ?_, ih hrest⟩
      rcases canon_mem_writeEntry hb with hb | ⟨b', hb', hb⟩
      · exact hb ▸ hk
      · exact hb ▸ ha b' hb'

/-- A table from keys to values of type `α`. -/
structure Table (α : Type) where
  entries : List (Scalar × α)
  distinct : DistinctKeys entries

namespace Table

variable {α : Type}

def empty : Table α := ⟨[], List.Pairwise.nil⟩

instance : Inhabited (Table α) := ⟨empty⟩

instance : EmptyCollection (Table α) := ⟨empty⟩

def size (t : Table α) : Nat := t.entries.length

def keys (t : Table α) : List Scalar := t.entries.map Prod.fst

def values (t : Table α) : List α := t.entries.map Prod.snd

def get? (t : Table α) (key : Scalar) : Option α := lookup? key t.entries

def contains (t : Table α) (key : Scalar) : Bool := (t.get? key).isSome

def insert (t : Table α) (key : Scalar) (v : α) : Table α :=
  ⟨writeEntry key v t.entries, t.distinct.writeEntry⟩

def insertNew (t : Table α) (key : Scalar) (v : α) : Table α :=
  if t.contains key then t else t.insert key v

def erase (t : Table α) (key : Scalar) : Table α :=
  ⟨t.entries.filter fun e => e.1.canon ≠ key.canon, t.distinct.filter _⟩

def modify (t : Table α) (key : Scalar) (f : α → α) : Table α :=
  match t.get? key with
  | some v => t.insert key (f v)
  | none => t

def ofList (es : List (Scalar × α)) : Table α :=
  es.foldl (fun t e => t.insert e.1 e.2) empty

end Table

theorem canon_eq_of_lookup? {α : Type} {key : Scalar} {es : List (Scalar × α)} {v : α}
    (h : lookup? key es = some v) : ∃ e ∈ es, e.1.canon = key.canon ∧ e.2 = v := by
  induction es with
  | nil => simp [lookup?] at h
  | cons a rest ih =>
    rw [lookup?] at h
    split at h
    · rename_i hk
      exact ⟨a, List.mem_cons_self, hk, by simpa using h⟩
    · obtain ⟨e, he, h⟩ := ih h
      exact ⟨e, List.mem_cons_of_mem _ he, h⟩

theorem Table.exists_key_of_get? {α : Type} {t : Table α} {key : Scalar} {v : α}
    (h : t.get? key = some v) : ∃ k ∈ t.keys, k.canon = key.canon := by
  obtain ⟨e, he, hk, -⟩ := canon_eq_of_lookup? h
  exact ⟨e.1, List.mem_map_of_mem he, hk⟩

theorem Table.mem_values_of_get? {α : Type} {t : Table α} {key : Scalar} {v : α}
    (h : t.get? key = some v) : v ∈ t.values := by
  obtain ⟨e, he, -, rfl⟩ := canon_eq_of_lookup? h
  exact List.mem_map_of_mem he

theorem lookup?_writeEntry {α : Type} {key k : Scalar} {v : α} {es : List (Scalar × α)} :
    lookup? k (writeEntry key v es) = if key.canon = k.canon then some v else lookup? k es := by
  induction es with
  | nil => rfl
  | cons a rest ih =>
    rw [writeEntry]
    by_cases hk : a.1.canon = key.canon
    · rw [if_pos hk, lookup?, hk]
      by_cases h : key.canon = k.canon
      · rw [if_pos h, if_pos h]
      · rw [if_neg h, if_neg h, lookup?, hk, if_neg h]
    · rw [if_neg hk, lookup?]
      by_cases h : a.1.canon = k.canon
      · have hne : ¬ key.canon = k.canon := fun h' => hk (h.trans h'.symm)
        rw [if_pos h, if_neg hne, lookup?, if_pos h]
      · rw [if_neg h, ih, lookup?, if_neg h]

theorem map_fst_writeEntry {α : Type} {key : Scalar} {v : α} {es : List (Scalar × α)} :
    (writeEntry key v es).map Prod.fst =
      if (lookup? key es).isSome then es.map Prod.fst else es.map Prod.fst ++ [key] := by
  induction es with
  | nil => rfl
  | cons a rest ih =>
    rw [writeEntry, lookup?]
    by_cases hk : a.1.canon = key.canon
    · rw [if_pos hk, if_pos hk]
      rfl
    · rw [if_neg hk, if_neg hk, List.map_cons, ih]
      split <;> rfl

namespace Table

variable {α : Type} {t : Table α} {key k : Scalar} {v : α}

@[simp] theorem get?_empty : (∅ : Table α).get? k = none := rfl

/-- What is written under a key is found under it, and nothing else changes. -/
theorem get?_insert :
    (t.insert key v).get? k = if key.canon = k.canon then some v else t.get? k :=
  lookup?_writeEntry

theorem keys_insert :
    (t.insert key v).keys = if t.contains key then t.keys else t.keys ++ [key] :=
  map_fst_writeEntry

theorem contains_insert :
    (t.insert key v).contains k = (decide (key.canon = k.canon) || t.contains k) := by
  rw [contains, get?_insert]
  by_cases h : key.canon = k.canon
  · rw [if_pos h, decide_eq_true h]
    rfl
  · rw [if_neg h, decide_eq_false h]
    rfl

end Table

/-- A set of keys in the order they came. -/
abbrev KeySet := Table Unit

namespace KeySet

def add (s : KeySet) (key : Scalar) : KeySet := Table.insert s key ()

def ofList (keys : List Scalar) : KeySet := keys.foldl add Table.empty

end KeySet

end CodeAtlas
