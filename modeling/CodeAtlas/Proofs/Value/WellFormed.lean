import CodeAtlas.Proofs.Table
import CodeAtlas.Proofs.Value.Contained
import CodeAtlas.Value.Access
import CodeAtlas.Value.Parse
import Mathlib.Data.List.Perm.Subperm

/-! Values in which no object has a key twice. Every value that a document holds is one, and among them equality
does not depend on which value comes first: as many entries, each of which is in another object, are all that the
other holds. -/

namespace CodeAtlas

namespace Table

variable {α : Type} {P : α → Prop}

theorem forall_values_insert {t : Table α} {k : Scalar} {v : α} (ht : ∀ w ∈ t.values, P w) (hv : P v) :
    ∀ w ∈ (t.insert k v).values, P w := by
  intro w hw
  obtain ⟨k', hk'⟩ := mem_values_iff.1 hw
  rw [get?_insert] at hk'
  split at hk'
  · cases hk'
    exact hv
  · exact ht w (mem_values_of_get? hk')

theorem forall_values_ofList {es : List (Scalar × α)} (h : ∀ e ∈ es, P e.2) :
    ∀ w ∈ (ofList es).values, P w :=
  List.foldlRecOn (motive := fun t : Table α => ∀ w ∈ t.values, P w) es _
    (fun _ hw => absurd hw List.not_mem_nil)
    fun _ ht e he => forall_values_insert ht (h e he)

end Table

namespace Value

/-- Whether no object in a value has a key twice, as it is with every value that a document can hold. -/
inductive WellFormed : Value → Prop where
  | scalar (s : Scalar) : WellFormed (.scalar s)
  | list (items : List Value) (h : ∀ v ∈ items, WellFormed v) : WellFormed (.list items)
  | object (entries : List (Scalar × Value)) (hkeys : DistinctKeys entries)
    (h : ∀ e ∈ entries, WellFormed e.2) : WellFormed (.object entries)

theorem WellFormed.of_mem_elements {v : Value} {vs : List Value} (hv : v.WellFormed)
    (h : v.elements = .ok vs) : ∀ w ∈ vs, w.WellFormed := by
  cases hv with
  | scalar s =>
    cases s with
    | text s =>
      cases h
      intro w hw
      obtain ⟨c, -, rfl⟩ := List.mem_map.1 hw
      exact .scalar _
    | _ => cases h
  | list items hitems =>
    cases h
    exact hitems
  | object entries hkeys hentries =>
    cases h
    intro w hw
    obtain ⟨e, -, rfl⟩ := List.mem_map.1 hw
    exact .scalar _

end Value

section Reading

def Gives {α : Type} (P : α → Prop) (x : Checked α) : Prop := ∀ a, x = .ok a → P a

variable {α β : Type} {P : α → Prop} {Q : β → Prop}

theorem Gives.ok {a : α} (h : P a) : Gives P (.ok a) := by
  rintro _ ⟨⟩
  exact h

theorem Gives.error {e : Fault} : Gives P (.error e) := by
  rintro _ ⟨⟩

theorem Gives.bind {x : Checked α} {f : α → Checked β} (hx : Gives P x) (hf : ∀ a, P a → Gives Q (f a)) :
    Gives Q (x >>= f) := by
  intro b hb
  obtain ⟨a, ha, hb⟩ := Except.bind_eq_ok.1 hb
  exact hf a (hx a ha) b hb

namespace Document

theorem readMagnitude_gives (negative : Bool) (s : List Char) :
    Gives (·.1.WellFormed) (readMagnitude negative s) := by
  unfold readMagnitude
  extract_lets digits
  split
  · exact .error
  · simp only
    split
    · split
      · exact .error
      · exact .ok (.scalar _)
    · exact .ok (.scalar _)

theorem readAtom_gives (s : List Char) : Gives (·.1.WellFormed) (readAtom s) := by
  unfold readAtom
  split
  · rename_i v rest h
    obtain ⟨l, hl, h⟩ := List.exists_of_findSome?_eq_some h
    obtain ⟨rest', -, h⟩ := Option.map_eq_some_iff.1 h
    cases h
    have hscalars : ∀ l ∈ literals, ∃ s, l.2 = .scalar s := by simp [literals]
    obtain ⟨s, hs⟩ := hscalars l hl
    exact .ok (hs ▸ .scalar s)
  · split <;> exact readMagnitude_gives _ _

/-- Objects are read as tables, so a value that is read is well formed, as are its items and fields. -/
theorem readers_give (n : Nat) :
    (∀ s, Gives (·.1.WellFormed) (readValue n s)) ∧
    (∀ s, Gives (fun read => ∀ v ∈ read.1, v.WellFormed) (readItems n s)) ∧
    ∀ s, Gives (fun read => ∀ e ∈ read.1, e.2.WellFormed) (readFields n s) := by
  induction n with
  | zero => exact ⟨fun _ => .error, fun _ => .error, fun _ => .error⟩
  | succ n ih =>
    obtain ⟨hvalue, hitems, hfields⟩ := ih
    refine ⟨fun s => ?_, fun s => ?_, fun s => ?_⟩
    · unfold readValue
      split
      · exact .bind (fun _ _ => trivial) fun _ _ => .ok (.scalar _)
      · split
        · exact .ok (.list [] (by simp))
        · exact .bind (hitems _) fun read h => .ok (.list read.1 h)
      · split
        · exact .ok (.object [] List.Pairwise.nil (by simp))
        · refine .bind (hfields _) fun read h => .ok (.object _ (Table.distinct _) fun e he => ?_)
          exact Table.forall_values_ofList h e.2 (List.mem_map_of_mem he)
      · exact readAtom_gives s
    · unfold readItems
      refine .bind (hvalue _) fun read h => ?_
      simp only
      split
      · exact .bind (hitems _) fun _ hrest => .ok (List.forall_mem_cons.2 ⟨h, hrest⟩)
      · exact .ok (by simpa using h)
      · exact .error
    · unfold readFields
      split
      · refine .bind (fun _ _ => trivial) fun name _ => ?_
        simp only
        split
        · refine .bind (hvalue _) fun read h => ?_
          split
          · exact .bind (hfields _) fun _ hrest => .ok (List.forall_mem_cons.2 ⟨h, hrest⟩)
          · exact .ok (by simpa using h)
          · exact .error
        · exact .error
      · exact .error

end Document

theorem Value.wellFormed_parse (text : String) : Gives WellFormed (Value.parse text) := by
  refine .bind ((Document.readers_give _).1 _) fun read h => ?_
  simp only
  split
  · exact .ok h
  · exact .error

end Reading

namespace Value

theorem sameEntries_iff {as bs : List (Scalar × Value)} :
    sameEntries as bs = true ↔ ∀ e ∈ as, ∃ w, lookup? e.1 bs = some w ∧ same e.2 w = true := by
  induction as with
  | nil => simp [sameEntries]
  | cons e rest ih =>
    obtain ⟨k, v⟩ := e
    rw [sameEntries, Bool.and_eq_true, ih, List.forall_mem_cons]
    refine and_congr_left fun _ => ?_
    cases lookup? k bs <;> simp

/-- As many entries, each of which is in another object, are all that the other holds. -/
theorem sameEntries_symm {as bs : List (Scalar × Value)} (ha : DistinctKeys as) (hb : DistinctKeys bs)
    (hlength : as.length = bs.length)
    (hsymm : ∀ e ∈ as, ∀ f ∈ bs, same e.2 f.2 = true → same f.2 e.2 = true)
    (h : sameEntries as bs = true) : sameEntries bs as = true := by
  have hnodup : ∀ {es : List (Scalar × Value)}, DistinctKeys es → (es.map (·.1.canon)).Nodup :=
    fun hes => List.pairwise_map.2 hes
  have hkeys : as.map (·.1.canon) ⊆ bs.map (·.1.canon) := by
    intro k hk
    obtain ⟨e, he, rfl⟩ := List.mem_map.1 hk
    obtain ⟨w, hw, -⟩ := sameEntries_iff.1 h e he
    obtain ⟨f, hf, hcanon, -⟩ := canon_eq_of_lookup? hw
    exact List.mem_map.2 ⟨f, hf, hcanon⟩
  have hperm := ((hnodup ha).subperm hkeys).perm_of_length_le (by simp [hlength])
  rw [sameEntries_iff]
  intro f hf
  obtain ⟨e, he, hcanon⟩ := List.mem_map.1 (hperm.mem_iff.2 (List.mem_map_of_mem hf))
  obtain ⟨w, hw, hsame⟩ := sameEntries_iff.1 h e he
  rw [lookup?_congr hcanon, lookup?_of_mem hb hf] at hw
  cases hw
  refine ⟨e.2, ?_, hsymm e he f hf hsame⟩
  rw [← lookup?_congr hcanon, lookup?_of_mem ha he]

theorem sameItems_comm {as bs : List Value} (h : ∀ v ∈ as, ∀ w ∈ bs, same v w = same w v) :
    sameItems as bs = sameItems bs as := by
  induction as generalizing bs with
  | nil => cases bs <;> rfl
  | cons v rest ih =>
    cases bs with
    | nil => rfl
    | cons w bs =>
      obtain ⟨hv, hrest⟩ := List.forall_mem_cons.1 h
      rw [sameItems, sameItems, hv w List.mem_cons_self,
        ih fun v' hv' w' hw' => hrest v' hv' w' (List.mem_cons_of_mem _ hw')]

/-- Equality of values does not depend on which comes first. -/
theorem same_comm {v w : Value} (hv : v.WellFormed) (hw : w.WellFormed) : v.same w = w.same v := by
  induction hv generalizing w with
  | scalar s =>
    cases hw with
    | scalar t => simp [same, Scalar.same, eq_comm]
    | list => rfl
    | object => rfl
  | list items _ ih =>
    cases hw with
    | scalar => rfl
    | list items' h' =>
      rw [same, same]
      exact sameItems_comm fun v hv w hw => ih v hv (h' w hw)
    | object => rfl
  | object entries hkeys _ ih =>
    cases hw with
    | scalar => rfl
    | list => rfl
    | object entries' hkeys' h' =>
      rw [same, same, Bool.eq_iff_iff, Bool.and_eq_true, Bool.and_eq_true, beq_iff_eq, beq_iff_eq]
      constructor
      · rintro ⟨hlength, h⟩
        refine ⟨hlength.symm, sameEntries_symm hkeys hkeys' hlength (fun e he f hf hsame => ?_) h⟩
        exact ih e he (h' f hf) ▸ hsame
      · rintro ⟨hlength, h⟩
        refine ⟨hlength.symm, sameEntries_symm hkeys' hkeys hlength (fun f hf e he hsame => ?_) h⟩
        exact (ih e he (h' f hf)).symm ▸ hsame

end Value

end CodeAtlas
