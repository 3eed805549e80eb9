import CodeAtlas.Table
import Mathlib.Data.List.Forall2
import Mathlib.Data.List.Nodup

/-! What the operations of a table do to what is found under a key. Keys count as the same when their
canonical forms agree; for texts that is plain equality. -/

namespace CodeAtlas

section Lookup

variable {α : Type} {es : List (Scalar × α)}

theorem lookup?_congr {k k' : Scalar} (h : k.canon = k'.canon) : lookup? k es = lookup? k' es := by
  induction es with
  | nil => rfl
  | cons a rest ih => rw [lookup?, lookup?, h, ih]

theorem lookup?_of_mem {e : Scalar × α} (hd : DistinctKeys es) (he : e ∈ es) :
    lookup? e.1 es = some e.2 := by
  induction es with
  | nil => exact absurd he List.not_mem_nil
  | cons a rest ih =>
    have hrest := (List.pairwise_cons.1 hd).2
    rw [lookup?]
    rcases List.mem_cons.1 he with rfl | he
    · rw [if_pos rfl]
    · rw [if_neg ((List.pairwise_cons.1 hd).1 e he), ih hrest he]

theorem lookup?_filter {k key : Scalar} :
    lookup? k (es.filter fun e => e.1.canon ≠ key.canon) =
      if key.canon = k.canon then none else lookup? k es := by
  induction es with
  | nil => simp [lookup?]
  | cons a rest ih =>
    by_cases ha : a.1.canon = key.canon
    · rw [List.filter_cons_of_neg (by simp [ha]), ih, lookup?, ha]
      by_cases h : key.canon = k.canon
      · rw [if_pos h, if_pos h]
      · rw [if_neg h, if_neg h, if_neg h]
    · rw [List.filter_cons_of_pos (by simp [ha]), lookup?, ih, lookup?]
      by_cases h : key.canon = k.canon
      · rw [if_pos h, if_pos h, if_neg fun h' => ha (h'.trans h.symm)]
      · rw [if_neg h, if_neg h]

theorem writeEntry_of_forall_ne {key : Scalar} {v : α} (h : ∀ e ∈ es, e.1.canon ≠ key.canon) :
    writeEntry key v es = es ++ [(key, v)] := by
  induction es with
  | nil => rfl
  | cons a rest ih =>
    rw [writeEntry, if_neg (h a List.mem_cons_self),
      ih fun e he => h e (List.mem_cons_of_mem _ he), List.cons_append]

end Lookup

namespace Table

variable {α : Type} {t : Table α} {k k' key : Scalar} {v : α}

@[ext] theorem ext {t t' : Table α} (h : t.entries = t'.entries) : t = t' := by
  cases t
  cases t'
  cases h
  rfl

theorem get?_congr (h : k.canon = k'.canon) : t.get? k = t.get? k' := lookup?_congr h

theorem contains_congr (h : k.canon = k'.canon) : t.contains k = t.contains k' := by
  rw [contains, contains, get?_congr h]

theorem get?_of_mem {e : Scalar × α} (h : e ∈ t.entries) : t.get? e.1 = some e.2 :=
  lookup?_of_mem t.distinct h

theorem mem_of_get? (h : t.get? k = some v) : ∃ e ∈ t.entries, e.1.canon = k.canon ∧ e.2 = v :=
  canon_eq_of_lookup? h

theorem mem_values_iff : v ∈ t.values ↔ ∃ k, t.get? k = some v := by
  constructor
  · intro h
    obtain ⟨e, he, rfl⟩ := List.mem_map.1 h
    exact ⟨e.1, get?_of_mem he⟩
  · rintro ⟨k, h⟩
    exact mem_values_of_get? h

theorem contains_iff : t.contains k = true ↔ ∃ v, t.get? k = some v := Option.isSome_iff_exists

theorem contains_of_get? (h : t.get? k = some v) : t.contains k = true := contains_iff.2 ⟨v, h⟩

theorem contains_iff_mem : t.contains k = true ↔ ∃ k' ∈ t.keys, k'.canon = k.canon := by
  constructor
  · intro h
    obtain ⟨v, hv⟩ := contains_iff.1 h
    exact exists_key_of_get? hv
  · rintro ⟨k', hk', h⟩
    obtain ⟨e, he, rfl⟩ := List.mem_map.1 hk'
    rw [← contains_congr h]
    exact contains_of_get? (get?_of_mem he)

theorem contains_text_iff {s : String} : t.contains (.text s) = true ↔ Scalar.text s ∈ t.keys := by
  rw [contains_iff_mem]
  constructor
  · rintro ⟨k', hk', h⟩
    exact Scalar.canon_eq_text_iff.1 h ▸ hk'
  · exact fun h => ⟨_, h, rfl⟩

theorem contains_insert_self {v : α} : (t.insert k v).contains k = true := by
  rw [contains_insert, decide_eq_true rfl, Bool.true_or]

theorem contains_insert_of_contains {v : α} (h : t.contains k = true) :
    (t.insert key v).contains k = true := by
  rw [contains_insert, h, Bool.or_true]

theorem contains_eq_false_iff : t.contains k = false ↔ t.get? k = none := by
  simp [contains]

theorem get?_modify {f : α → α} :
    (t.modify key f).get? k = if key.canon = k.canon then (t.get? k).map f else t.get? k := by
  rw [modify]
  split
  · rename_i v hv
    rw [get?_insert]
    by_cases h : key.canon = k.canon
    · rw [if_pos h, if_pos h, ← get?_congr h, hv, Option.map_some]
    · rw [if_neg h, if_neg h]
  · rename_i hv
    by_cases h : key.canon = k.canon
    · rw [if_pos h, ← get?_congr h, hv, Option.map_none]
    · rw [if_neg h]

theorem keys_modify {f : α → α} : (t.modify key f).keys = t.keys := by
  rw [modify]
  split
  · rename_i v hv
    rw [keys_insert, if_pos (contains_of_get? hv)]
  · rfl

theorem contains_modify {f : α → α} : (t.modify key f).contains k = t.contains k := by
  rw [contains, get?_modify]
  split
  · rw [Option.isSome_map, contains]
  · rfl

theorem get?_erase : (t.erase key).get? k = if key.canon = k.canon then none else t.get? k :=
  lookup?_filter

theorem entries_insert_of_not_contains (h : t.contains key = false) :
    (t.insert key v).entries = t.entries ++ [(key, v)] := by
  refine writeEntry_of_forall_ne fun e he hk => ?_
  rw [contains_eq_false_iff, ← get?_congr hk, get?_of_mem he] at h
  exact absurd h (by simp)

theorem size_eq_length_keys : t.size = t.keys.length := by
  rw [size, keys, List.length_map]

theorem size_eq_length_values : t.size = t.values.length := by
  rw [size, values, List.length_map]

theorem size_insert : (t.insert key v).size = if t.contains key then t.size else t.size + 1 := by
  rw [size_eq_length_keys, keys_insert, size_eq_length_keys]
  split
  · rfl
  · rw [List.length_append, List.length_singleton]

theorem get?_insertNew :
    (t.insertNew key v).get? k =
      if t.contains key = false ∧ key.canon = k.canon then some v else t.get? k := by
  rw [insertNew]
  by_cases h : t.contains key = true
  · rw [if_pos h, if_neg (by simp [h])]
  · rw [if_neg h, get?_insert]
    simp [h]

/-- Keys are listed once: the canonical forms of a table's keys are pairwise different. -/
theorem nodup_keys : (t.keys.map Scalar.canon).Nodup := by
  have h : t.entries.Pairwise fun a b => a.1.canon ≠ b.1.canon := t.distinct
  rw [keys, List.map_map, List.Nodup, List.pairwise_map]
  exact h

theorem map_canon_of_keyed {id : α → Scalar} (h : ∀ k v, t.get? k = some v → (id v).canon = k.canon) :
    t.values.map (fun v => (id v).canon) = t.keys.map Scalar.canon := by
  rw [values, keys, List.map_map, List.map_map]
  exact List.map_congr_left fun e he => h e.1 e.2 (get?_of_mem he)

end Table

/-- Writing entries with new keys appends them in order. -/
theorem entries_foldl_insert {α : Type} {es : List (Scalar × α)} {t : Table α}
    (h : DistinctKeys (t.entries ++ es)) :
    (es.foldl (fun t e => t.insert e.1 e.2) t).entries = t.entries ++ es := by
  induction es generalizing t with
  | nil => simp
  | cons e rest ih =>
    have hnew : t.contains e.1 = false := by
      rw [Table.contains_eq_false_iff]
      cases hv : t.get? e.1 with
      | none => rfl
      | some v =>
        obtain ⟨e', he', hk, -⟩ := Table.mem_of_get? hv
        exact absurd hk ((List.pairwise_append.1 h).2.2 e' he' e List.mem_cons_self)
    have hins := Table.entries_insert_of_not_contains (v := e.2) hnew
    rw [List.foldl_cons, ih (by rw [hins]; simpa using h), hins]
    simp

theorem Table.entries_ofList {α : Type} {es : List (Scalar × α)} (h : DistinctKeys es) :
    (Table.ofList es).entries = es :=
  entries_foldl_insert (t := .empty) h

theorem Table.ofList_entries {α : Type} (t : Table α) : Table.ofList t.entries = t :=
  Table.ext (Table.entries_ofList t.distinct)

theorem KeySet.contains_add {s : KeySet} {key k : Scalar} :
    (s.add key).contains k = (decide (key.canon = k.canon) || s.contains k) :=
  Table.contains_insert

/-- A set has as many members as a list of different keys that holds the same keys. -/
theorem KeySet.size_eq_length {s : KeySet} {xs : List Scalar} (hxs : (xs.map Scalar.canon).Nodup)
    (h : ∀ k, s.contains k = true ↔ ∃ x ∈ xs, x.canon = k.canon) : s.size = xs.length := by
  have hsame : ∀ c, c ∈ s.keys.map Scalar.canon ↔ c ∈ xs.map Scalar.canon := by
    intro c
    rw [List.mem_map, List.mem_map]
    constructor
    · rintro ⟨k, hk, rfl⟩
      exact (h k).1 (Table.contains_iff_mem.2 ⟨k, hk, rfl⟩)
    · rintro ⟨x, hx, rfl⟩
      exact Table.contains_iff_mem.1 ((h x).2 ⟨x, hx, rfl⟩)
  have hlength := ((List.perm_ext_iff_of_nodup Table.nodup_keys hxs).2 hsame).length_eq
  rwa [List.length_map, List.length_map, ← Table.size_eq_length_keys] at hlength

theorem KeySet.mem_keys_add {s : KeySet} {key k : Scalar} (h : k ∈ (s.add key).keys) :
    k = key ∨ k ∈ s.keys := by
  rw [add, Table.keys_insert] at h
  split at h
  · exact Or.inr h
  · exact (List.mem_append.1 h).symm.imp_left List.mem_singleton.1

theorem KeySet.mem_keys_ofList {ks : List Scalar} {k : Scalar} (h : k ∈ (ofList ks).keys) : k ∈ ks := by
  have hfold : ∀ (ks : List Scalar) (s : KeySet), k ∈ (ks.foldl add s).keys → k ∈ ks ∨ k ∈ s.keys := by
    intro ks
    induction ks with
    | nil => exact fun s h => Or.inr h
    | cons key rest ih =>
      intro s h
      rcases ih _ h with h | h
      · exact Or.inl (List.mem_cons_of_mem _ h)
      · rcases mem_keys_add h with rfl | h
        · exact Or.inl List.mem_cons_self
        · exact Or.inr h
  exact (hfold ks .empty h).resolve_right List.not_mem_nil

theorem DistinctKeys.map {α β : Type} {f : α → β} {es : List (Scalar × α)} (h : DistinctKeys es) :
    DistinctKeys (es.map fun e => (e.1, f e.2)) := by
  unfold DistinctKeys
  rw [List.pairwise_map]
  exact h

def Table.mapValues {α β : Type} (f : α → β) (t : Table α) : Table β where
  entries := t.entries.map fun e => (e.1, f e.2)
  distinct := t.distinct.map

theorem Table.keys_mapValues {α β : Type} {f : α → β} {t : Table α} :
    (t.mapValues f).keys = t.keys := by
  simp [keys, mapValues, Function.comp_def]

theorem lookup?_map {α β : Type} {f : α → β} {k : Scalar} {es : List (Scalar × α)} :
    lookup? k (es.map fun e => (e.1, f e.2)) = (lookup? k es).map f := by
  induction es with
  | nil => rfl
  | cons e rest ih =>
    rw [List.map_cons, lookup?, lookup?, ih]
    split <;> rfl

theorem Table.get?_mapValues {α β : Type} {f : α → β} {t : Table α} {k : Scalar} :
    (t.mapValues f).get? k = (t.get? k).map f :=
  lookup?_map

theorem Table.filterMap_id_mapValues {α β : Type} {f : α → Option β} {t : Table α} :
    (t.mapValues f).values.filterMap id = t.values.filterMap f := by
  simp [values, mapValues, List.filterMap_map, Function.comp_def]

theorem exists_of_forall₂ {α β : Type} {R : α → β → Prop} {as : List α} {bs : List β}
    (h : List.Forall₂ R as bs) : ∀ a ∈ as, ∃ b ∈ bs, R a b := by
  induction h with
  | nil => exact fun a ha => absurd ha List.not_mem_nil
  | cons hab _ ih =>
    intro a ha
    rcases List.mem_cons.1 ha with rfl | ha
    · exact ⟨_, List.mem_cons_self, hab⟩
    · obtain ⟨b, hb, h⟩ := ih a ha
      exact ⟨b, List.mem_cons_of_mem _ hb, h⟩

/-- Tables with the same keys are related entry by entry if what they hold under one key is related. -/
theorem Table.forall₂_entries {α β : Type} {R : α → β → Prop} {t : Table α} {t' : Table β}
    (hkeys : t'.keys = t.keys)
    (hR : ∀ k v w, t.get? k = some v → t'.get? k = some w → R v w) :
    List.Forall₂ (fun p q => q.1 = p.1 ∧ R p.2 q.2) t.entries t'.entries := by
  have h : ∀ (es : List (Scalar × α)) (es' : List (Scalar × β)), (∀ p ∈ es, p ∈ t.entries) →
      (∀ q ∈ es', q ∈ t'.entries) → es'.map Prod.fst = es.map Prod.fst →
      List.Forall₂ (fun p q => q.1 = p.1 ∧ R p.2 q.2) es es' := by
    intro es
    induction es with
    | nil =>
      intro es' _ _ hfst
      rw [List.map_eq_nil_iff.1 hfst]
      exact List.Forall₂.nil
    | cons p rest ih =>
      intro es' hes hes' hfst
      cases es' with
      | nil => simp at hfst
      | cons q rest' =>
        obtain ⟨hpq, hrest⟩ := List.cons.inj hfst
        have hp := get?_of_mem (hes p List.mem_cons_self)
        have hq := get?_of_mem (hes' q List.mem_cons_self)
        refine List.Forall₂.cons ⟨hpq, hR p.1 p.2 q.2 hp (hpq ▸ hq)⟩ ?_
        exact ih rest' (fun p hp => hes p (List.mem_cons_of_mem _ hp))
          (fun q hq => hes' q (List.mem_cons_of_mem _ hq)) hrest
  exact h t.entries t'.entries (fun _ hp => hp) (fun _ hq => hq) hkeys

theorem exists_forall₂ {α β : Type} {R : α → β → Prop} {bs : List β} (h : ∀ b ∈ bs, ∃ a, R a b) :
    ∃ as, List.Forall₂ R as bs := by
  induction bs with
  | nil => exact ⟨[], List.Forall₂.nil⟩
  | cons b rest ih =>
    obtain ⟨a, ha⟩ := h b List.mem_cons_self
    obtain ⟨as, has⟩ := ih fun c hc => h c (List.mem_cons_of_mem _ hc)
    exact ⟨a :: as, List.Forall₂.cons ha has⟩

/-- If a table holds, under the text that names it, exactly one value for everything in `S`, then its values
correspond one to one to what is in `S`. -/
theorem Table.exists_listing {α β : Type} {t : Table β} {S : α → Prop} {R : α → β → Prop}
    (name : α → String) (hshown : ∀ k v, t.get? k = some v → ∃ a, S a ∧ k = .text (name a) ∧ R a v)
    (hthere : ∀ a, S a → t.contains (.text (name a)) = true)
    (hinj : ∀ a b, S a → S b → name a = name b → a = b) :
    ∃ as : List α, as.Nodup ∧ (∀ a, a ∈ as ↔ S a) ∧ List.Forall₂ R as t.values := by
  have hentry : ∀ p ∈ t.entries, ∃ a, p.1 = .text (name a) ∧ S a ∧ R a p.2 := by
    intro p hp
    obtain ⟨a, ha, hk, hr⟩ := hshown p.1 p.2 (get?_of_mem hp)
    exact ⟨a, hk, ha, hr⟩
  obtain ⟨as, has⟩ := exists_forall₂ hentry
  refine ⟨as, ?_, ?_, ?_⟩
  · -- the texts that name the listed things are the keys of the table
    have hnames : as.map (fun a => Scalar.text (name a)) = t.keys := by
      rw [keys, ← List.forall₂_eq_eq_eq, List.forall₂_map_left_iff, List.forall₂_map_right_iff]
      exact has.imp fun a p h => h.1.symm
    have hnodup : t.keys.Nodup := List.Nodup.of_map _ nodup_keys
    rw [← hnames] at hnodup
    exact List.Nodup.of_map _ hnodup
  · intro a
    constructor
    · intro ha
      obtain ⟨p, -, -, hs, -⟩ := exists_of_forall₂ has a ha
      exact hs
    · intro ha
      obtain ⟨v, hv⟩ := contains_iff.1 (hthere a ha)
      obtain ⟨p, hp, hk, -⟩ := mem_of_get? hv
      have hflip : List.Forall₂ (flip fun a p => p.1 = .text (name a) ∧ S a ∧ R a p.2) t.entries as :=
        List.Forall₂.flip has
      obtain ⟨b, hb, hkb, hsb, -⟩ := exists_of_forall₂ hflip p hp
      have hname : name b = name a := by
        rw [hkb] at hk
        exact Scalar.text.inj hk
      exact hinj b a hsb ha hname ▸ hb
  · rw [values, List.forall₂_map_right_iff]
    exact has.imp fun a p h => h.2.2

theorem Table.eq_of_get? {α : Type} {t t' : Table α} (hkeys : t'.keys = t.keys)
    (h : ∀ k v w, t.get? k = some v → t'.get? k = some w → w = v) : t' = t := by
  have hentries := Table.forall₂_entries (R := fun v w => w = v) hkeys h
  refine Table.ext (List.forall₂_eq_eq_eq ▸ hentries.flip.imp fun p q hpq => ?_)
  exact Prod.ext hpq.1 hpq.2

theorem Table.mapValues_eq_of_get? {α β : Type} {f : α → β} {t t' : Table α} (hkeys : t'.keys = t.keys)
    (h : ∀ k v, t.get? k = some v → ∃ w, t'.get? k = some w ∧ f w = f v) :
    t'.mapValues f = t.mapValues f := by
  refine eq_of_get? (by rw [keys_mapValues, keys_mapValues, hkeys]) fun k x y hx hy => ?_
  rw [get?_mapValues] at hx hy
  obtain ⟨v, hv, rfl⟩ := Option.map_eq_some_iff.1 hx
  obtain ⟨w, hw, rfl⟩ := Option.map_eq_some_iff.1 hy
  obtain ⟨w', hw', hsame⟩ := h k v hv
  cases hw.symm.trans hw'
  exact hsame

section WriteAll

variable {α β : Type} {t : Table α} {es : List (Scalar × α)} {k : Scalar} {v : α}

theorem lookup?_append {es' : List (Scalar × α)} :
    lookup? k (es ++ es') = (lookup? k es).or (lookup? k es') := by
  induction es with
  | nil => rfl
  | cons e rest ih =>
    rw [List.cons_append, lookup?, lookup?, ih]
    split <;> rfl

namespace Table

def writeAll (t : Table α) (es : List (Scalar × α)) : Table α :=
  es.foldl (fun t e => t.insert e.1 e.2) t

theorem get?_writeAll : (t.writeAll es).get? k = (lookup? k es.reverse).or (t.get? k) := by
  induction es generalizing t with
  | nil => rfl
  | cons e rest ih =>
    rw [writeAll, List.foldl_cons]
    refine ih.trans ?_
    rw [List.reverse_cons, lookup?_append, get?_insert, lookup?, lookup?]
    by_cases hk : e.1.canon = k.canon
    · rw [if_pos hk, if_pos hk]
      cases lookup? k rest.reverse <;> rfl
    · rw [if_neg hk, if_neg hk, Option.or_none]

theorem mem_of_get?_ofList (h : (ofList es).get? k = some v) : ∃ e ∈ es, e.1.canon = k.canon ∧ e.2 = v := by
  have hlast : (writeAll ∅ es).get? k = some v := h
  rw [get?_writeAll, get?_empty, Option.or_none] at hlast
  obtain ⟨e, he, hfound⟩ := canon_eq_of_lookup? hlast
  exact ⟨e, List.mem_reverse.1 he, hfound⟩

theorem contains_writeAll_of_contains (h : t.contains k = true) : (t.writeAll es).contains k = true := by
  induction es generalizing t with
  | nil => exact h
  | cons e rest ih => exact ih (contains_insert_of_contains h)

theorem contains_writeAll_of_mem {e : Scalar × α} (he : e ∈ es) : (t.writeAll es).contains e.1 = true := by
  induction es generalizing t with
  | nil => exact absurd he List.not_mem_nil
  | cons e' rest ih =>
    rcases List.mem_cons.1 he with rfl | he
    · exact contains_writeAll_of_contains (t := t.insert e.1 e.2) contains_insert_self
    · exact ih he

theorem keys_writeAll_of_contains (h : ∀ e ∈ es, t.contains e.1 = true) : (t.writeAll es).keys = t.keys := by
  induction es generalizing t with
  | nil => rfl
  | cons e rest ih =>
    have hrest : ∀ e' ∈ rest, (t.insert e.1 e.2).contains e'.1 = true :=
      fun e' he' => contains_insert_of_contains (h e' (List.mem_cons_of_mem _ he'))
    exact (ih hrest).trans (keys_insert.trans (if_pos (h e List.mem_cons_self)))

theorem writeAll_again : (t.writeAll es).writeAll es = t.writeAll es := by
  refine eq_of_get? (keys_writeAll_of_contains fun e he => contains_writeAll_of_mem he) ?_
  intro k v w hv hw
  rw [get?_writeAll] at hv hw
  rw [get?_writeAll] at hw
  cases hlast : lookup? k es.reverse with
  | none =>
    simp only [hlast, Option.none_or] at hv hw
    exact Option.some.inj (hw.symm.trans hv)
  | some x =>
    simp only [hlast, Option.some_or] at hv hw
    exact Option.some.inj (hw.symm.trans hv)

theorem mapValues_insert {f : α → β} : (t.insert k v).mapValues f = (t.mapValues f).insert k (f v) := by
  refine ext ?_
  have hentries : ∀ es : List (Scalar × α),
      (writeEntry k v es).map (fun e => (e.1, f e.2)) = writeEntry k (f v) (es.map fun e => (e.1, f e.2)) := by
    intro es
    induction es with
    | nil => rfl
    | cons e rest ih =>
      rw [writeEntry, List.map_cons, writeEntry]
      split
      · rfl
      · rw [List.map_cons, ih]
  exact hentries t.entries

/-- A value that a selection leaves out may be written without the selection noticing, if what stood under
its key is left out as well. -/
theorem filterMap_values_insert {f : α → Option β} (hv : f v = none)
    (hold : ∀ old, t.get? k = some old → f old = none) :
    (t.insert k v).values.filterMap f = t.values.filterMap f := by
  have hentries : ∀ es : List (Scalar × α), (∀ old, lookup? k es = some old → f old = none) →
      ((writeEntry k v es).map Prod.snd).filterMap f = (es.map Prod.snd).filterMap f := by
    intro es
    induction es with
    | nil => exact fun _ => by simp [writeEntry, hv]
    | cons e rest ih =>
      intro h
      rw [lookup?] at h
      rw [writeEntry]
      split
      · rename_i hk
        have he := h e.2 (if_pos hk)
        simp [hv, he]
      · rename_i hk
        rw [if_neg hk] at h
        rw [List.map_cons, List.map_cons, List.filterMap_cons, List.filterMap_cons, ih h]
  exact hentries t.entries hold

end Table

end WriteAll

end CodeAtlas
