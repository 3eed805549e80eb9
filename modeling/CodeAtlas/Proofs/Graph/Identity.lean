import CodeAtlas.Graph.Identity
import CodeAtlas.Graph.Kind

/-! What the texts behind ids determine. The word for a kind holds no colon, so the text of a node gives its
kind and identifier back, and the text of an edge its kind and what stands before it: two ids with an arrow
between them. Ids made of content all have the same length, so it gives them back too; other ids may hold
an arrow themselves. What is left to trust is the digest. -/

namespace CodeAtlas

theorem Text.length_hexDigits (width n : Nat) : (Text.hexDigits width n).length = width := by
  induction width generalizing n with
  | zero => rfl
  | succ width ih =>
    rw [Text.hexDigits, List.length_append, ih, List.length_singleton]

theorem length_contentId (text : String) : (contentId text).toList.length = idLength := by
  unfold contentId
  rw [String.toList_ofList, List.length_take]
  simp [Digest.Words.toList, Text.length_hexDigits, idLength]

theorem NodeKind.name_injective {k k' : NodeKind} (h : k.name = k'.name) : k = k' := by
  have hk := ofName?_name k
  rw [h, ofName?_name] at hk
  exact (Option.some.inj hk).symm

theorem RelationKind.name_injective {k k' : RelationKind} (h : k.name = k'.name) : k = k' := by
  have hk := ofName?_name k
  rw [h, ofName?_name] at hk
  exact (Option.some.inj hk).symm

theorem NodeKind.colon_notMem_name (k : NodeKind) : ':' ∉ k.name.toList := by
  cases k <;> decide

theorem RelationKind.colon_notMem_name (k : RelationKind) : ':' ∉ k.name.toList := by
  cases k <;> decide

/-- A list is cut at the first place where a separator stands. -/
theorem append_cons_inj_of_notMem {α : Type} {c : α} {as as' bs bs' : List α} (h : c ∉ as)
    (h' : c ∉ as') (heq : as ++ c :: bs = as' ++ c :: bs') : as = as' ∧ bs = bs' := by
  induction as generalizing as' with
  | nil =>
    cases as' with
    | nil => exact ⟨rfl, (List.cons.inj heq).2⟩
    | cons a' rest' =>
      have hhead := (List.cons.inj heq).1
      exact absurd (hhead ▸ List.mem_cons_self) h'
  | cons a rest ih =>
    cases as' with
    | nil =>
      have hhead := (List.cons.inj heq).1
      exact absurd (hhead ▸ List.mem_cons_self) h
    | cons a' rest' =>
      obtain ⟨rfl, htail⟩ := List.cons.inj heq
      obtain ⟨rfl, hbs⟩ := ih (fun hc => h (List.mem_cons_of_mem _ hc))
        (fun hc => h' (List.mem_cons_of_mem _ hc)) htail
      exact ⟨rfl, hbs⟩

theorem nodeText_injective {k k' : NodeKind} {i i' : String}
    (h : nodeText k.name i = nodeText k'.name i') : k = k' ∧ i = i' := by
  have hlist : k.name.toList ++ ':' :: i.toList = k'.name.toList ++ ':' :: i'.toList := by
    have := congrArg String.toList h
    simpa [nodeText, String.toList_append] using this
  obtain ⟨hname, hi⟩ := append_cons_inj_of_notMem k.colon_notMem_name k'.colon_notMem_name hlist
  exact ⟨NodeKind.name_injective (String.toList_inj.1 hname), String.toList_inj.1 hi⟩

theorem append_cons_inj_of_notMem_right {α : Type} {c : α} {as as' bs bs' : List α} (h : c ∉ bs)
    (h' : c ∉ bs') (heq : as ++ c :: bs = as' ++ c :: bs') : as = as' ∧ bs = bs' := by
  have hrev : bs.reverse ++ c :: as.reverse = bs'.reverse ++ c :: as'.reverse := by
    simpa using congrArg List.reverse heq
  obtain ⟨hbs, has⟩ := append_cons_inj_of_notMem (by simpa using h) (by simpa using h') hrev
  exact ⟨List.reverse_inj.1 has, List.reverse_inj.1 hbs⟩

theorem arrow_cons_eq {as bs bs' : List Char} (h : '-' :: '>' :: bs = as ++ '-' :: '>' :: bs') :
    as = [] ∧ bs = bs' ∨ ∃ us, as = '-' :: '>' :: us ∧ bs = us ++ '-' :: '>' :: bs' := by
  match as with
  | [] => exact Or.inl ⟨rfl, by simpa using h⟩
  | [_] => simp at h
  | _ :: _ :: us =>
    simp only [List.cons_append, List.cons.injEq] at h
    obtain ⟨rfl, rfl, rfl⟩ := h
    exact Or.inr ⟨us, rfl, rfl⟩

/-- Whether two pairs of ids are one text with an arrow in two places: the source of the second goes on
behind the arrow that ends the source of the first. -/
def Shifted (s t s' t' : String) : Prop := ∃ u, s' = s ++ "->" ++ u ∧ t = u ++ "->" ++ t'

theorem Shifted.length_lt {s t s' t' : String} (h : Shifted s t s' t') :
    s.toList.length < s'.toList.length ∧ t'.toList.length < t.toList.length := by
  obtain ⟨u, rfl, rfl⟩ := h
  simp only [String.toList_append, List.length_append, String.reduceToList, List.length_cons]
  omega

theorem toList_edgeText (s t k : String) :
    (edgeText s t k).toList = s.toList ++ '-' :: '>' :: (t.toList ++ ':' :: k.toList) := by
  simp [edgeText, String.toList_append]

/-- The text of an edge gives back the kind, and both ids but for where the arrow between them stands. -/
theorem edgeText_eq_iff {s s' t t' : String} {k k' : RelationKind} :
    edgeText s t k.name = edgeText s' t' k'.name ↔
      k = k' ∧ (s = s' ∧ t = t' ∨ Shifted s t s' t' ∨ Shifted s' t' s t) := by
  constructor
  · intro h
    have hlist : (s.toList ++ '-' :: '>' :: t.toList) ++ ':' :: k.name.toList =
        (s'.toList ++ '-' :: '>' :: t'.toList) ++ ':' :: k'.name.toList := by
      simpa [toList_edgeText] using congrArg String.toList h
    obtain ⟨hends, hname⟩ :=
      append_cons_inj_of_notMem_right k.colon_notMem_name k'.colon_notMem_name hlist
    refine ⟨RelationKind.name_injective (String.toList_inj.1 hname), ?_⟩
    -- one source begins with the other, and what it has more runs up to its own arrow
    rcases List.append_eq_append_iff.1 hends with ⟨as, hs, ht⟩ | ⟨as, hs, ht⟩
    · rcases arrow_cons_eq ht with ⟨rfl, hrest⟩ | ⟨us, rfl, hrest⟩
      · exact Or.inl ⟨String.toList_inj.1 (by simpa using hs.symm), String.toList_inj.1 hrest⟩
      · refine Or.inr (Or.inl ⟨String.ofList us, ?_, ?_⟩) <;> apply String.toList_inj.1
        · simpa using hs
        · simpa using hrest
    · rcases arrow_cons_eq ht with ⟨rfl, hrest⟩ | ⟨us, rfl, hrest⟩
      · exact Or.inl ⟨String.toList_inj.1 (by simpa using hs), String.toList_inj.1 hrest.symm⟩
      · refine Or.inr (Or.inr ⟨String.ofList us, ?_, ?_⟩) <;> apply String.toList_inj.1
        · simpa using hs
        · simpa using hrest
  · rintro ⟨rfl, ⟨rfl, rfl⟩ | ⟨u, rfl, rfl⟩ | ⟨u, rfl, rfl⟩⟩
    · rfl
    · simp [edgeText, String.append_assoc]
    · simp [edgeText, String.append_assoc]

theorem edgeText_injective {s s' t t' : String} {k k' : RelationKind}
    (hs : s.toList.length = s'.toList.length) (ht : t.toList.length = t'.toList.length)
    (h : edgeText s t k.name = edgeText s' t' k'.name) : s = s' ∧ t = t' ∧ k = k' := by
  obtain ⟨hkind, ⟨hsource, htarget⟩ | hshift | hshift⟩ := edgeText_eq_iff.1 h
  · exact ⟨hsource, htarget, hkind⟩
  · exact absurd hs (Nat.ne_of_lt hshift.length_lt.1)
  · exact absurd ht (Nat.ne_of_lt hshift.length_lt.2)

/-- No two of these texts have the same id. -/
def NoCollision (texts : List String) : Prop :=
  ∀ t ∈ texts, ∀ t' ∈ texts, contentId t = contentId t' → t = t'

instance (texts : List String) : Decidable (NoCollision texts) :=
  inferInstanceAs (Decidable (∀ t ∈ texts, ∀ t' ∈ texts, contentId t = contentId t' → t = t'))

end CodeAtlas
