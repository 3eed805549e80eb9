import CodeAtlas.Grouping
import Mathlib.Algebra.GroupWithZero.Nat
import Mathlib.Data.List.Induction

/-! Order of first occurrence. Groups stand in the order in which their keys first occur and hold the items of their
keys in the order of the items; so no item is in two groups, and the sizes of the groups add up to the number
of items. -/

namespace CodeAtlas

/-- Whether keys stand in the order in which they first occur in a list, where all of them do occur. -/
structure FirstOrder {κ α : Type} (occurs : κ → α → Bool) (xs : List α) (ks : List κ) : Prop where
  present : ∀ k ∈ ks, ∃ x ∈ xs, occurs k x = true
  ordered : ks.Pairwise fun a b => xs.findIdx (occurs a) < xs.findIdx (occurs b)

namespace FirstOrder

variable {κ ι α β : Type} {occurs occurs' : κ → α → Bool} {xs : List α} {x : α} {ks ks' : List κ} {k : κ}

theorem nil : FirstOrder occurs xs [] where
  present _ hk := absurd hk List.not_mem_nil
  ordered := List.Pairwise.nil

theorem nodup (h : FirstOrder occurs xs ks) : ks.Nodup :=
  h.ordered.imp fun hlt heq => absurd (heq ▸ hlt) (Nat.lt_irrefl _)

theorem sublist (h : FirstOrder occurs xs ks) (hsub : ks'.Sublist ks) : FirstOrder occurs xs ks' where
  present k hk := h.present k (hsub.subset hk)
  ordered := h.ordered.sublist hsub

theorem congr (h : FirstOrder occurs xs ks) (hocc : ∀ k ∈ ks, occurs' k = occurs k) :
    FirstOrder occurs' xs ks where
  present k hk := hocc k hk ▸ h.present k hk
  ordered := h.ordered.imp_of_mem fun ha hb hlt => by rwa [hocc _ ha, hocc _ hb]

theorem of_map {f : ι → κ} {is : List ι} (h : FirstOrder occurs xs (is.map f)) :
    FirstOrder (fun i => occurs (f i)) xs is where
  present i hi := h.present (f i) (List.mem_map_of_mem hi)
  ordered := by
    have hordered := h.ordered
    rwa [List.pairwise_map] at hordered

theorem findIdx_append_item (hk : ∃ y ∈ xs, occurs k y = true) :
    (xs ++ [x]).findIdx (occurs k) = xs.findIdx (occurs k) := by
  rw [List.findIdx_append, if_pos (List.findIdx_lt_length_of_exists hk)]

theorem append_item (h : FirstOrder occurs xs ks) (x : α) : FirstOrder occurs (xs ++ [x]) ks where
  present k hk := by
    obtain ⟨y, hy, hocc⟩ := h.present k hk
    exact ⟨y, List.mem_append_left _ hy, hocc⟩
  ordered := h.ordered.imp_of_mem fun ha hb hlt => by
    rwa [findIdx_append_item (h.present _ ha), findIdx_append_item (h.present _ hb)]

/-- A key that only the last item has comes last. -/
theorem append_key (h : FirstOrder occurs xs ks) (hnew : ∀ y ∈ xs, occurs k y = false)
    (hx : occurs k x = true) : FirstOrder occurs (xs ++ [x]) (ks ++ [k]) where
  present j hj := by
    rcases List.mem_append.1 hj with hj | hj
    · exact (h.append_item x).present j hj
    · exact ⟨x, List.mem_append_right _ List.mem_cons_self, List.mem_singleton.1 hj ▸ hx⟩
  ordered := by
    refine List.pairwise_append.2 ⟨(h.append_item x).ordered, List.pairwise_singleton _ _, ?_⟩
    intro j hj k' hk'
    rw [List.mem_singleton.1 hk', findIdx_append_item (h.present j hj)]
    have hlast : xs.length ≤ (xs ++ [x]).findIdx (occurs k) := by
      rw [List.findIdx_append, List.findIdx_eq_length.2 hnew, if_neg (Nat.lt_irrefl _)]
      omega
    exact Nat.lt_of_lt_of_le (List.findIdx_lt_length_of_exists (h.present j hj)) hlast

/-- Leaving items out does not change which of two kinds of items comes first. -/
theorem findIdx_lt_of_filterMap {f : β → Option α} {ys : List β} {p q : α → Bool}
    (h : (ys.filterMap f).findIdx p < (ys.filterMap f).findIdx q) :
    ys.findIdx (fun y => (f y).any p) < ys.findIdx (fun y => (f y).any q) := by
  induction ys with
  | nil => exact absurd h (Nat.lt_irrefl _)
  | cons y rest ih =>
    rw [List.findIdx_cons, List.findIdx_cons]
    cases hy : f y with
    | none =>
      rw [List.filterMap_cons_none hy] at h
      simpa using ih h
    | some a =>
      rw [List.filterMap_cons_some hy, List.findIdx_cons, List.findIdx_cons] at h
      cases hp : p a with
      | true =>
        -- the first kind is here, so the second is not
        cases hq : q a with
        | true => simp [hp, hq] at h
        | false => simp [hp, hq]
      | false =>
        cases hq : q a with
        | true => simp [hp, hq] at h
        | false =>
          simp only [hp, hq, cond_false, Nat.add_lt_add_iff_right] at h
          simpa [hp, hq] using ih h

theorem of_filterMap {f : β → Option α} {ys : List β} (h : FirstOrder occurs (ys.filterMap f) ks) :
    FirstOrder (fun k y => (f y).any (occurs k)) ys ks where
  present k hk := by
    obtain ⟨x, hx, hocc⟩ := h.present k hk
    obtain ⟨y, hy, hsome⟩ := List.mem_filterMap.1 hx
    exact ⟨y, hy, by simpa [hsome] using hocc⟩
  ordered := h.ordered.imp findIdx_lt_of_filterMap

end FirstOrder

section Grouping

variable {κ α : Type} [DecidableEq κ] {k : κ} {a : α} {ks : List κ} {items : List (κ × α)}
  {group : κ × List α}

/-- An item joins the group of its key. -/
theorem addToGroup_of_mem {f : κ → List α} (hks : ks.Nodup) (hk : k ∈ ks) :
    addToGroup k a (ks.map fun j => (j, f j)) =
      ks.map fun j => (j, if j = k then f j ++ [a] else f j) := by
  induction ks with
  | nil => exact absurd hk List.not_mem_nil
  | cons j rest ih =>
    obtain ⟨hj, hrest⟩ := List.nodup_cons.1 hks
    rw [List.map_cons, List.map_cons, addToGroup]
    by_cases hjk : j = k
    · have hsame : ∀ i ∈ rest, (i, f i) = (i, if i = k then f i ++ [a] else f i) := by
        intro i hi
        have hne : i ≠ k := fun hik => hj (hjk.trans hik.symm ▸ hi)
        rw [if_neg hne]
      rw [if_pos hjk, if_pos hjk, List.map_congr_left hsame]
    · have hmem : k ∈ rest := (List.mem_cons.1 hk).resolve_left fun h => hjk h.symm
      rw [if_neg hjk, if_neg hjk, ih hrest hmem]

theorem addToGroup_of_notMem {f : κ → List α} (hk : k ∉ ks) :
    addToGroup k a (ks.map fun j => (j, f j)) = ks.map (fun j => (j, f j)) ++ [(k, [a])] := by
  induction ks with
  | nil => rfl
  | cons j rest ih =>
    obtain ⟨hj, hrest⟩ := not_or.1 (mt List.mem_cons.2 hk)
    rw [List.map_cons, addToGroup, if_neg fun h => hj h.symm, ih hrest, List.cons_append]

theorem perm_addToGroup (k : κ) (a : α) (groups : List (κ × List α)) :
    ((addToGroup k a groups).flatMap Prod.snd).Perm (groups.flatMap Prod.snd ++ [a]) := by
  induction groups with
  | nil => exact .refl _
  | cons group rest ih =>
    rw [addToGroup]
    split
    · rw [List.flatMap_cons, List.flatMap_cons, List.append_assoc, List.append_assoc]
      exact List.perm_append_comm.append_left _
    · rw [List.flatMap_cons, List.flatMap_cons, List.append_assoc]
      exact ih.append_left _

theorem perm_groupItems (items : List (κ × α)) :
    ((groupItems items).flatMap Prod.snd).Perm (items.map Prod.snd) := by
  induction items using List.reverseRecOn with
  | nil => exact .refl _
  | append_singleton items item ih =>
    rw [groupItems, List.foldl_append, List.map_append]
    exact (perm_addToGroup _ _ _).trans (ih.append_right _)

def itemsOf (items : List (κ × α)) (k : κ) : List α := (items.filter (·.1 = k)).map Prod.snd

theorem itemsOf_append (items : List (κ × α)) (item : κ × α) (k : κ) :
    itemsOf (items ++ [item]) k = if k = item.1 then itemsOf items k ++ [item.2] else itemsOf items k := by
  unfold itemsOf
  rw [List.filter_append, List.map_append]
  by_cases hk : k = item.1
  · simp [hk]
  · have hk' : ¬ item.1 = k := fun h => hk h.symm
    simp [hk, hk']

/-- There is a group of all items of each key, and the groups stand in the order in which their keys first occur. -/
theorem exists_groupItems_eq (items : List (κ × α)) :
    ∃ ks : List κ, FirstOrder (fun k item => item.1 = k) items ks ∧ (∀ item ∈ items, item.1 ∈ ks) ∧
      groupItems items = ks.map fun k => (k, itemsOf items k) := by
  induction items using List.reverseRecOn with
  | nil => exact ⟨[], .nil, fun _ h => absurd h List.not_mem_nil, rfl⟩
  | append_singleton items item ih =>
    obtain ⟨ks, horder, hkeys, hgroups⟩ := ih
    have hstep : groupItems (items ++ [item]) =
        addToGroup item.1 item.2 (ks.map fun k => (k, itemsOf items k)) := by
      rw [groupItems, List.foldl_append, ← hgroups]
      rfl
    by_cases hk : item.1 ∈ ks
    · refine ⟨ks, horder.append_item item, fun i hi => ?_, ?_⟩
      · rcases List.mem_append.1 hi with hi | hi
        · exact hkeys i hi
        · exact List.mem_singleton.1 hi ▸ hk
      · rw [hstep, addToGroup_of_mem horder.nodup hk]
        simp only [itemsOf_append]
    · have hnew : ∀ i ∈ items, i.1 ≠ item.1 := fun i hi h => hk (h ▸ hkeys i hi)
      refine ⟨ks ++ [item.1], horder.append_key (by simpa using hnew) (by simp), fun i hi => ?_, ?_⟩
      · rcases List.mem_append.1 hi with hi | hi
        · exact List.mem_append_left _ (hkeys i hi)
        · exact List.mem_singleton.1 hi ▸ List.mem_append_right _ List.mem_cons_self
      · have hold : ∀ k ∈ ks, (k, itemsOf items k) = (k, itemsOf (items ++ [item]) k) := by
          intro k hmem
          have hne : k ≠ item.1 := fun h => hk (h ▸ hmem)
          rw [itemsOf_append, if_neg hne]
        have hfirst : itemsOf items item.1 = [] := by
          simpa [itemsOf, List.filter_eq_nil_iff] using hnew
        rw [hstep, addToGroup_of_notMem hk, List.map_append, ← List.map_congr_left hold, List.map_singleton,
          itemsOf_append, if_pos rfl, hfirst, List.nil_append]

theorem nodup_groupItems : ((groupItems items).map Prod.fst).Nodup := by
  obtain ⟨ks, horder, -, hgroups⟩ := exists_groupItems_eq items
  have hfst : (groupItems items).map Prod.fst = ks := by
    rw [hgroups, List.map_map]
    exact List.map_id _
  exact hfst ▸ horder.nodup

theorem sublist_of_mem_groupItems (h : group ∈ groupItems items) : group.2.Sublist (items.map Prod.snd) := by
  obtain ⟨ks, -, -, hgroups⟩ := exists_groupItems_eq items
  rw [hgroups] at h
  obtain ⟨k, -, rfl⟩ := List.mem_map.1 h
  exact List.filter_sublist.map Prod.snd

/-- Each key that occurs is counted, in the order of first occurrence. -/
theorem exists_tally_eq (xs : List κ) :
    ∃ ks : List κ, FirstOrder (fun k x => x = k) xs ks ∧ (∀ x ∈ xs, x ∈ ks) ∧
      tally xs = ks.map fun k => (k, xs.count k) := by
  obtain ⟨ks, horder, hkeys, hgroups⟩ := exists_groupItems_eq (xs.map fun x => (x, x))
  have hfilterMap : xs.map (fun x => (x, x)) = xs.filterMap fun x => some (x, x) := by
    rw [← List.filterMap_eq_map]
    rfl
  refine ⟨ks, ?_, fun x hx => hkeys (x, x) (List.mem_map_of_mem hx), ?_⟩
  · rw [hfilterMap] at horder
    exact horder.of_filterMap.congr fun k _ => rfl
  · rw [tally, hgroups, List.map_map]
    refine List.map_congr_left fun k _ => ?_
    have hcount : (itemsOf (xs.map fun x => (x, x)) k).length = xs.count k := by
      rw [itemsOf, List.length_map, List.filter_map, List.length_map, List.count_eq_length_filter]
      rfl
    rw [← hcount]
    rfl

theorem sum_tally (xs : List κ) : ((tally xs).map Prod.snd).sum = xs.length := by
  have hlength := (perm_groupItems (xs.map fun x => (x, x))).length_eq
  rw [List.length_flatMap, List.map_map, List.length_map] at hlength
  rw [tally, List.map_map]
  exact hlength

end Grouping

end CodeAtlas
