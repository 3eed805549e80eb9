import CodeAtlas.Discovery.Pass
import CodeAtlas.Proofs.Graph.Import
import CodeAtlas.Proofs.Grouping

/-! What is gathered about packages: the packages that are depended on, in the order in which they first occur,
and under each of them its dependents, in the order in which they first depend on it. -/

namespace CodeAtlas

namespace KeySet

variable {s : KeySet} {xs : List Scalar} {x k : Scalar}

theorem nodup_keys (s : KeySet) : s.keys.Nodup := List.Nodup.of_map _ Table.nodup_keys

theorem keys_add : (s.add k).keys = if s.contains k then s.keys else s.keys ++ [k] := Table.keys_insert

theorem ofList_append_item : ofList (xs ++ [x]) = (ofList xs).add x := List.foldl_append

theorem contains_ofList : (ofList xs).contains k = true ↔ ∃ x ∈ xs, x.canon = k.canon := by
  induction xs using List.reverseRecOn with
  | nil => exact ⟨fun h => (nomatch h), fun ⟨_, hx, _⟩ => absurd hx List.not_mem_nil⟩
  | append_singleton xs x ih =>
    rw [ofList_append_item, contains_add, Bool.or_eq_true, decide_eq_true_eq, ih]
    simp [or_and_right, exists_or, or_comm]

theorem firstOrder_ofList (xs : List Scalar) : FirstOrder (fun k x => x.same k) xs (ofList xs).keys := by
  induction xs using List.reverseRecOn with
  | nil => exact .nil
  | append_singleton xs x ih =>
    rw [ofList_append_item, keys_add]
    split
    · exact ih.append_item x
    · rename_i hx
      refine ih.append_key (fun y hy => ?_) (Scalar.same_iff.2 rfl)
      exact Bool.eq_false_iff.2 fun hsame => hx (contains_ofList.2 ⟨y, hy, Scalar.same_iff.1 hsame⟩)

end KeySet

section Gather

variable {items : List (Scalar × Scalar)} {item : Scalar × Scalar} {k : Scalar}

def addMember (groups : Table KeySet) (item : Scalar × Scalar) : Table KeySet :=
  groups.insert item.1 (((groups.get? item.1).getD ∅).add item.2)

def gather (items : List (Scalar × Scalar)) : Table KeySet := items.foldl addMember ∅

def membersOf (items : List (Scalar × Scalar)) (k : Scalar) : List Scalar :=
  (items.filter (·.1.same k)).map Prod.snd

theorem gather_append_item : gather (items ++ [item]) = addMember (gather items) item := List.foldl_append

theorem membersOf_append_item :
    membersOf (items ++ [item]) k =
      if item.1.canon = k.canon then membersOf items k ++ [item.2] else membersOf items k := by
  unfold membersOf
  rw [List.filter_append, List.map_append]
  split
  · rename_i hk
    rw [List.filter_singleton, Scalar.same_iff.2 hk]
    rfl
  · rename_i hk
    rw [List.filter_singleton, Bool.eq_false_iff.2 (mt Scalar.same_iff.1 hk), cond_false, List.map_nil,
      List.append_nil]

theorem membersOf_congr {k' : Scalar} (h : k.canon = k'.canon) : membersOf items k = membersOf items k' := by
  unfold membersOf Scalar.same
  rw [h]

theorem keys_gather (items : List (Scalar × Scalar)) :
    (gather items).keys = (KeySet.ofList (items.map Prod.fst)).keys := by
  induction items using List.reverseRecOn with
  | nil => rfl
  | append_singleton items item ih =>
    have hcontains : (gather items).contains item.1 = (KeySet.ofList (items.map Prod.fst)).contains item.1 := by
      rw [Bool.eq_iff_iff, Table.contains_iff_mem, Table.contains_iff_mem, ih]
    rw [gather_append_item, addMember, Table.keys_insert, List.map_append, List.map_singleton,
      KeySet.ofList_append_item, KeySet.keys_add, ih, hcontains]

theorem getD_get?_gather (items : List (Scalar × Scalar)) (k : Scalar) :
    ((gather items).get? k).getD ∅ = KeySet.ofList (membersOf items k) := by
  induction items using List.reverseRecOn generalizing k with
  | nil => rfl
  | append_singleton items item ih =>
    rw [gather_append_item, addMember, Table.get?_insert, membersOf_append_item]
    split
    · rename_i hk
      rw [KeySet.ofList_append_item, ← membersOf_congr hk, ← ih]
      rfl
    · exact ih k

theorem entries_gather (items : List (Scalar × Scalar)) :
    (gather items).entries = (gather items).keys.map fun k => (k, KeySet.ofList (membersOf items k)) := by
  have hset : ∀ e ∈ (gather items).entries, (e.1, KeySet.ofList (membersOf items e.1)) = e := by
    intro e he
    rw [← getD_get?_gather, Table.get?_of_mem he]
    rfl
  rw [Table.keys, List.map_map]
  exact ((List.map_congr_left hset).trans (List.map_id _)).symm

theorem exists_member_of_mem (h : item ∈ items) :
    ∃ k ∈ (gather items).keys, ∃ r ∈ (KeySet.ofList (membersOf items k)).keys, r.canon = item.2.canon := by
  have hkey : (KeySet.ofList (items.map Prod.fst)).contains item.1 = true :=
    KeySet.contains_ofList.2 ⟨_, List.mem_map_of_mem h, rfl⟩
  obtain ⟨k, hk, hsame⟩ := Table.contains_iff_mem.1 hkey
  rw [← keys_gather] at hk
  have hmember : item.2 ∈ membersOf items k :=
    List.mem_map_of_mem (List.mem_filter.2 ⟨h, Scalar.same_iff.2 hsame.symm⟩)
  obtain ⟨r, hr, hid⟩ := Table.contains_iff_mem.1 (KeySet.contains_ofList.2 ⟨item.2, hmember, rfl⟩)
  exact ⟨k, hk, r, hr, hid⟩

end Gather

/-- Whether the packages of all nodes are texts, where they are given. -/
def Graph.TextPackages (g : Graph) : Prop :=
  ∀ n ∈ g.nodes.values, ∀ v, n.properties.get? (.text "package") = some v → ∃ s, v = .text s

namespace Discovery

/-- The dependencies of a graph: what depends, and the package of what it depends on. -/
def uses (g : Graph) : List (Scalar × Option Value) :=
  g.edges.values.filterMap fun e =>
    if e.kind = .dependsOn then
      some (e.source, (g.nodes.get? e.target).bind (·.properties.get? (.text "package")))
    else none

/-- Notes a dependent of a package, if there is one. -/
def addUse (groups : Table KeySet) (use : Scalar × Option Value) : Checked (Table KeySet) :=
  match use.2 with
  | none => .ok groups
  | some p =>
    if p.isFalsy then .ok groups
    else do
      let k ← p.key
      return groups.insert k (((groups.get? k).getD ∅).add use.1)

def packageUse (use : Scalar × Option Value) : Option (Scalar × Scalar) :=
  match use.2 with
  | none => none
  | some p => if p.isFalsy then none else p.key.toOption.map fun k => (k, use.1)

variable {g : Graph} {threshold : Value} {groups groups' : Table KeySet} {use : Scalar × Option Value}

theorem dependents_eq : dependents g = (uses g).foldlM addUse ∅ := by
  rw [dependents, uses, List.foldlM_filterMap]
  congr 1
  funext groups e
  unfold addDependent packageOfTarget
  by_cases hk : e.kind = .dependsOn
  · rw [if_neg (fun h => h hk), if_pos hk]
    unfold addUse
    cases (g.nodes.get? e.target).bind (·.properties.get? (.text "package")) with
    | none => rfl
    | some p =>
      cases hp : p.isFalsy with
      | true =>
        simp only [hp, if_true]
        rfl
      | false =>
        simp only [hp, Bool.false_eq_true, if_false]
        cases p.key <;> rfl
  · rw [if_pos hk, if_neg hk]
    rfl

theorem packageUse_eq_some {item : Scalar × Scalar} :
    packageUse use = some item ↔
      use.2 = some (.scalar item.1) ∧ (Value.scalar item.1).isFalsy = false ∧ use.1 = item.2 := by
  obtain ⟨r, o⟩ := use
  obtain ⟨k, r'⟩ := item
  cases o with
  | none => simp [packageUse]
  | some v =>
    cases hv : v.isFalsy with
    | true =>
      simp only [packageUse, hv, if_true, reduceCtorEq, false_iff]
      rintro ⟨hpackage, hfalsy, -⟩
      rw [← Option.some.inj hpackage, hv] at hfalsy
      cases hfalsy
    | false =>
      simp only [packageUse, hv, Bool.false_eq_true, if_false, Option.map_eq_some_iff,
        Except.toOption_eq_some, Value.key_eq_ok, Prod.mk.injEq, Option.some.injEq]
      constructor
      · rintro ⟨_, rfl, rfl, rfl⟩
        exact ⟨rfl, hv, rfl⟩
      · rintro ⟨rfl, -, rfl⟩
        exact ⟨k, rfl, rfl, rfl⟩

theorem addUse_ok (h : addUse groups use = .ok groups') :
    groups' = ((packageUse use).map (addMember groups)).getD groups := by
  obtain ⟨r, o⟩ := use
  cases o with
  | none =>
    cases h
    rfl
  | some v =>
    cases hv : v.isFalsy with
    | true =>
      simp only [addUse, hv, if_true] at h
      cases h
      simp only [packageUse, hv, if_true]
      rfl
    | false =>
      simp only [addUse, hv, Bool.false_eq_true, if_false] at h
      obtain ⟨k, hk, h⟩ := Except.bind_eq_ok.1 h
      cases h
      simp only [packageUse, hv, Bool.false_eq_true, if_false, hk]
      rfl

theorem exists_packageUse {v : Value} (h : dependents g = .ok groups) (huse : use ∈ uses g)
    (hv : use.2 = some v) (hfalsy : v.isFalsy = false) : ∃ k, packageUse use = some (k, use.1) := by
  rw [dependents_eq] at h
  obtain ⟨start, next, hstep⟩ := exists_step_of_foldlM_ok h use huse
  simp only [addUse, hv, hfalsy, Bool.false_eq_true, if_false] at hstep
  obtain ⟨k, hk, -⟩ := Except.bind_eq_ok.1 hstep
  cases Value.key_eq_ok.1 hk
  exact ⟨k, packageUse_eq_some.2 ⟨hv, hfalsy, rfl⟩⟩

def packageUses (g : Graph) : List (Scalar × Scalar) := (uses g).filterMap packageUse

/-- The dependents of each package are gathered. -/
theorem dependents_ok (h : dependents g = .ok groups) : groups = gather (packageUses g) := by
  have hfold : ∀ (us : List (Scalar × Option Value)) (start : Table KeySet), us.foldlM addUse start = .ok groups →
      groups = (us.filterMap packageUse).foldl addMember start := by
    intro us
    induction us with
    | nil =>
      intro start h
      cases h
      rfl
    | cons use rest ih =>
      intro start h
      rw [List.foldlM_cons] at h
      obtain ⟨next, hstep, h⟩ := Except.bind_eq_ok.1 h
      have hnext := addUse_ok hstep
      have hrest := ih next h
      cases huse : packageUse use with
      | none =>
        rw [huse] at hnext
        rw [hrest, hnext, List.filterMap_cons_none huse]
        rfl
      | some item =>
        rw [huse] at hnext
        rw [hrest, hnext, List.filterMap_cons_some huse]
        rfl
  exact hfold _ _ (dependents_eq ▸ h)

theorem uses_texts (h : g.TextPackages) :
    ∀ use ∈ uses g, ∀ v, use.2 = some v → ∃ s, v = .text s := by
  intro use huse v hv
  obtain ⟨e, -, he⟩ := List.mem_filterMap.1 huse
  split at he
  · cases he
    obtain ⟨n, hn, hp⟩ := Option.bind_eq_some_iff.1 hv
    exact h n (Table.mem_values_of_get? hn) v hp
  · cases he

theorem isText_of_mem_gather (huses : ∀ use ∈ uses g, ∀ v, use.2 = some v → ∃ s, v = .text s) :
    ∀ k ∈ (gather (packageUses g)).keys, k.IsText := by
  intro k hk
  rw [keys_gather] at hk
  obtain ⟨item, hitem, rfl⟩ := List.mem_map.1 (KeySet.mem_keys_ofList hk)
  obtain ⟨use, huse, hsome⟩ := List.mem_filterMap.1 hitem
  obtain ⟨s, hs⟩ := huses use huse _ (packageUse_eq_some.1 hsome).1
  exact ⟨s, Value.scalar.inj hs⟩

theorem exists_dependents (h : ∀ use ∈ uses g, ∀ v, use.2 = some v → ∃ s, v = .text s) :
    ∃ groups, dependents g = .ok groups := by
  rw [dependents_eq]
  refine exists_foldlM_ok fun use huse groups => ?_
  unfold addUse
  split
  · exact ⟨_, rfl⟩
  · rename_i p hp
    obtain ⟨s, rfl⟩ := h use huse p hp
    split
    · exact ⟨_, rfl⟩
    · exact ⟨_, rfl⟩

theorem dependency_eq {least : Int} (h : dependents g = .ok groups) (hleast : threshold.ceiling = .ok least) :
    dependency threshold g =
      .ok ((groups.entries.filter fun e => least ≤ e.2.size).map fun e => heavyUsage e.1 e.2) := by
  rw [dependency, h]
  by_cases hsize : groups.size = 0
  · rw [List.eq_nil_of_length_eq_zero hsize]
    simp only [bind, Except.bind, hsize, if_true]
    rfl
  · simp only [bind, Except.bind, hsize, if_false, hleast]
    rfl

/-- Whatever the threshold, the patterns are those of packages that are depended on. -/
theorem dependency_ok {ps : List Pattern} (h : dependency threshold g = .ok ps) :
    ∃ packages : List Scalar, packages.Sublist (gather (packageUses g)).keys ∧
      ps = packages.map fun k => heavyUsage k (KeySet.ofList (membersOf (packageUses g) k)) := by
  obtain ⟨groups, hgroups, h⟩ := Except.bind_eq_ok.1 h
  cases dependents_ok hgroups
  split at h
  · cases h
    exact ⟨[], List.nil_sublist _, rfl⟩
  · obtain ⟨least, -, h⟩ := Except.bind_eq_ok.1 h
    cases h
    rw [entries_gather, List.filter_map, List.map_map]
    exact ⟨_, List.filter_sublist, rfl⟩

end Discovery

end CodeAtlas
