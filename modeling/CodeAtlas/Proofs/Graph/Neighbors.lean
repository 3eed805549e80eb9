import CodeAtlas.Proofs.Graph.Connections

/-! The neighbours of a node. In a linked and exact graph a traversal that asks a node for its neighbours sees
exactly the edges that touch it, so it walks over the undirected view of the graph; and where ids are
texts it never fails to put connections in order. -/

namespace CodeAtlas

theorem areComparable_of_isText {keys : List Scalar} (h : ∀ x ∈ keys, x.IsText) :
    areComparable keys = true := by
  have hrank : keys.all (·.rank = 2) = true := by
    refine List.all_eq_true.2 fun x hx => ?_
    obtain ⟨s, rfl⟩ := h x hx
    rfl
  unfold areComparable
  split
  · rfl
  · rfl
  · rw [hrank, Bool.or_true]

theorem mem_sortKeys {x : Scalar} {keys : List Scalar} : x ∈ sortKeys keys ↔ x ∈ keys :=
  List.mem_mergeSort

theorem exists_map_text {keys : List Scalar} (h : ∀ k ∈ keys, k.IsText) :
    ∃ ss : List String, ss.map Scalar.text = keys := by
  induction keys with
  | nil => exact ⟨[], rfl⟩
  | cons k rest ih =>
    obtain ⟨s, rfl⟩ := h k List.mem_cons_self
    obtain ⟨ss, rfl⟩ := ih fun k' hk' => h k' (List.mem_cons_of_mem _ hk')
    exact ⟨s :: ss, rfl⟩

theorem sortKeys_map_text (ss : List String) :
    sortKeys (ss.map Scalar.text) = (ss.mergeSort fun s t => s ≤ t).map Scalar.text := by
  have hle : ∀ s ∈ ss, ∀ t ∈ ss, decide (s ≤ t) = Scalar.le (.text s) (.text t) :=
    fun _ _ _ _ => rfl
  rw [List.map_mergeSort hle, sortKeys]

theorem pairwise_mergeSort_texts (ss : List String) :
    (ss.mergeSort fun s t => s ≤ t).Pairwise (· ≤ ·) := by
  have hle := @List.pairwise_mergeSort String (fun s t => s ≤ t)
    (by simpa using fun a b c => String.le_trans) (by simpa using String.le_total) ss
  simpa using hle

namespace Graph

/-- Whether an edge joins two ids, in one direction or the other. -/
def Joined (g : Graph) (x y : Scalar) : Prop :=
  ∃ e ∈ g.edges.values, (e.source = x ∧ e.target = y) ∨ (e.source = y ∧ e.target = x)

variable {g : Graph} {x y : Scalar} {e : Edge}

theorem mem_edges_of_mem_neighbors (h : (e, y) ∈ g.neighbors x) :
    e ∈ g.edges.values ∧ y = e.otherEnd x := by
  unfold neighbors at h
  split at h
  · exact absurd h List.not_mem_nil
  · obtain ⟨eid, -, h⟩ := List.mem_filterMap.1 h
    obtain ⟨e', he', h⟩ := Option.map_eq_some_iff.1 h
    cases h
    exact ⟨Table.mem_values_of_get? he', rfl⟩

section Texts

variable (hl : g.Linked) (ht : g.TextIds)

include hl ht

theorem orderable_of_textIds (ids : List Scalar) : g.orderable ids = true := by
  refine List.all_eq_true.2 fun k _ => ?_
  cases hn : g.nodes.get? k with
  | none => rfl
  | some n =>
    have htexts : ∀ x ∈ n.connections.keys, x.IsText := fun x hx =>
      (hl.mem_edges_of_mem_connections ht (Table.mem_values_of_get? hn) hx).1
    exact areComparable_of_isText htexts

theorem ordered_of_textIds {α : Type} (ids : List Scalar) (answer : α) :
    g.ordered ids answer = .ok answer := by
  rw [ordered, if_pos (orderable_of_textIds hl ht ids)]

theorem Linked.hasNode_of_touches (he : e ∈ g.edges.values) (hx : e.Touches x) :
    g.hasNode x = true ∧ x.IsText := by
  obtain ⟨n, hn, -⟩ := hl.listed _ e (hl.get?_edge ht he).1 x hx
  have hhas := Table.contains_of_get? hn
  exact ⟨hhas, (isText_of_contains ht.nodes hhas).1⟩

theorem Joined.hasNode (h : g.Joined x y) : g.hasNode y = true ∧ y.IsText := by
  obtain ⟨e, he, ⟨-, rfl⟩ | ⟨rfl, -⟩⟩ := h
  · exact hl.hasNode_of_touches ht he (Or.inr rfl)
  · exact hl.hasNode_of_touches ht he (Or.inl rfl)

theorem mem_neighbors_of_touches (he : e ∈ g.edges.values) (htouch : e.Touches x) :
    (e, e.otherEnd x) ∈ g.neighbors x := by
  unfold neighbors
  have hget := (hl.get?_edge ht he).1
  obtain ⟨n, hn, hlisted⟩ := hl.listed _ e hget x htouch
  obtain ⟨eid, heid, hcanon⟩ := Table.contains_iff_mem.1 hlisted
  rw [hn]
  refine List.mem_filterMap.2 ⟨eid, mem_sortKeys.2 heid, ?_⟩
  rw [Table.get?_congr hcanon, hget, Option.map_some]

/-- No edge occurs twice among the neighbours of a node. -/
theorem nodup_neighbors : ((g.neighbors x).map Prod.fst).Nodup := by
  unfold neighbors
  cases g.nodes.get? x with
  | none => exact List.nodup_nil
  | some n =>
    have hkeys : (sortKeys n.connections.keys).Nodup :=
      (List.mergeSort_perm _ _).nodup_iff.2 (List.Nodup.of_map _ Table.nodup_keys)
    have hfst : ((sortKeys n.connections.keys).filterMap fun eid =>
        (g.edges.get? eid).map fun e => (e, e.otherEnd x)).map Prod.fst =
          (sortKeys n.connections.keys).filterMap g.edges.get? := by
      rw [List.map_filterMap]
      refine List.filterMap_congr fun eid _ => ?_
      cases g.edges.get? eid <;> rfl
    rw [hfst]
    refine List.Nodup.filterMap (fun a a' e ha ha' => ?_) hkeys
    have htext := (isText_of_contains ht.edges (Table.contains_of_get? ha')).1
    exact Scalar.isText_of_canon_eq ((hl.edges_keyed a e ha).symm.trans (hl.edges_keyed a' e ha')) htext

/-- The neighbours of a node are the other ends of the edges that touch it. -/
theorem mem_neighbors_iff (hexact : g.Exact) :
    (e, y) ∈ g.neighbors x ↔ e ∈ g.edges.values ∧ e.Touches x ∧ y = e.otherEnd x := by
  constructor
  · intro h
    unfold neighbors at h
    split at h
    · exact absurd h List.not_mem_nil
    · rename_i n hn
      obtain ⟨eid, heid, h⟩ := List.mem_filterMap.1 h
      obtain ⟨e', he', h⟩ := Option.map_eq_some_iff.1 h
      cases h
      have hlisted := Table.contains_iff_mem.2 ⟨eid, mem_sortKeys.1 heid, rfl⟩
      obtain ⟨e', hget, htouch⟩ := (hexact x n hn eid).1 hlisted
      cases he'.symm.trans hget
      exact ⟨Table.mem_values_of_get? he', (Edge.touches_congr (hl.nodes_keyed x n hn)).1 htouch, rfl⟩
  · rintro ⟨he, htouch, rfl⟩
    exact mem_neighbors_of_touches hl ht he htouch

/-- A node is joined to its neighbours and to nothing else; a loop joins it to itself. -/
theorem joined_iff (hexact : g.Exact) (hx : x.IsText) :
    g.Joined x y ↔ y ∈ (g.neighbors x).map Prod.snd := by
  constructor
  · rintro ⟨e, he, hends⟩
    refine List.mem_map.2 ⟨(e, y), (mem_neighbors_iff hl ht hexact).2 ⟨he, ?_, ?_⟩, rfl⟩
    · rcases hends with ⟨rfl, -⟩ | ⟨-, rfl⟩
      · exact Or.inl rfl
      · exact Or.inr rfl
    · unfold Edge.otherEnd
      rcases hends with ⟨rfl, rfl⟩ | ⟨rfl, rfl⟩
      · rw [if_pos (Scalar.same_iff.2 rfl)]
      · split
        · rename_i hsame
          exact Scalar.isText_of_canon_eq (Scalar.same_iff.1 hsame) hx
        · rfl
  · intro h
    obtain ⟨⟨e, y'⟩, hmem, rfl⟩ := List.mem_map.1 h
    obtain ⟨he, htouch, hy⟩ := (mem_neighbors_iff hl ht hexact).1 hmem
    refine ⟨e, he, ?_⟩
    unfold Edge.otherEnd at hy
    split at hy
    · rename_i hsame
      exact Or.inl ⟨Scalar.isText_of_canon_eq (Scalar.same_iff.1 hsame) hx, hy.symm⟩
    · rename_i hsame
      rcases htouch with htouch | htouch
      · exact absurd (Scalar.same_iff.2 htouch) hsame
      · exact Or.inr ⟨hy.symm, Scalar.isText_of_canon_eq htouch hx⟩

end Texts

end Graph

end CodeAtlas
