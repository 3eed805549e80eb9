import CodeAtlas.Proofs.Graph.Neighbors
import CodeAtlas.Query.Engine

/-! The uses of a node are its incoming edges, each seen from its source. In a linked graph every edge that ends
at the node is there once, and no source is missing. -/

namespace CodeAtlas

namespace Query

def incoming (g : Graph) (id : Scalar) : List Edge :=
  ((g.neighbors id).map Prod.fst).filter (·.target.same id)

def usageOf (g : Graph) (e : Edge) : Option Hit :=
  (g.nodes.get? e.source).map fun n =>
    { node := n, relationship := some e, context := some (Hit.usageContext e) }

variable {g : Graph} {id : Scalar} {e : Edge}

theorem usages_eq : usages g id = (incoming g id).filterMap (usageOf g) := by
  rw [usages, incoming, List.filterMap_filter, List.filterMap_map]
  rfl

/-- What is said of a use: the edge that it is and the source of that edge. -/
theorem of_mem_usages {hit : Hit} (h : hit ∈ usages g id) :
    ∃ e ∈ incoming g id, hit.relationship = some e ∧ g.nodes.get? e.source = some hit.node := by
  rw [usages_eq] at h
  obtain ⟨e, he, hhit⟩ := List.mem_filterMap.1 h
  obtain ⟨n, hn, rfl⟩ := Option.map_eq_some_iff.1 hhit
  exact ⟨e, he, rfl, hn⟩

variable (hl : g.Linked) (ht : g.TextIds)

include hl ht

theorem nodup_incoming : (incoming g id).Nodup :=
  List.filter_sublist.nodup (Graph.nodup_neighbors hl ht)

theorem mem_incoming_iff (hid : id.IsText) :
    e ∈ incoming g id ↔ e ∈ g.edges.values ∧ e.target = id := by
  unfold incoming
  rw [List.mem_filter, Scalar.same_iff]
  constructor
  · rintro ⟨hmem, htarget⟩
    obtain ⟨⟨e, y⟩, hneighbor, rfl⟩ := List.mem_map.1 hmem
    exact ⟨(Graph.mem_edges_of_mem_neighbors hneighbor).1, Scalar.isText_of_canon_eq htarget hid⟩
  · rintro ⟨he, rfl⟩
    have htouch : e.Touches e.target := Or.inr rfl
    exact ⟨List.mem_map.2 ⟨_, Graph.mem_neighbors_of_touches hl ht he htouch, rfl⟩, rfl⟩

/-- Every edge that ends at a node is one use of it, by its source. -/
theorem forall₂_usages :
    List.Forall₂ (fun e hit => hit.relationship = some e ∧ g.nodes.get? e.source = some hit.node ∧
      hit.context = some (Hit.usageContext e)) (incoming g id) (usages g id) := by
  have hedges : ∀ es : List Edge, (∀ e ∈ es, e ∈ g.edges.values) →
      List.Forall₂ (fun e hit => hit.relationship = some e ∧ g.nodes.get? e.source = some hit.node ∧
        hit.context = some (Hit.usageContext e)) es (es.filterMap (usageOf g)) := by
    intro es
    induction es with
    | nil => exact fun _ => .nil
    | cons e rest ih =>
      intro h
      have hhas := (hl.hasNode_of_touches ht (h e List.mem_cons_self) (Or.inl rfl)).1
      obtain ⟨n, hn⟩ := Graph.hasNode_iff.1 hhas
      have huse : usageOf g e =
          some { node := n, relationship := some e, context := some (Hit.usageContext e) } := by
        rw [usageOf, hn, Option.map_some]
      rw [List.filterMap_cons, huse]
      exact .cons ⟨rfl, hn, rfl⟩ (ih fun e he => h e (List.mem_cons_of_mem _ he))
  rw [usages_eq]
  refine hedges _ fun e he => ?_
  obtain ⟨⟨e, y⟩, hneighbor, rfl⟩ := List.mem_map.1 (List.mem_of_mem_filter he)
  exact (Graph.mem_edges_of_mem_neighbors hneighbor).1

theorem map_id_usages : (usages g id).map (·.node.id) = (incoming g id).map Edge.source := by
  refine Eq.symm ?_
  rw [← List.forall₂_eq_eq_eq, List.forall₂_map_left_iff, List.forall₂_map_right_iff]
  refine (forall₂_usages hl ht).imp fun e hit h => ?_
  have htext := (Graph.isText_of_contains ht.nodes (Table.contains_of_get? h.2.1)).1
  exact (Scalar.isText_of_canon_eq (hl.nodes_keyed _ _ h.2.1) htext).symm

theorem usage_eq (hid : g.hasNode id = true) {limit : Int} (hlimit : (usages g id).length ≤ limit) :
    usage g (.int limit) id = .ok (usages g id) := by
  have hpositive : 0 ≤ limit := by omega
  have hlength : (usages g id).length ≤ limit.toNat := by omega
  rw [usage, hid, Graph.ordered_of_textIds hl ht]
  change Except.ok (takeUpTo limit (usages g id)) = _
  rw [takeUpTo, if_pos hpositive, List.take_of_length_le hlength]

end Query

end CodeAtlas
