import CodeAtlas.Proofs.Query.BuildOrder

/-! The views of one set of edges. Seen from a node every edge that touches it is there once, in the order of the
ids and with the opposite end; the uses of a node are the edges that end there. So an edge that is seen from
one of its ends is seen from the other, in whichever view. -/

namespace CodeAtlas

namespace Edge

variable {e : Edge} {x y : Scalar}

theorem otherEnd_eq_iff (hx : x.IsText) (htouch : e.Touches x) :
    y = e.otherEnd x ↔ (e.source = x ∧ y = e.target) ∨ (e.target = x ∧ y = e.source) := by
  have heq : ∀ {z : Scalar}, z.canon = x.canon ↔ z = x := fun {z} =>
    ⟨fun h => Scalar.isText_of_canon_eq h hx, fun h => congrArg _ h⟩
  simp only [Touches, heq] at htouch
  simp only [otherEnd, Scalar.same_iff, heq]
  split
  · rename_i hsource
    grind
  · grind

end Edge

namespace Graph

variable {g : Graph} {x y : Scalar} {e : Edge} (hl : g.Linked) (ht : g.TextIds)

include hl ht

/-- The edges of the neighbours of a node have the ids that the node lists, in order. -/
theorem map_id_neighbors {n : Node} (hn : g.nodes.get? x = some n) :
    (g.neighbors x).map (·.1.id) = sortKeys n.connections.keys := by
  have hedge : ∀ eid ∈ sortKeys n.connections.keys,
      ((g.edges.get? eid).map fun e => (e, e.otherEnd x)).map (·.1.id) = some eid := by
    intro eid heid
    have hlisted := Table.contains_iff_mem.2 ⟨eid, mem_sortKeys.1 heid, rfl⟩
    obtain ⟨e, he⟩ := Table.contains_iff.1 (hl.stored x n hn eid hlisted)
    have htext := (isText_of_contains ht.edges (Table.contains_of_get? he)).1
    rw [he, Option.map_some, Option.map_some, Scalar.isText_of_canon_eq (hl.edges_keyed eid e he) htext]
  unfold neighbors
  rw [hn]
  simp only
  rw [List.map_filterMap, List.filterMap_congr hedge, List.filterMap_some]

/-- Neighbours come in strictly ascending order of the ids of their edges. -/
theorem exists_ids_neighbors (x : Scalar) :
    ∃ ids : List String, (g.neighbors x).map (·.1.id) = ids.map Scalar.text ∧ ids.Pairwise (· < ·) := by
  cases hn : g.nodes.get? x with
  | none =>
    refine ⟨[], ?_, List.Pairwise.nil⟩
    rw [neighbors, hn]
    rfl
  | some n =>
    have htexts : ∀ k ∈ n.connections.keys, k.IsText := fun k hk =>
      (hl.mem_edges_of_mem_connections ht (Table.mem_values_of_get? hn) hk).1
    obtain ⟨ss, hss⟩ := exists_map_text htexts
    have hnodup : ss.Nodup := by
      have hkeys : n.connections.keys.Nodup := List.Nodup.of_map _ Table.nodup_keys
      rw [← hss] at hkeys
      exact List.Nodup.of_map _ hkeys
    refine ⟨ss.mergeSort fun s t => s ≤ t, ?_, ?_⟩
    · rw [map_id_neighbors hl ht hn, ← hss, sortKeys_map_text]
    · have hdistinct := (List.mergeSort_perm ss fun s t => s ≤ t).nodup_iff.2 hnodup
      refine (pairwise_mergeSort_texts ss).imp₂ (fun s t hle hne => ?_) hdistinct
      exact String.not_le.1 fun hge => hne (String.le_antisymm hle hge)

/-- What is seen from a node are the edges that touch it, with their opposite ends. -/
theorem mem_neighbors_iff_ends (hexact : g.Exact) (hx : x.IsText) :
    (e, y) ∈ g.neighbors x ↔ e ∈ g.edges.values ∧
      ((e.source = x ∧ y = e.target) ∨ (e.target = x ∧ y = e.source)) := by
  rw [mem_neighbors_iff hl ht hexact]
  constructor
  · rintro ⟨he, htouch, hy⟩
    exact ⟨he, (Edge.otherEnd_eq_iff hx htouch).1 hy⟩
  · rintro ⟨he, hends⟩
    have htouch : e.Touches x := by
      rcases hends with ⟨rfl, -⟩ | ⟨rfl, -⟩
      · exact Or.inl rfl
      · exact Or.inr rfl
    exact ⟨he, htouch, (Edge.otherEnd_eq_iff hx htouch).2 hends⟩

theorem mem_neighbors_comm (hexact : g.Exact) (hx : x.IsText) (hy : y.IsText) :
    (e, y) ∈ g.neighbors x ↔ (e, x) ∈ g.neighbors y := by
  rw [mem_neighbors_iff_ends hl ht hexact hx, mem_neighbors_iff_ends hl ht hexact hy]
  grind

/-- A walk of depth zero reports the dependencies of its start. -/
theorem mem_edges_dependencies_zero {budget : Int} (hx : g.hasNode x = true) (hbudget : 1 ≤ budget) :
    e ∈ (g.dependencies x ⟨0, budget⟩).map (·.edge) ↔
      e ∈ g.edges.values ∧ e.kind = .dependsOn ∧ e.source = x := by
  obtain ⟨frames, h⟩ := exists_frames ⟨0, budget⟩ ht hx (Int.le_refl 0) hbudget
  constructor
  · intro he
    obtain ⟨hit, hhit, rfl⟩ := List.mem_map.1 he
    obtain ⟨he, hkind, -, f, hf, hsource, -⟩ := (h.mem_hits_iff hl ht hx).1 hhit
    -- no frame lies deeper than the start, so there is none but that of the start
    have hdepth : f.depth = 0 := by
      have hle := h.depth_le (Int.le_refl 0) hf
      simp only at hle
      omega
    have hsteps := h.dependsIn_of_mem hl ht hx hf
    rw [hdepth] at hsteps
    obtain hstart | ⟨hone, -⟩ := hsteps.eq_or_dependsOn (Nat.zero_le 1)
    · exact ⟨he, hkind, hsource.trans hstart⟩
    · cases hone
  · rintro ⟨he, hkind, hsource⟩
    obtain ⟨n, hhit⟩ := h.exists_hit hl ht hx List.mem_cons_self he hkind hsource
    exact List.mem_map.2 ⟨_, hhit, rfl⟩

end Graph

namespace QueryEngine

variable {q : QueryEngine} {n : String} (hl : q.graph.Linked) (ht : q.graph.TextIds) (hne : n ≠ "")
  (hn : q.graph.hasNode (.text n) = true)

include hl ht hne hn

theorem findUsage_of_fits {limit : Value}
    (hlimit : limit = .null ∨ ∃ l : Int, limit = .int l ∧ (Query.usages q.graph (.text n)).length ≤ l) :
    q.findUsage (.text n) limit = .ok (Query.usages q.graph (.text n)) := by
  rw [findUsage, nodeKey?_text hne hn]
  rcases hlimit with rfl | ⟨l, rfl, hfits⟩
  · change Query.usage q.graph .null (.text n) = _
    rw [Query.usage, hn, Graph.ordered_of_textIds hl ht]
    rfl
  · exact Query.usage_eq hl ht hn hfits

end QueryEngine

/-- Seen from a node, every edge that touches it is there once, loops as well, in ascending order of the ids and
with the opposite end, so an edge is seen from one end exactly if it is seen from the other. Where no limit
cuts them off, the uses of a node are its incoming edges, one use each; and a dependency is found directly
behind its source exactly if it is a use of its target. -/
theorem edge_views_agree {q : QueryEngine} {budget : Int} {m n : String} (hl : q.graph.Linked)
    (ht : q.graph.TextIds) (hexact : q.graph.Exact) (hbudget : q.budget = .int budget)
    (hroom : 1 ≤ budget) (hme : m ≠ "") (hne : n ≠ "") (hm : q.graph.hasNode (.text m) = true)
    (hn : q.graph.hasNode (.text n) = true) :
    (∃ ids : List String,
      (q.graph.neighbors (.text n)).map (·.1.id) = ids.map Scalar.text ∧ ids.Pairwise (· < ·)) ∧
    ((q.graph.neighbors (.text n)).map Prod.fst).Nodup ∧
    (∀ e y, (e, y) ∈ q.graph.neighbors (.text n) ↔ e ∈ q.graph.edges.values ∧
      ((e.source = .text n ∧ y = e.target) ∨ (e.target = .text n ∧ y = e.source))) ∧
    (∀ e, (e, .text m) ∈ q.graph.neighbors (.text n) ↔ (e, .text n) ∈ q.graph.neighbors (.text m)) ∧
    ∃ ending uses hits,
      (∀ limit : Value, (limit = .null ∨ ∃ l : Int, limit = .int l ∧ ending.length ≤ l) →
        q.findUsage (.text n) limit = .ok uses) ∧
      ending.Nodup ∧ (∀ e, e ∈ ending ↔ e ∈ q.graph.edges.values ∧ e.target = .text n) ∧
      List.Forall₂ (fun e hit => hit.relationship = some e ∧
        q.graph.nodes.get? e.source = some hit.node ∧ hit.context = some (Hit.usageContext e))
        ending uses ∧
      q.findDependencies (.text m) (.int 0) = .ok hits ∧
      ∀ e, e.source = .text m → e.target = .text n →
        ((∃ hit ∈ hits, hit.relationship = some e) ↔
          e.kind = .dependsOn ∧ ∃ use ∈ uses, use.relationship = some e) := by
  have htext : (Scalar.text n).IsText := ⟨n, rfl⟩
  have huses := @Query.forall₂_usages q.graph (.text n) hl ht
  have hending : ∀ {e}, e ∈ Query.incoming q.graph (.text n) ↔
      e ∈ q.graph.edges.values ∧ e.target = .text n := Query.mem_incoming_iff hl ht htext
  have hnodeBudget : q.nodeBudget = .ok budget := by
    rw [QueryEngine.nodeBudget_int hbudget, if_neg (by omega)]
  refine ⟨Graph.exists_ids_neighbors hl ht _, Graph.nodup_neighbors hl ht,
    fun e y => Graph.mem_neighbors_iff_ends hl ht hexact htext,
    fun e => Graph.mem_neighbors_comm hl ht hexact htext ⟨m, rfl⟩,
    Query.incoming q.graph (.text n), _, _, fun limit hlimit => ?_, Query.nodup_incoming hl ht,
    fun e => hending, huses,
    QueryEngine.findDependencies_key hl ht hnodeBudget (Value.isFalsy_text hme), ?_⟩
  · rw [huses.length_eq] at hlimit
    exact QueryEngine.findUsage_of_fits hl ht hne hn hlimit
  · intro e hsource htarget
    have hfound : (∃ hit ∈ (q.graph.dependencies (.text m) ⟨0, budget⟩).map (·.toHit),
        hit.relationship = some e) ↔ e ∈ (q.graph.dependencies (.text m) ⟨0, budget⟩).map (·.edge) := by
      simp [DependencyHit.toHit]
    have hused : (∃ use ∈ Query.usages q.graph (.text n), use.relationship = some e) ↔
        e ∈ Query.incoming q.graph (.text n) := by
      constructor
      · rintro ⟨use, huse, hedge⟩
        obtain ⟨e', he', hedge', -⟩ := Query.of_mem_usages huse
        cases hedge.symm.trans hedge'
        exact he'
      · intro he
        obtain ⟨use, huse, hedge, -⟩ := exists_of_forall₂ huses e he
        exact ⟨use, huse, hedge⟩
    rw [hfound, hused, Graph.mem_edges_dependencies_zero hl ht hm hroom, hending]
    simp only [hsource, htarget, and_true]
    exact and_comm

/-- Dependencies with a loop, a pair in both directions, and a use beside a dependency. -/
def crossedDependencies : List Edge := [
  sampleDependency "a0" "A" "A", sampleDependency "a1" "A" "B",
  { sampleDependency "a2" "A" "B" with kind := .uses }, sampleDependency "a3" "B" "A"]

def crossedEngine : QueryEngine :=
  { packageEngine with graph := crossedDependencies.foldl .putEdge (.ofNodes samplePackages) }

theorem isText_of_mem_crossedDependencies : ∀ e ∈ crossedDependencies, e.id.IsText := by
  simp [crossedDependencies, sampleDependency, Scalar.IsText]

theorem accounted_crossedEngine : Accounted crossedEngine.graph crossedDependencies :=
  (Graph.accounted_ofNodes unconnected_samplePackages).foldl_putEdge (by decide)

theorem exact_crossedEngine : crossedEngine.graph.Exact := by
  refine accounted_crossedEngine.exact isText_of_mem_crossedDependencies ?_
  simp [Agreeing, crossedDependencies, sampleDependency]

theorem edge_views_agree_crossedEngine :
    ∃ uses hits, crossedEngine.findUsage (.text "A") .null = .ok uses ∧
      crossedEngine.findDependencies (.text "A") (.int 0) = .ok hits ∧
      (∃ use ∈ uses, use.relationship = some (sampleDependency "a0" "A" "A")) ∧
      ∃ hit ∈ hits, hit.relationship = some (sampleDependency "a0" "A" "A") := by
  obtain ⟨-, -, -, -, ending, uses, hits, huses, -, hending, hforall, hhits, hagree⟩ :=
    edge_views_agree (q := crossedEngine) (m := "A") (n := "A") accounted_crossedEngine.linked
      (textIds_samplePackages.foldl_putEdge isText_of_mem_crossedDependencies) exact_crossedEngine
      (Eq.refl (Value.int 10)) (by decide) (by decide) (by decide) (by decide) (by decide)
  have hloop : sampleDependency "a0" "A" "A" ∈ crossedDependencies := List.mem_cons_self
  obtain ⟨use, huse, hedge, -⟩ := exists_of_forall₂ hforall _ ((hending _).2 ⟨hloop, rfl⟩)
  exact ⟨uses, hits, huses _ (Or.inl rfl), hhits, ⟨use, huse, hedge⟩,
    (hagree _ rfl rfl).2 ⟨rfl, use, huse, hedge⟩⟩

end CodeAtlas
