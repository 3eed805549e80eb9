import CodeAtlas.Proofs.Query.Dependencies
import Mathlib.Data.List.Dedup

/-! The order in which a dependency walk reports. A hit of depth zero comes from the start, and any other from
the node of the last hit before it that is one level above: what lies behind a node is reported right
after the node. The stack carries this: every frame but the lowest was opened by a hit that still is the
last one of its depth, as all that was reported since is deeper. -/

namespace CodeAtlas

def lastAt (depth : Nat) (hits : List DependencyHit) : Option DependencyHit :=
  (hits.filter (·.depth = depth)).getLast?

/-- Whether `id` is the node that a hit of this depth has to come from, after the hits `earlier` of a walk
from `start`. -/
def Leads (start : Scalar) (earlier : List DependencyHit) : Nat → Scalar → Prop
  | 0, id => id = start
  | depth + 1, id => ∃ above, lastAt depth earlier = some above ∧ above.node.id = id

/-- Whether each of the hits comes, after the hits `earlier`, from where its depth says. -/
def InPreorder (start : Scalar) (earlier hits : List DependencyHit) : Prop :=
  ∀ before h later, hits = before ++ h :: later → Leads start (earlier ++ before) h.depth h.edge.source

section Order

variable {start id : Scalar} {earlier rest : List DependencyHit} {h : DependencyHit} {depth : Nat}

theorem lastAt_concat :
    lastAt depth (earlier ++ [h]) = if h.depth = depth then some h else lastAt depth earlier := by
  by_cases hd : h.depth = depth <;> simp [lastAt, hd]

theorem Leads.concat (hid : Leads start earlier depth id) (hd : depth ≤ h.depth) :
    Leads start (earlier ++ [h]) depth id := by
  cases depth with
  | zero => exact hid
  | succ d =>
    obtain ⟨above, hlast, hnode⟩ := hid
    exact ⟨above, by rw [lastAt_concat, if_neg (by omega), hlast], hnode⟩

theorem leads_node : Leads start (earlier ++ [h]) (h.depth + 1) h.node.id :=
  ⟨h, by rw [lastAt_concat, if_pos rfl], rfl⟩

theorem InPreorder.nil : InPreorder start earlier [] := by
  intro before h later heq
  simp at heq

theorem InPreorder.cons (hh : Leads start earlier h.depth h.edge.source)
    (hrest : InPreorder start (earlier ++ [h]) rest) : InPreorder start earlier (h :: rest) := by
  intro before h' later heq
  cases before with
  | nil =>
    obtain ⟨rfl, -⟩ := List.cons.inj heq
    simpa using hh
  | cons first before =>
    obtain ⟨rfl, htail⟩ := List.cons.inj heq
    simpa using hrest before h' later htail

end Order

/-- A stack under way, once the hits `earlier` are reported: its frames look at edges of their nodes, each is
deeper than those below it, and each stands for the node that hits of its depth come from. -/
structure Suspended (g : Graph) (start : Scalar) (earlier : List DependencyHit) (stack : List Frame) :
    Prop where
  part : ∀ f ∈ stack, f.IsPart g
  leads : ∀ f ∈ stack, Leads start earlier f.depth f.id
  depths : stack.Pairwise fun f below => below.depth < f.depth

namespace Suspended

variable {g : Graph} {start id other : Scalar} {earlier : List DependencyHit} {depth : Nat} {e : Edge}
  {n : Node} {edges rest : List (Edge × Scalar)} {f : Frame} {below : List Frame}

theorem opened (g : Graph) (start : Scalar) : Suspended g start [] [.opened g start 0] where
  part := List.forall_mem_singleton.2 Frame.isPart_opened
  leads := List.forall_mem_singleton.2 rfl
  depths := List.pairwise_singleton _ _

theorem pop (h : Suspended g start earlier (f :: below)) : Suspended g start earlier below where
  part := (List.forall_mem_cons.1 h.part).2
  leads := (List.forall_mem_cons.1 h.leads).2
  depths := (List.pairwise_cons.1 h.depths).2

theorem skip (h : Suspended g start earlier (⟨id, depth, (e, other) :: rest⟩ :: below)) :
    Suspended g start earlier (⟨id, depth, rest⟩ :: below) where
  part := by
    obtain ⟨hfront, hbelow⟩ := List.forall_mem_cons.1 h.part
    exact List.forall_mem_cons.2 ⟨hfront.tail, hbelow⟩
  leads := by
    obtain ⟨hfront, hbelow⟩ := List.forall_mem_cons.1 h.leads
    exact List.forall_mem_cons.2 ⟨hfront, hbelow⟩
  depths := by
    obtain ⟨hfront, hbelow⟩ := List.pairwise_cons.1 h.depths
    exact List.pairwise_cons.2 ⟨hfront, hbelow⟩

theorem depth_le (h : Suspended g start earlier (⟨id, depth, edges⟩ :: below)) :
    ∀ f ∈ (⟨id, depth, edges⟩ : Frame) :: below, f.depth ≤ depth := by
  intro f hf
  rcases List.mem_cons.1 hf with rfl | hf
  · exact Nat.le_refl _
  · exact Nat.le_of_lt ((List.pairwise_cons.1 h.depths).1 f hf)

theorem report (h : Suspended g start earlier (⟨id, depth, edges⟩ :: below)) :
    Suspended g start (earlier ++ [⟨n, e, depth⟩]) (⟨id, depth, edges⟩ :: below) where
  part := h.part
  leads f hf := (h.leads f hf).concat (h.depth_le f hf)
  depths := h.depths

theorem follow (h : Suspended g start (earlier ++ [⟨n, e, depth⟩]) (⟨id, depth, edges⟩ :: below))
    (hnode : n.id = other) :
    Suspended g start (earlier ++ [⟨n, e, depth⟩])
      (.opened g other (depth + 1) :: ⟨id, depth, edges⟩ :: below) where
  part := List.forall_mem_cons.2 ⟨Frame.isPart_opened, h.part⟩
  leads := List.forall_mem_cons.2 ⟨hnode ▸ leads_node, h.leads⟩
  depths := List.pairwise_cons.2 ⟨fun f hf => Nat.lt_succ_of_le (h.depth_le f hf), h.depths⟩

theorem leads_source (hl : g.Linked) (ht : g.TextIds)
    (h : Suspended g start earlier (⟨id, depth, (e, other) :: rest⟩ :: below))
    (hdep : dependencyOf? g id e other = some n) : Leads start earlier depth e.source := by
  obtain ⟨hsource, -, -⟩ := dependencyOf?_eq_some.1 hdep
  have hedge := (Graph.mem_edges_of_mem_neighbors (h.part _ List.mem_cons_self _ List.mem_cons_self)).1
  have htext := (hl.hasNode_of_touches ht hedge (Or.inl rfl)).2
  have hid : id = e.source := Scalar.isText_of_canon_eq hsource.symm htext
  exact hid ▸ h.leads _ List.mem_cons_self

end Suspended

/-- A walk goes on in preorder after what was reported before. -/
theorem inPreorder_walkFrom {g : Graph} {bounds : WalkBounds} {start : Scalar} (hl : g.Linked)
    (ht : g.TextIds) (visited : List Scalar) (stack : List Frame) :
    ∀ earlier, Suspended g start earlier stack →
      InPreorder start earlier (walkFrom g bounds visited stack).hits := by
  induction visited, stack using walkFrom.induct g bounds with
  | case1 visited =>
    intro earlier h
    rw [walkFrom]
    exact .nil
  | case2 visited id depth below ih =>
    intro earlier h
    rw [walkFrom]
    exact ih earlier h.pop
  | case3 visited id depth e other rest below here hdep ih =>
    intro earlier h
    rw [walkFrom_of_none hdep]
    exact ih earlier h.skip
  | case4 visited id depth e other rest below here n hdep ihstay ihfollow =>
    intro earlier h
    have hnode := (dependencyOf?_eq_some.1 hdep).2.2
    have hother := (Graph.isText_of_contains ht.nodes (Table.contains_of_get? hnode)).1
    have hid : n.id = other := Scalar.isText_of_canon_eq (hl.nodes_keyed other n hnode) hother
    have hreport : Suspended g start (earlier ++ [⟨n, e, depth⟩]) (here :: below) := h.skip.report
    rw [walkFrom_of_some hdep]
    split
    · exact .cons (h.leads_source hl ht hdep) (ihstay _ hreport)
    · rename_i hgo
      exact .cons (h.leads_source hl ht hdep) (ihfollow hgo _ (hreport.follow hid))

/-- A walk takes up no more nodes than its budget allows. -/
theorem length_visited_walkFrom_le {g : Graph} {bounds : WalkBounds} {visited : List Scalar}
    {stack : List Frame} (h : (visited.length : Int) ≤ bounds.budget) :
    ((walkFrom g bounds visited stack).visited.length : Int) ≤ bounds.budget := by
  induction visited, stack using walkFrom.induct g bounds with
  | case1 visited =>
    rw [walkFrom]
    exact h
  | case2 visited id depth below ih =>
    rw [walkFrom]
    exact ih h
  | case3 visited id depth e other rest below here hdep ih =>
    rw [walkFrom_of_none hdep]
    exact ih h
  | case4 visited id depth e other rest below here n hdep ihstay ihfollow =>
    rw [walkFrom_of_some hdep]
    split
    · exact ihstay h
    · rename_i hgo
      refine ihfollow hgo ?_
      rw [List.length_cons]
      omega

namespace Expands

variable {g : Graph} {bounds : WalkBounds} {s : Scalar} {w : Walk} {frames : List Frame}
  (hl : g.Linked) (ht : g.TextIds) (hs : g.hasNode s = true)
  (h : Expands g bounds [s] [.opened g s 0] w frames)

include hl ht hs h

theorem nodup_edge_ids : (w.hits.map (·.edge.id)).Nodup := by
  have hmap : w.hits.map (·.edge.id) = (w.hits.map (·.edge)).map (·.id) := (List.map_map).symm
  rw [hmap]
  refine (h.nodup_edges hl ht hs).map_on fun e he e' he' hid => ?_
  obtain ⟨hit, hhit, rfl⟩ := List.mem_map.1 he
  obtain ⟨hit', hhit', rfl⟩ := List.mem_map.1 he'
  have hget := (hl.get?_edge ht ((h.mem_hits_iff hl ht hs).1 hhit).1).1
  have hget' := (hl.get?_edge ht ((h.mem_hits_iff hl ht hs).1 hhit').1).1
  rw [hid, hget'] at hget
  exact (Option.some.inj hget).symm

theorem length_sources_le : (w.hits.map (·.edge.source)).dedup.length ≤ w.visited.length := by
  have hsub : (w.hits.map (·.edge.source)).dedup ⊆ w.visited := by
    intro k hk
    obtain ⟨hit, hhit, rfl⟩ := List.mem_map.1 (List.mem_dedup.1 hk)
    obtain ⟨-, -, -, f, hf, hsource, -⟩ := (h.mem_hits_iff hl ht hs).1 hhit
    exact h.mem_visited_iff.2 ⟨f, hf, hsource.symm⟩
  exact ((List.nodup_dedup _).subperm hsub).length_le

end Expands

namespace Graph

variable {g : Graph} {s : Scalar} {bounds : WalkBounds}

/-- What a walk reports of a graph: stored dependencies with their targets, in preorder, none twice, and of no
more nodes than the budget allows. -/
theorem dependencies_spec (hl : g.Linked) (ht : g.TextIds) (s : Scalar) (bounds : WalkBounds) :
    (∀ h ∈ g.dependencies s bounds, h.edge ∈ g.edges.values ∧ h.edge.kind = .dependsOn ∧
      g.nodes.get? h.edge.target = some h.node ∧ (h.depth : Int) ≤ bounds.maxDepth) ∧
    ((g.dependencies s bounds).map (·.edge.id)).Nodup ∧
    InPreorder s [] (g.dependencies s bounds) ∧
    ((g.dependencies s bounds).map (·.edge.source)).dedup.length ≤ bounds.budget.toNat := by
  by_cases hout : g.hasNode s = false ∨ bounds.maxDepth < 0 ∨ bounds.budget < 1
  · rw [dependencies_eq_nil hout]
    exact ⟨fun _ hit => absurd hit List.not_mem_nil, List.nodup_nil, .nil, Nat.zero_le _⟩
  · have hwalk := dependencyWalk_eq hout
    simp only [not_or, Bool.not_eq_false] at hout
    obtain ⟨hs, hdepth, hbudget⟩ := hout
    obtain ⟨frames, h⟩ := exists_frames bounds ht hs (by omega) (by omega)
    rw [dependencies]
    refine ⟨fun hit hhit => ?_, h.nodup_edge_ids hl ht hs, ?_, ?_⟩
    · obtain ⟨he, hkind, hnode, f, hf, -, hd⟩ := (h.mem_hits_iff hl ht hs).1 hhit
      refine ⟨he, hkind, hnode, ?_⟩
      rw [hd]
      exact h.depth_le (by omega) hf
    · rw [hwalk]
      exact inPreorder_walkFrom hl ht _ _ _ (.opened g s)
    · have hle : ((g.dependencyWalk s bounds).visited.length : Int) ≤ bounds.budget := by
        rw [hwalk]
        exact length_visited_walkFrom_le (by rw [List.length_singleton]; omega)
      have hsources := h.length_sources_le hl ht hs
      omega

end Graph

/-- Asked for dependencies, whatever the graph, the start, the depth and the budget, the engine answers with
edges that are stored and depend on the node they come with, none of them twice, at depths from zero to the
one asked for. A hit of depth zero comes from the start, and a deeper one from the node of the last hit
before it that is one level above; and the hits come from no more nodes than the budget allows. -/
theorem findDependencies_preorder {q : QueryEngine} {limit : Int} (hl : q.graph.Linked)
    (ht : q.graph.TextIds) (hlimit : q.budget = .int limit) (start : Scalar) (maxDepth : Int) :
    ∃ hits : List DependencyHit,
      q.findDependencies (.scalar start) (.int maxDepth) = .ok (hits.map (·.toHit)) ∧
      (∀ h ∈ hits, h.edge ∈ q.graph.edges.values ∧ h.edge.kind = .dependsOn ∧
        q.graph.nodes.get? h.edge.target = some h.node ∧ (h.depth : Int) ≤ maxDepth) ∧
      (hits.map (·.edge.id)).Nodup ∧
      (∀ earlier h later, hits = earlier ++ h :: later →
        Leads start earlier h.depth h.edge.source) ∧
      (hits.map (·.edge.source)).dedup.length ≤ limit.toNat := by
  by_cases hstart : (Value.scalar start).isFalsy = true
  · have hnone : q.findDependencies (.scalar start) (.int maxDepth) = .ok [] := by
      rw [QueryEngine.findDependencies, QueryEngine.nodeKey?, hstart]
      rfl
    exact ⟨[], hnone, fun _ hit => absurd hit List.not_mem_nil, List.nodup_nil,
      fun earlier h later heq => by simp at heq, Nat.zero_le _⟩
  · have hfound := @QueryEngine.findDependencies_key q maxDepth _ start hl ht
      (QueryEngine.nodeBudget_int hlimit) (Bool.eq_false_iff.2 hstart)
    obtain ⟨hhits, hnodup, horder, hsources⟩ := q.graph.dependencies_spec hl ht start
      ⟨maxDepth, if limit < 1 then 0 else limit⟩
    refine ⟨_, hfound, hhits, hnodup, fun earlier h later heq => ?_, hsources.trans ?_⟩
    · simpa using horder earlier h later heq
    · simp only
      split <;> omega

theorem findDependencies_preorder_packageEngine :
    ∃ hits : List DependencyHit,
      packageEngine.findDependencies (.text "A") (.int 2) = .ok (hits.map (·.toHit)) ∧
      hits.length = 4 ∧ (hits.map (·.edge.source)).dedup.length ≤ 10 ∧
      ∀ earlier h later, hits = earlier ++ h :: later →
        Leads (.text "A") earlier h.depth h.edge.source := by
  obtain ⟨hits, hfound, -, -, horder, hsources⟩ := findDependencies_preorder (q := packageEngine)
    accounted_packageEngine.linked textIds_packageEngine (Eq.refl (Value.int 10)) (.text "A") 2
  have hwalk := @QueryEngine.findDependencies_eq packageEngine 2 10 "A" accounted_packageEngine.linked
    textIds_packageEngine rfl (by decide)
  have hlength := congrArg List.length (Except.ok.inj (hfound.symm.trans hwalk))
  have hedges := congrArg List.length edges_packageEngine
  rw [List.length_map, List.length_map] at hlength
  rw [List.length_map] at hedges
  exact ⟨hits, hfound, hlength.trans hedges, hsources, horder⟩

end CodeAtlas
