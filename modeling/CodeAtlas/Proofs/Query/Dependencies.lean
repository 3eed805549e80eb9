import CodeAtlas.Proofs.Query.Expansion
import CodeAtlas.Proofs.Query.Route
import Mathlib.Data.List.Lattice
import Mathlib.Logic.Relation

/-! Which dependencies a walk finds. With room for all nodes, in depth and in number, it finds exactly those
of the nodes that can be reached, each once. A smaller depth is counted along the walk and not along the
shortest way: a node that is first met at the last level is not looked behind, however near it is, so
only what lies behind no such node is sure to be found. -/

namespace CodeAtlas

namespace Graph

/-- Whether a node depends on another by an edge between them. -/
def DependsOn (g : Graph) (x y : Scalar) : Prop :=
  ∃ e ∈ g.edges.values, e.kind = .dependsOn ∧ e.source = x ∧ e.target = y

/-- Whether so many dependencies lead from a node to another. -/
inductive DependsIn (g : Graph) (x : Scalar) : Nat → Scalar → Prop where
  | zero : DependsIn g x 0 x
  | succ {n : Nat} {y z : Scalar} (h : DependsIn g x n y) (hyz : g.DependsOn y z) :
    DependsIn g x (n + 1) z

theorem DependsIn.reachable {g : Graph} {x y : Scalar} {n : Nat} (h : DependsIn g x n y) :
    Relation.ReflTransGen g.DependsOn x y := by
  induction h with
  | zero => exact .refl
  | succ _ hyz ih => exact ih.tail hyz

theorem DependsIn.eq_or_dependsOn {g : Graph} {x y : Scalar} {n : Nat} (h : DependsIn g x n y)
    (hn : n ≤ 1) : y = x ∨ n = 1 ∧ g.DependsOn x y := by
  cases h with
  | zero => exact Or.inl rfl
  | succ h hyz =>
    cases h with
    | zero => exact Or.inr ⟨rfl, hyz⟩
    | succ _ _ => omega

/-- Whether a node depends on another by an edge that is not among the hits of the last level. -/
def DependsAbove (g : Graph) (hits : List Hit) (last : Nat) (x y : Scalar) : Prop :=
  ∃ e ∈ g.edges.values, e.kind = .dependsOn ∧ e.source = x ∧ e.target = y ∧
    ∀ h ∈ hits, h.relationship = some e → h.depth ≠ some last

end Graph

/-- The answer for one dependency that was found. -/
def DependencyHit.toHit (h : DependencyHit) : Hit where
  node := h.node
  depth := some h.depth
  relationship := some h.edge

namespace Graph

variable {g : Graph} {s : Scalar}

theorem dependencyWalk_eq {bounds : WalkBounds}
    (h : ¬ (g.hasNode s = false ∨ bounds.maxDepth < 0 ∨ bounds.budget < 1)) :
    g.dependencyWalk s bounds = walkFrom g bounds [s] [.opened g s 0] := by
  rw [dependencyWalk, if_neg]
  · rfl
  · simpa [or_assoc] using h

theorem dependencies_eq_nil {bounds : WalkBounds}
    (h : g.hasNode s = false ∨ bounds.maxDepth < 0 ∨ bounds.budget < 1) : g.dependencies s bounds = [] := by
  rw [dependencies, dependencyWalk, if_pos]
  simpa [or_assoc] using h

theorem exists_frames (bounds : WalkBounds) (ht : g.TextIds) (hs : g.hasNode s = true)
    (hdepth : 0 ≤ bounds.maxDepth) (hbudget : 1 ≤ bounds.budget) :
    ∃ frames, Expands g bounds [s] [.opened g s 0] (g.dependencyWalk s bounds) frames := by
  rw [dependencyWalk_eq (by simp only [hs, reduceCtorEq, false_or]; omega)]
  exact exists_expands ht (List.forall_mem_singleton.2 Frame.isPart_opened) (List.nodup_singleton s)

end Graph

namespace Expands

variable {g : Graph} {bounds : WalkBounds} {s : Scalar} {w : Walk} {frames : List Frame} {f : Frame}
  {hit : DependencyHit} {e : Edge} (hl : g.Linked) (ht : g.TextIds) (hs : g.hasNode s = true)
  (h : Expands g bounds [s] [.opened g s 0] w frames)

include h in
theorem mem_visited_iff {k : Scalar} :
    k ∈ w.visited ↔ ∃ f ∈ Frame.opened g s 0 :: frames, f.id = k := by
  rw [h.visited]
  simp [Frame.opened, eq_comm, or_comm]

include h in
theorem nodup_ids : ((Frame.opened g s 0 :: frames).map (·.id)).Nodup := by
  have hperm : w.visited.Perm ((Frame.opened g s 0 :: frames).map (·.id)) := by
    rw [h.visited]
    exact List.perm_append_singleton s _
  exact hperm.nodup_iff.1 h.nodup

include h in
theorem opened_of_mem (hf : f ∈ Frame.opened g s 0 :: frames) : f = .opened g f.id f.depth := by
  rcases List.mem_cons.1 hf with rfl | hf
  · rfl
  · exact h.opened f hf

include h in
theorem depth_le (hdepth : 0 ≤ bounds.maxDepth) (hf : f ∈ Frame.opened g s 0 :: frames) :
    (f.depth : Int) ≤ bounds.maxDepth := by
  rcases List.mem_cons.1 hf with rfl | hf
  · exact hdepth
  · exact (h.reached f hf).1

include h in
/-- Where everything is taken up from which a relation leads on, everything is taken up that the relation
leads to. -/
theorem mem_visited_of_reflTransGen {R : Scalar → Scalar → Prop} {v : Scalar}
    (hstep : ∀ f ∈ Frame.opened g s 0 :: frames, ∀ y, R f.id y → y ∈ w.visited)
    (hv : Relation.ReflTransGen R s v) : v ∈ w.visited := by
  induction hv with
  | refl => exact h.mem_visited_iff.2 ⟨_, List.mem_cons_self, rfl⟩
  | tail _ hyz ih =>
    obtain ⟨f, hf, rfl⟩ := h.mem_visited_iff.1 ih
    exact hstep f hf _ hyz

section Frames

include hs h

theorem hasNode_of_mem (hf : f ∈ Frame.opened g s 0 :: frames) : g.hasNode f.id = true := by
  rcases List.mem_cons.1 hf with rfl | hf
  · exact hs
  · exact h.nodes f hf

theorem length_visited_le_size (ht : g.TextIds) :
    w.visited ⊆ g.nodes.keys ∧ w.visited.length ≤ g.nodes.size := by
  have hsub : w.visited ⊆ g.nodes.keys := by
    intro k hk
    obtain ⟨f, hf, rfl⟩ := h.mem_visited_iff.1 hk
    exact (Graph.isText_of_contains ht.nodes (h.hasNode_of_mem hs hf)).2
  refine ⟨hsub, ?_⟩
  rw [Table.size_eq_length_keys]
  exact (h.nodup.subperm hsub).length_le

end Frames

section Hits

include hl ht hs h

/-- The hits are the dependencies of the nodes that were taken up. -/
theorem mem_hits_iff :
    hit ∈ w.hits ↔ hit.edge ∈ g.edges.values ∧ hit.edge.kind = .dependsOn ∧
      g.nodes.get? hit.edge.target = some hit.node ∧
      ∃ f ∈ Frame.opened g s 0 :: frames, hit.edge.source = f.id ∧ hit.depth = f.depth := by
  have hframe : ∀ f ∈ Frame.opened g s 0 :: frames, (hit ∈ f.pending g ↔
      hit.edge ∈ g.edges.values ∧ hit.edge.kind = .dependsOn ∧ hit.edge.source = f.id ∧
        g.nodes.get? hit.edge.target = some hit.node ∧ hit.depth = f.depth) := by
    intro f hf
    have htext := (Graph.isText_of_contains ht.nodes (h.hasNode_of_mem hs hf)).1
    rw [h.opened_of_mem hf]
    exact Frame.mem_pending_opened hl ht htext
  rw [h.hits.mem_iff, List.singleton_append, List.mem_flatMap]
  constructor
  · rintro ⟨f, hf, hmem⟩
    obtain ⟨he, hkind, hsource, hnode, hdepth⟩ := (hframe f hf).1 hmem
    exact ⟨he, hkind, hnode, f, hf, hsource, hdepth⟩
  · rintro ⟨he, hkind, hnode, f, hf, hsource, hdepth⟩
    exact ⟨f, hf, (hframe f hf).2 ⟨he, hkind, hsource, hnode, hdepth⟩⟩

theorem exists_hit (hf : f ∈ Frame.opened g s 0 :: frames) (he : e ∈ g.edges.values)
    (hkind : e.kind = .dependsOn) (hsource : e.source = f.id) :
    ∃ n, (⟨n, e, f.depth⟩ : DependencyHit) ∈ w.hits := by
  have hnode := (hl.hasNode_of_touches ht he (Or.inr rfl)).1
  obtain ⟨n, hn⟩ := Graph.hasNode_iff.1 hnode
  exact ⟨n, (h.mem_hits_iff hl ht hs).2 ⟨he, hkind, hn, f, hf, hsource, rfl⟩⟩

/-- No dependency is reported twice: different frames have different sources. -/
theorem nodup_edges : (w.hits.map (·.edge)).Nodup := by
  have hperm := h.hits.map (·.edge)
  rw [List.singleton_append, List.map_flatMap] at hperm
  refine hperm.nodup_iff.2 (List.nodup_flatMap.2 ⟨fun f hf => ?_, ?_⟩)
  · rw [h.opened_of_mem hf]
    exact Frame.nodup_pending_opened hl ht
  · have hids := List.pairwise_map.1 h.nodup_ids
    refine hids.imp_of_mem fun {f f'} hf hf' hne e he he' => hne ?_
    have hsource : ∀ f ∈ Frame.opened g s 0 :: frames, e ∈ (f.pending g).map (·.edge) →
        e.source = f.id := by
      intro f hf he
      obtain ⟨hit, hhit, rfl⟩ := List.mem_map.1 he
      have htext := (Graph.isText_of_contains ht.nodes (h.hasNode_of_mem hs hf)).1
      rw [h.opened_of_mem hf] at hhit
      exact ((Frame.mem_pending_opened hl ht htext).1 hhit).2.2.1
    rw [← hsource f hf he, ← hsource f' hf' he']

theorem exists_above (hf : f ∈ Frame.opened g s 0 :: frames) :
    f = .opened g s 0 ∨ ∃ f' ∈ Frame.opened g s 0 :: frames, f'.depth + 1 = f.depth ∧
      g.DependsOn f'.id f.id := by
  rcases List.mem_cons.1 hf with hf | hf
  · exact Or.inl hf
  · obtain ⟨-, hit, hhit, htarget, hdepth⟩ := h.reached f hf
    obtain ⟨he, hkind, -, f', hf', hsource, hd⟩ := (h.mem_hits_iff hl ht hs).1 hhit
    exact Or.inr ⟨f', hf', hd ▸ hdepth, hit.edge, he, hkind, hsource, htarget⟩

/-- As many dependencies lead to a node that is taken up as its frame is deep. -/
theorem dependsIn_of_mem (hf : f ∈ Frame.opened g s 0 :: frames) :
    g.DependsIn s f.depth f.id := by
  induction hd : f.depth generalizing f with
  | zero =>
    rcases h.exists_above hl ht hs hf with rfl | ⟨f', -, hdepth, -⟩
    · exact .zero
    · omega
  | succ d ih =>
    rcases h.exists_above hl ht hs hf with rfl | ⟨f', hf', hdepth, hdep⟩
    · simp only [Frame.opened] at hd
      omega
    · exact (ih hf' (by omega)).succ hdep

theorem exists_of_depth_le {d : Nat} (hf : f ∈ Frame.opened g s 0 :: frames) (hd : d ≤ f.depth) :
    ∃ f' ∈ Frame.opened g s 0 :: frames, f'.depth = d := by
  induction hdepth : f.depth - d generalizing f with
  | zero => exact ⟨f, hf, by omega⟩
  | succ k ih =>
    rcases h.exists_above hl ht hs hf with rfl | ⟨f', hf', habove, -⟩
    · simp only [Frame.opened] at hd hdepth
      omega
    · exact ih hf' (by omega) (by omega)

/-- So no frame is deeper than there are nodes taken up. -/
theorem depth_lt (hf : f ∈ Frame.opened g s 0 :: frames) : f.depth < w.visited.length := by
  have hsub : List.range (f.depth + 1) ⊆ (Frame.opened g s 0 :: frames).map (·.depth) := by
    intro d hd
    obtain ⟨f', hf', rfl⟩ :=
      h.exists_of_depth_le hl ht hs hf (Nat.lt_succ_iff.1 (List.mem_range.1 hd))
    exact List.mem_map_of_mem hf'
  have hlen := (List.nodup_range.subperm hsub).length_le
  rw [List.length_range, List.length_map, List.length_cons] at hlen
  rw [h.visited, List.length_append, List.length_map, List.length_singleton]
  exact hlen

/-- With room for all nodes, a dependency above the last level leads to a node that is taken up. -/
theorem mem_visited_of_hit (hroom : (g.nodes.size : Int) ≤ bounds.budget) (hhit : hit ∈ w.hits)
    (hdepth : (hit.depth : Int) + 1 ≤ bounds.maxDepth) : hit.edge.target ∈ w.visited := by
  rcases h.followed hit hhit hdepth with hmem | hfull
  · exact hmem
  · obtain ⟨hsub, -⟩ := h.length_visited_le_size hs ht
    have hlen : g.nodes.keys.length ≤ w.visited.length := by
      rw [← Table.size_eq_length_keys]
      omega
    have hperm := (h.nodup.subperm hsub).perm_of_length_le hlen
    have hnode := ((h.mem_hits_iff hl ht hs).1 hhit).2.2.1
    exact hperm.mem_iff.2 (Graph.isText_of_contains ht.nodes (Table.contains_of_get? hnode)).2

/-- With room for all nodes in depth and number, the edges reported are the dependencies that can be
reached. -/
theorem mem_edges_iff (hroom : (g.nodes.size : Int) ≤ bounds.budget)
    (hdeep : (g.nodes.size : Int) ≤ bounds.maxDepth) :
    e ∈ w.hits.map (·.edge) ↔ e ∈ g.edges.values ∧ e.kind = .dependsOn ∧
      Relation.ReflTransGen g.DependsOn s e.source := by
  constructor
  · intro he
    obtain ⟨hit, hhit, rfl⟩ := List.mem_map.1 he
    obtain ⟨he, hkind, -, f, hf, hsource, -⟩ := (h.mem_hits_iff hl ht hs).1 hhit
    exact ⟨he, hkind, hsource ▸ (h.dependsIn_of_mem hl ht hs hf).reachable⟩
  · rintro ⟨he, hkind, hreach⟩
    have hvisited : e.source ∈ w.visited := by
      refine h.mem_visited_of_reflTransGen (fun f hf y hy => ?_) hreach
      obtain ⟨e', he', hkind', hsource, rfl⟩ := hy
      obtain ⟨n, hhit⟩ := h.exists_hit hl ht hs hf he' hkind' hsource
      have hdepth := h.depth_lt hl ht hs hf
      have hsize := (h.length_visited_le_size hs ht).2
      exact h.mem_visited_of_hit hl ht hs hroom hhit (by simp only; omega)
    obtain ⟨f, hf, hsource⟩ := h.mem_visited_iff.1 hvisited
    obtain ⟨n, hhit⟩ := h.exists_hit hl ht hs hf he hkind hsource.symm
    exact List.mem_map.2 ⟨_, hhit, rfl⟩

end Hits

end Expands

/-- Asked for the dependencies of anything that can be an id, the engine answers with what the walk found. -/
theorem QueryEngine.findDependencies_key {q : QueryEngine} {maxDepth budget : Int} {k : Scalar}
    (hl : q.graph.Linked) (ht : q.graph.TextIds) (hbudget : q.nodeBudget = .ok budget)
    (hk : (Value.scalar k).isFalsy = false) :
    q.findDependencies (.scalar k) (.int maxDepth) =
      .ok ((q.graph.dependencies k ⟨maxDepth, budget⟩).map (·.toHit)) := by
  have hkey : q.nodeKey? (.scalar k) = .ok (if q.graph.hasNode k then some k else none) := by
    rw [nodeKey?, hk]
    rfl
  rw [findDependencies, hkey]
  by_cases hs : q.graph.hasNode k = true
  · rw [if_pos hs]
    change ((if maxDepth < 0 then Except.ok [] else do
        let n ← q.nodeBudget
        q.graph.ordered (q.graph.dependencyWalk k ⟨maxDepth, n⟩).visited
          ((q.graph.dependencies k ⟨maxDepth, n⟩).map DependencyHit.toHit)) :
        Checked (List Hit)) = _
    by_cases hd : maxDepth < 0
    · rw [if_pos hd, Graph.dependencies_eq_nil (Or.inr (Or.inl hd))]
      rfl
    · rw [if_neg hd, hbudget]
      exact Graph.ordered_of_textIds hl ht _ _
  · rw [if_neg hs, Graph.dependencies_eq_nil (Or.inl (Bool.eq_false_iff.2 hs))]
    rfl

theorem QueryEngine.findDependencies_eq {q : QueryEngine} {maxDepth : Nat} {budget : Int} {s : String}
    (hl : q.graph.Linked) (ht : q.graph.TextIds) (hbudget : q.nodeBudget = .ok budget) (hne : s ≠ "") :
    q.findDependencies (.text s) (.int maxDepth) =
      .ok ((q.graph.dependencies (.text s) ⟨maxDepth, budget⟩).map (·.toHit)) :=
  findDependencies_key hl ht hbudget (Value.isFalsy_text hne)

/-- The engine's walk with room for all nodes, by its frames. -/
theorem QueryEngine.exists_frames {q : QueryEngine} {limit : Int} {s : String} (maxDepth : Nat)
    (hl : q.graph.Linked) (ht : q.graph.TextIds) (hlimit : q.budget = .int limit) (hne : s ≠ "")
    (hs : q.graph.hasNode (.text s) = true) (hroom : (q.graph.nodes.size : Int) ≤ limit) :
    ∃ w frames, q.findDependencies (.text s) (.int maxDepth) = .ok (w.hits.map (·.toHit)) ∧
      Expands q.graph ⟨maxDepth, limit⟩ [.text s] [.opened q.graph (.text s) 0] w frames := by
  have hsize : 1 ≤ q.graph.nodes.size := by
    obtain ⟨k, hk, -⟩ := Table.contains_iff_mem.1 hs
    rw [Table.size_eq_length_keys]
    exact List.length_pos_of_mem hk
  have hbudget : q.nodeBudget = .ok limit := by
    rw [nodeBudget_int hlimit, if_neg (by omega)]
  obtain ⟨frames, h⟩ := Graph.exists_frames ⟨maxDepth, limit⟩ ht hs (Int.natCast_nonneg maxDepth)
    (by simp only; omega)
  exact ⟨_, frames, findDependencies_eq hl ht hbudget hne, h⟩

/-- Where the walk has room for all nodes in depth and in number, its hits are the dependencies of the nodes
that can be reached along dependencies, each of them once and with its target. -/
theorem findDependencies_exact {q : QueryEngine} {limit : Int} {maxDepth : Nat} {s : String}
    (hl : q.graph.Linked) (ht : q.graph.TextIds) (hlimit : q.budget = .int limit) (hne : s ≠ "")
    (hs : q.graph.hasNode (.text s) = true) (hroom : (q.graph.nodes.size : Int) ≤ limit)
    (hdeep : q.graph.nodes.size ≤ maxDepth) :
    ∃ hits es, q.findDependencies (.text s) (.int maxDepth) = .ok hits ∧
      es.Nodup ∧
      (∀ e, e ∈ es ↔ e ∈ q.graph.edges.values ∧ e.kind = .dependsOn ∧
        Relation.ReflTransGen q.graph.DependsOn (.text s) e.source) ∧
      List.Forall₂ (fun e h => h.relationship = some e ∧ q.graph.nodes.get? e.target = some h.node)
        es hits := by
  obtain ⟨w, frames, hfound, h⟩ := QueryEngine.exists_frames maxDepth hl ht hlimit hne hs
    hroom
  refine ⟨_, w.hits.map (·.edge), hfound, h.nodup_edges hl ht hs, fun e => ?_, ?_⟩
  · exact h.mem_edges_iff hl ht hs hroom (by simp only; omega)
  · rw [List.forall₂_map_left_iff, List.forall₂_map_right_iff, List.forall₂_same]
    intro hit hhit
    exact ⟨rfl, ((h.mem_hits_iff hl ht hs).1 hhit).2.2.1⟩

def samplePackage (name : String) : Node :=
  .fresh "t0" (.text name) ⟨.dependency, some (.text name), ∅, 1.0⟩

def samplePackages : Table Node :=
  .ofList (["A", "B", "C", "D"].map fun name => (.text name, samplePackage name))

def sampleDependency (id source target : String) : Edge :=
  ⟨.text id, .text source, .text target, .dependsOn, 1.0, ∅, .text "t1"⟩

/-- A cycle of packages with a shortcut: `A` depends on `C` and `B`, `C` on `B`, `B` on `D` and `D` on `A`.
The dependencies stand in the order of their ids. -/
def sampleDependencies : List Edge :=
  [("157104056a98b273", "A", "C"), ("4554422983373ee4", "C", "B"), ("74e80b328b287bad", "B", "D"),
    ("cd20253d08f7afcd", "A", "B"), ("daeaae6df60830f7", "D", "A")].map
    fun (id, source, target) => sampleDependency id source target

def packageEngine : QueryEngine where
  graph := sampleDependencies.foldl .putEdge (.ofNodes samplePackages)
  threshold := .float 0.5
  budget := .int 10

theorem isText_of_mem_sampleDependencies : ∀ e ∈ sampleDependencies, e.id.IsText := by
  intro e he
  obtain ⟨p, -, rfl⟩ := List.mem_map.1 he
  exact ⟨p.1, rfl⟩

theorem unconnected_samplePackages :
    ∀ k n, samplePackages.get? k = some n → n.id.canon = k.canon ∧ n.connections = ∅ := by
  have hentries : samplePackages.entries =
      ["A", "B", "C", "D"].map fun name => (.text name, samplePackage name) := rfl
  intro k n hn
  obtain ⟨p, hp, hk, rfl⟩ := Table.mem_of_get? hn
  obtain ⟨name, -, rfl⟩ := List.mem_map.1 (hentries ▸ hp)
  exact ⟨hk, rfl⟩

theorem accounted_packageEngine : Accounted packageEngine.graph sampleDependencies :=
  (Graph.accounted_ofNodes unconnected_samplePackages).foldl_putEdge (by decide)

theorem textIds_samplePackages : (Graph.ofNodes samplePackages).TextIds where
  nodes k hk := by
    have hkeys : samplePackages.keys = ["A", "B", "C", "D"].map Scalar.text := rfl
    obtain ⟨name, -, rfl⟩ := List.mem_map.1 (hkeys ▸ hk)
    exact ⟨name, rfl⟩
  edges _ h := nomatch h

theorem textIds_packageEngine : packageEngine.graph.TextIds :=
  textIds_samplePackages.foldl_putEdge isText_of_mem_sampleDependencies

theorem kind_of_mem_sampleDependencies : ∀ e ∈ sampleDependencies, e.kind = .dependsOn := by decide

theorem dependsOn_packageEngine :
    packageEngine.graph.DependsOn (.text "A") (.text "C") ∧
    packageEngine.graph.DependsOn (.text "A") (.text "B") ∧
    packageEngine.graph.DependsOn (.text "B") (.text "D") := by
  have hdep : ∀ e ∈ sampleDependencies, packageEngine.graph.DependsOn e.source e.target :=
    fun e he => ⟨e, he, kind_of_mem_sampleDependencies e he, rfl, rfl⟩
  refine ⟨hdep (sampleDependency "157104056a98b273" "A" "C") ?_,
    hdep (sampleDependency "cd20253d08f7afcd" "A" "B") ?_,
    hdep (sampleDependency "74e80b328b287bad" "B" "D") ?_⟩ <;> simp [sampleDependencies]

theorem findDependencies_exact_packageEngine :
    ∃ hits es, packageEngine.findDependencies (.text "A") (.int 4) = .ok hits ∧ es.Nodup ∧
      (∀ e ∈ sampleDependencies, e ∈ es) ∧
      List.Forall₂ (fun e h => h.relationship = some e ∧
        packageEngine.graph.nodes.get? e.target = some h.node) es hits := by
  obtain ⟨hits, es, hfound, hnodup, hmem, hhits⟩ := @findDependencies_exact packageEngine 10 4 "A"
    accounted_packageEngine.linked textIds_packageEngine rfl (by decide) (by decide) (by decide)
    (by decide)
  refine ⟨hits, es, hfound, hnodup, fun e he => (hmem e).2 ?_, hhits⟩
  obtain ⟨hAC, hAB, hBD⟩ := dependsOn_packageEngine
  refine ⟨he, kind_of_mem_sampleDependencies e he, ?_⟩
  simp only [sampleDependencies, List.map_cons, List.map_nil, List.mem_cons, List.not_mem_nil,
    or_false] at he
  rcases he with rfl | rfl | rfl | rfl | rfl
  exacts [.refl, .single hAC, .single hAB, .refl, (Relation.ReflTransGen.single hAB).tail hBD]

/-- Where the walk has room for all nodes in number, its hits are dependencies of nodes to which as many
dependencies lead as the hit says, within the depth asked for. It finds every dependency of a node to which
dependencies lead that it did not find at the last level, and of a node that is at most one step away. -/
theorem findDependencies_above_last {q : QueryEngine} {limit : Int} {maxDepth : Nat} {s : String}
    (hl : q.graph.Linked) (ht : q.graph.TextIds) (hlimit : q.budget = .int limit) (hne : s ≠ "")
    (hs : q.graph.hasNode (.text s) = true) (hroom : (q.graph.nodes.size : Int) ≤ limit) :
    ∃ hits, q.findDependencies (.text s) (.int maxDepth) = .ok hits ∧
      (∀ h ∈ hits, ∃ e ∈ q.graph.edges.values, ∃ d ≤ maxDepth, h.relationship = some e ∧
        h.depth = some d ∧ e.kind = .dependsOn ∧ q.graph.DependsIn (.text s) d e.source) ∧
      (∀ e ∈ q.graph.edges.values, e.kind = .dependsOn →
        Relation.ReflTransGen (q.graph.DependsAbove hits maxDepth) (.text s) e.source →
        ∃ h ∈ hits, h.relationship = some e) ∧
      ∀ e ∈ q.graph.edges.values, e.kind = .dependsOn →
        ∀ n ≤ min 1 maxDepth, q.graph.DependsIn (.text s) n e.source →
        ∃ h ∈ hits, h.relationship = some e := by
  obtain ⟨w, frames, hfound, h⟩ := QueryEngine.exists_frames maxDepth hl ht hlimit hne hs
    hroom
  have hreport : ∀ e ∈ q.graph.edges.values, e.kind = .dependsOn → e.source ∈ w.visited →
      ∃ a ∈ w.hits.map (·.toHit), a.relationship = some e := by
    intro e he hkind hvisited
    obtain ⟨f, hf, hsource⟩ := h.mem_visited_iff.1 hvisited
    obtain ⟨n, hhit⟩ := h.exists_hit hl ht hs hf he hkind hsource.symm
    exact ⟨_, List.mem_map_of_mem hhit, rfl⟩
  refine ⟨_, hfound, fun a ha => ?_, fun e he hkind hreach => hreport e he hkind ?_,
    fun e he hkind n hn hsteps => hreport e he hkind ?_⟩
  · obtain ⟨hit, hhit, rfl⟩ := List.mem_map.1 ha
    obtain ⟨he, hkind, -, f, hf, hsource, hdepth⟩ := (h.mem_hits_iff hl ht hs).1 hhit
    have hle : (f.depth : Int) ≤ maxDepth := h.depth_le (by simp only; omega) hf
    refine ⟨hit.edge, he, hit.depth, by omega, rfl, rfl, hkind, ?_⟩
    rw [hsource, hdepth]
    exact h.dependsIn_of_mem hl ht hs hf
  · refine h.mem_visited_of_reflTransGen (fun f hf y hy => ?_) hreach
    obtain ⟨e', he', hkind', hsource, rfl, habove⟩ := hy
    obtain ⟨n, hhit⟩ := h.exists_hit hl ht hs hf he' hkind' hsource
    have hne : f.depth ≠ maxDepth := fun heq =>
      habove _ (List.mem_map_of_mem hhit) rfl (congrArg some heq)
    have hle : (f.depth : Int) ≤ maxDepth := h.depth_le (by simp only; omega) hf
    exact h.mem_visited_of_hit hl ht hs hroom hhit (by simp only; omega)
  · rcases hsteps.eq_or_dependsOn (by omega) with hstart | ⟨rfl, e', he', hkind', hsource, htarget⟩
    · exact hstart ▸ h.mem_visited_iff.2 ⟨_, List.mem_cons_self, rfl⟩
    · obtain ⟨n, hhit⟩ := h.exists_hit hl ht hs List.mem_cons_self he' hkind' hsource
      rw [← htarget]
      exact h.mem_visited_of_hit hl ht hs hroom hhit (by simp only [Frame.opened]; omega)

theorem findDependencies_above_last_packageEngine :
    ∃ hits, packageEngine.findDependencies (.text "A") (.int 2) = .ok hits ∧
      ∃ h ∈ hits, h.relationship = some (sampleDependency "4554422983373ee4" "C" "B") := by
  obtain ⟨hits, hfound, -, -, hnear⟩ := @findDependencies_above_last packageEngine 10 2 "A"
    accounted_packageEngine.linked textIds_packageEngine rfl (by decide) (by decide) (by decide)
  have hmem : sampleDependency "4554422983373ee4" "C" "B" ∈ sampleDependencies := by
    simp [sampleDependencies]
  exact ⟨hits, hfound, hnear _ hmem rfl 1 (by decide) (.succ .zero dependsOn_packageEngine.1)⟩

theorem Graph.neighbors_of_pairwise {g : Graph} {id : Scalar} {n : Node}
    (hn : g.nodes.get? id = some n)
    (h : n.connections.keys.Pairwise fun a b => a.le b = true) :
    g.neighbors id = n.connections.keys.filterMap fun eid =>
      (g.edges.get? eid).map fun e => (e, e.otherEnd id) := by
  have hsorted : sortKeys n.connections.keys = n.connections.keys := List.mergeSort_of_pairwise h
  unfold neighbors
  rw [hn]
  simp only [hsorted]

/-- Down to depth two the walk from `A` meets `B` behind `C`, at the last level, and does not look behind it
when it meets it again. -/
theorem edges_packageEngine :
    (packageEngine.graph.dependencies (.text "A") ⟨2, 10⟩).map (·.edge) = [
      sampleDependency "157104056a98b273" "A" "C",
      sampleDependency "4554422983373ee4" "C" "B",
      sampleDependency "74e80b328b287bad" "B" "D",
      sampleDependency "cd20253d08f7afcd" "A" "B"] := by
  have hA : packageEngine.graph.neighbors (.text "A") = [
      (sampleDependency "157104056a98b273" "A" "C", .text "C"),
      (sampleDependency "cd20253d08f7afcd" "A" "B", .text "B"),
      (sampleDependency "daeaae6df60830f7" "D" "A", .text "D")] :=
    (Graph.neighbors_of_pairwise rfl (by decide)).trans rfl
  have hB : packageEngine.graph.neighbors (.text "B") = [
      (sampleDependency "4554422983373ee4" "C" "B", .text "C"),
      (sampleDependency "74e80b328b287bad" "B" "D", .text "D"),
      (sampleDependency "cd20253d08f7afcd" "A" "B", .text "A")] :=
    (Graph.neighbors_of_pairwise rfl (by decide)).trans rfl
  have hC : packageEngine.graph.neighbors (.text "C") = [
      (sampleDependency "157104056a98b273" "A" "C", .text "A"),
      (sampleDependency "4554422983373ee4" "C" "B", .text "B")] :=
    (Graph.neighbors_of_pairwise rfl (by decide)).trans rfl
  unfold Graph.dependencies Graph.dependencyWalk
  rw [if_neg (by decide), hA]
  -- `C` is taken up from `A`, and `B` from `C`
  rw [walkFrom_of_some rfl, if_neg (by decide), hC, walkFrom_of_none rfl]
  rw [walkFrom_of_some rfl, if_neg (by decide), hB, walkFrom_of_none rfl]
  -- `D` is too deep
  rw [walkFrom_of_some rfl, if_pos (by decide), walkFrom_of_none rfl, walkFrom, walkFrom]
  -- `B` was taken up before
  rw [walkFrom_of_some rfl, if_pos (by decide), walkFrom_of_none rfl, walkFrom, walkFrom]
  rfl

/-- A dependency of a node that is no more steps away than the depth asked for may be missing. -/
theorem findDependencies_misses :
    packageEngine.graph.Linked ∧ packageEngine.graph.Exact ∧ packageEngine.graph.TextIds ∧
    packageEngine.graph.hasNode (.text "A") = true ∧ packageEngine.budget = .int 10 ∧
    packageEngine.graph.nodes.size ≤ 10 ∧
    ∃ hits, packageEngine.findDependencies (.text "A") (.int 2) = .ok hits ∧
      ∃ e ∈ packageEngine.graph.edges.values, e.kind = .dependsOn ∧
        packageEngine.graph.DependsIn (.text "A") 2 e.source ∧
        ¬ ∃ h ∈ hits, h.relationship = some e := by
  have hexact : packageEngine.graph.Exact := by
    refine accounted_packageEngine.exact isText_of_mem_sampleDependencies ?_
    simp [Agreeing, sampleDependencies, sampleDependency]
  have hmem : sampleDependency "daeaae6df60830f7" "D" "A" ∈ sampleDependencies := by
    simp [sampleDependencies]
  obtain ⟨-, hAB, hBD⟩ := dependsOn_packageEngine
  have hfound := @QueryEngine.findDependencies_eq packageEngine 2 10 "A"
    accounted_packageEngine.linked textIds_packageEngine rfl (by decide)
  refine ⟨accounted_packageEngine.linked, hexact, textIds_packageEngine, by decide, rfl, by decide,
    _, hfound, _, hmem, rfl, .succ (.succ .zero hAB) hBD, ?_⟩
  rintro ⟨a, ha, hedge⟩
  obtain ⟨hit, hhit, rfl⟩ := List.mem_map.1 ha
  have hlisted := List.mem_map_of_mem (f := (·.edge)) hhit
  rw [Int.cast_ofNat_Int, edges_packageEngine, Option.some.inj hedge] at hlisted
  simp [sampleDependency] at hlisted

end CodeAtlas
