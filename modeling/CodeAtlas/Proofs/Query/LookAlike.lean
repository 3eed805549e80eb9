import CodeAtlas.Proofs.Graph.RoundTrip
import CodeAtlas.Proofs.Query.Expansion
import CodeAtlas.Proofs.Query.Usages

/-! What a traversal sees of a graph: under every id the record of a node and its connections in order, and an
edge. Neither the order in which connections came nor the order of the tables matters to the users of a
node, its dependencies or a route. -/

namespace CodeAtlas

/-- What is seen of a node: its record, and its connections in order. -/
def Node.profile (n : Node) : Node × List Scalar := (n.bare, sortKeys n.connections.keys)

/-- Whether two graphs show the same under every id. -/
structure Graph.LooksLike (g h : Graph) : Prop where
  nodes : ∀ k, (g.nodes.get? k).map Node.profile = (h.nodes.get? k).map Node.profile
  edges : ∀ k, g.edges.get? k = h.edges.get? k

theorem areComparable_eq {keys : List Scalar} :
    areComparable keys = (decide (keys.length ≤ 1) || (keys.all (·.rank = 1) || keys.all (·.rank = 2))) := by
  match keys with
  | [] => rfl
  | [_] => rfl
  | _ :: _ :: _ => simp [areComparable]

theorem areComparable_of_perm {keys keys' : List Scalar} (h : keys.Perm keys') :
    areComparable keys = areComparable keys' := by
  rw [areComparable_eq, areComparable_eq, h.length_eq, h.all_eq, h.all_eq]

theorem perm_sortKeys (keys : List Scalar) : (sortKeys keys).Perm keys := List.mergeSort_perm _ _

namespace Node

variable {n m : Node}

theorem profile_eq : n.profile = m.profile ↔
    n.bare = m.bare ∧ sortKeys n.connections.keys = sortKeys m.connections.keys := by
  rw [profile, profile, Prod.mk.injEq]

theorem perm_connections (h : n.profile = m.profile) : n.connections.keys.Perm m.connections.keys := by
  have hsorted := (profile_eq.1 h).2
  exact (perm_sortKeys _).symm.trans (hsorted ▸ perm_sortKeys _)

theorem eq_of_profile {α : Type} {f : Node → α} (hf : ∀ n, f n.bare = f n)
    (hprofile : n.profile = m.profile) : f n = f m := by
  rw [← hf n, ← hf m, (Node.profile_eq.1 hprofile).1]

end Node

/-- A node with its connections in order. -/
def Node.inOrder (n : Node) : Node :=
  { n with connections := KeySet.ofList (sortKeys n.connections.keys) }

def Node.IsView (f : Node → Node) : Prop := ∀ n m : Node, n.profile = m.profile → f n = f m

theorem Node.isView_bare : Node.IsView Node.bare := fun _ _ h => (Node.profile_eq.1 h).1

theorem Node.isView_inOrder : Node.IsView Node.inOrder := by
  intro n m h
  have hrecord : ∀ n : Node,
      n.inOrder = { n.bare with connections := KeySet.ofList (sortKeys n.connections.keys) } :=
    fun _ => rfl
  rw [hrecord n, hrecord m, (Node.profile_eq.1 h).1, (Node.profile_eq.1 h).2]

def Hit.seen (f : Node → Node) (hit : Hit) : Hit := { hit with node := f hit.node }

def Hit.bare (hit : Hit) : Hit := { hit with node := hit.node.bare }

theorem Hit.toValue_bare (hit : Hit) : hit.bare.toValue = hit.toValue := rfl

namespace Graph.LooksLike

variable {g h : Graph} {id k : Scalar}

/-- Under an id of graphs that look alike stands nothing in both, or a node that looks the same. -/
theorem get?_cases (hlike : g.LooksLike h) (k : Scalar) :
    (g.nodes.get? k = none ∧ h.nodes.get? k = none) ∨
      ∃ n m, g.nodes.get? k = some n ∧ h.nodes.get? k = some m ∧ n.profile = m.profile := by
  have hk := hlike.nodes k
  cases hg : g.nodes.get? k with
  | none =>
    rw [hg] at hk
    exact Or.inl ⟨rfl, Option.map_eq_none_iff.1 hk.symm⟩
  | some n =>
    rw [hg] at hk
    obtain ⟨m, hm, hprofile⟩ := Option.map_eq_some_iff.1 hk.symm
    exact Or.inr ⟨n, m, rfl, hm, hprofile.symm⟩

theorem map_get? {α : Type} {f : Node → α} (hlike : g.LooksLike h) (hf : ∀ n, f n.bare = f n) (k : Scalar) :
    (g.nodes.get? k).map f = (h.nodes.get? k).map f := by
  rcases hlike.get?_cases k with ⟨hg, hh⟩ | ⟨n, m, hg, hh, hprofile⟩
  · rw [hg, hh]
  · rw [hg, hh, Option.map_some, Option.map_some, Node.eq_of_profile hf hprofile]

theorem hasNode (hlike : g.LooksLike h) : g.hasNode k = h.hasNode k := by
  rcases hlike.get?_cases k with ⟨hg, hh⟩ | ⟨n, m, hg, hh, -⟩
  · rw [Graph.hasNode, Graph.hasNode, Table.contains_eq_false_iff.2 hg, Table.contains_eq_false_iff.2 hh]
  · rw [Graph.hasNode, Graph.hasNode, Table.contains_of_get? hg, Table.contains_of_get? hh]

theorem neighbors (hlike : g.LooksLike h) : g.neighbors id = h.neighbors id := by
  rw [Graph.neighbors, Graph.neighbors]
  rcases hlike.get?_cases id with ⟨hg, hh⟩ | ⟨n, m, hg, hh, hprofile⟩
  · rw [hg, hh]
  · rw [hg, hh]
    simp only [(Node.profile_eq.1 hprofile).2, hlike.edges]

theorem orderable (hlike : g.LooksLike h) {ids : List Scalar} : g.orderable ids = h.orderable ids := by
  refine List.all_congr rfl fun id => ?_
  rcases hlike.get?_cases id with ⟨hg, hh⟩ | ⟨n, m, hg, hh, hprofile⟩
  · rw [hg, hh]
  · rw [hg, hh]
    exact areComparable_of_perm (Node.perm_connections hprofile)

theorem ordered (hlike : g.LooksLike h) {α : Type} {ids : List Scalar} {a : α} :
    g.ordered ids a = h.ordered ids a := by
  rw [Graph.ordered, Graph.ordered, hlike.orderable]

end Graph.LooksLike

def DependencyHit.seen (f : Node → Node) (hit : DependencyHit) : DependencyHit :=
  { hit with node := f hit.node }

def Walk.seen (f : Node → Node) (w : Walk) : Walk := { w with hits := w.hits.map (DependencyHit.seen f) }

def DependencyHit.shown (hit : DependencyHit) : Hit :=
  { node := hit.node, depth := some hit.depth, relationship := some hit.edge }

theorem Walk.seen_report (f : Node → Node) (hit : DependencyHit) (w : Walk) :
    (w.report hit).seen f = (w.seen f).report (hit.seen f) := rfl

section Traversals

variable {g h : Graph} {f : Node → Node}

theorem dependencyOf?_cases (hlike : g.LooksLike h) (id : Scalar) (e : Edge) (other : Scalar) :
    (dependencyOf? g id e other = none ∧ dependencyOf? h id e other = none) ∨
      ∃ n m, dependencyOf? g id e other = some n ∧ dependencyOf? h id e other = some m ∧
        n.profile = m.profile := by
  unfold dependencyOf?
  split
  · exact hlike.get?_cases other
  · exact Or.inl ⟨rfl, rfl⟩

/-- The walk reads the graph only through neighbours and look-ups, so its steps are the same in both graphs. -/
theorem walkFrom_congr (hf : Node.IsView f) (hlike : g.LooksLike h) {bounds : WalkBounds}
    {visited : List Scalar} {stack : List Frame} :
    (walkFrom g bounds visited stack).seen f = (walkFrom h bounds visited stack).seen f := by
  induction visited, stack using walkFrom.induct g bounds with
  | case1 visited => rw [walkFrom, walkFrom]
  | case2 visited id depth below ih => rw [walkFrom, ih, walkFrom]
  | case3 visited id depth e other rest below here hdep ih =>
    rcases dependencyOf?_cases hlike id e other with ⟨hg, hh⟩ | ⟨n, m, hg, -⟩
    · rw [walkFrom_of_none hg, walkFrom_of_none hh]
      exact ih
    · cases hdep.symm.trans hg
  | case4 visited id depth e other rest below here n hdep ihstay ihfollow =>
    rcases dependencyOf?_cases hlike id e other with ⟨hg, -⟩ | ⟨n', m, hg, hh, hprofile⟩
    · cases hdep.symm.trans hg
    · cases hdep.symm.trans hg
      have hhit : (⟨n, e, depth⟩ : DependencyHit).seen f = (⟨m, e, depth⟩ : DependencyHit).seen f := by
        rw [DependencyHit.seen, DependencyHit.seen, hf n m hprofile]
      rw [walkFrom_of_some hg, walkFrom_of_some hh, Walk.seen_report, Walk.seen_report, hhit]
      refine congrArg (Walk.report _) ?_
      split
      · exact ihstay
      · rename_i hgo
        rw [← hlike.neighbors]
        exact ihfollow hgo

theorem dependencyWalk_congr (hf : Node.IsView f) (hlike : g.LooksLike h) {start : Scalar}
    {bounds : WalkBounds} :
    (g.dependencyWalk start bounds).seen f = (h.dependencyWalk start bounds).seen f := by
  rw [Graph.dependencyWalk, Graph.dependencyWalk, ← hlike.hasNode, ← hlike.neighbors]
  split
  · rfl
  · exact walkFrom_congr hf hlike

theorem searchFrom_congr (hlike : g.LooksLike h) {budget : Int} {target : Scalar} {parents : Table Scalar}
    {queue : List Scalar} :
    searchFrom g budget target parents queue = searchFrom h budget target parents queue := by
  induction parents, queue using searchFrom.induct g budget target with
  | case1 parents => rw [searchFrom, searchFrom]
  | case2 parents current rest hsame => rw [searchFrom, searchFrom, if_pos hsame, if_pos hsame]
  | case3 parents current rest hsame hbudget =>
    rw [searchFrom, searchFrom, if_neg hsame, if_neg hsame, if_pos hbudget, if_pos hbudget]
  | case4 parents current rest hsame hbudget f ih =>
    rw [searchFrom, searchFrom, if_neg hsame, if_neg hsame, if_neg hbudget, if_neg hbudget,
      ← hlike.neighbors]
    exact congrArg (RouteSearch.expand current) ih

theorem route_congr (hlike : g.LooksLike h) {budget : Int} {start target : Scalar} :
    g.route budget start target = h.route budget start target := by
  rw [Graph.route, Graph.route, Graph.routeSearch, Graph.routeSearch, hlike.hasNode, hlike.hasNode,
    searchFrom_congr hlike]

theorem usages_congr (hf : Node.IsView f) (hlike : g.LooksLike h) {id : Scalar} :
    (Query.usages g id).map (Hit.seen f) = (Query.usages h id).map (Hit.seen f) := by
  have huse : ∀ e, (Query.usageOf g e).map (Hit.seen f) = (Query.usageOf h e).map (Hit.seen f) := by
    intro e
    rw [Query.usageOf, Query.usageOf]
    rcases hlike.get?_cases e.source with ⟨hg, hh⟩ | ⟨n, m, hg, hh, hprofile⟩
    · rw [hg, hh]
    · rw [hg, hh]
      simp only [Option.map_some, Hit.seen, hf n m hprofile]
  rw [Query.usages_eq, Query.usages_eq, Query.incoming, Query.incoming, hlike.neighbors,
    List.map_filterMap, List.map_filterMap]
  exact List.filterMap_congr fun e _ => huse e

end Traversals

theorem takeUpTo_map {α β : Type} {limit : Int} {f : α → β} {xs : List α} :
    (takeUpTo limit xs).map f = takeUpTo limit (xs.map f) := by
  unfold takeUpTo
  split
  · rw [List.map_take]
  · rw [List.map_take, List.length_map]

theorem Value.limited_map {α β : Type} {limit : Value} {f : α → β} {xs : List α} :
    (limit.limited xs).map (List.map f) = limit.limited (xs.map f) := by
  unfold Value.limited
  split <;> simp [Except.map, takeUpTo_map]

/-- Hits with their nodes seen through a view. -/
def seenHits (f : Node → Node) (hits : Checked (List Hit)) : Checked (List Hit) :=
  hits.map (List.map (Hit.seen f))

def bareHits (hits : Checked (List Hit)) : Checked (List Hit) := hits.map (List.map Hit.bare)

section SeenHits

variable {f : Node → Node}

theorem seenHits_bind {α : Type} {x : Checked α} {k : α → Checked (List Hit)} :
    seenHits f (x >>= k) = x >>= fun a => seenHits f (k a) := by
  cases x <;> rfl

theorem bareHits_bind {α : Type} {x : Checked α} {k : α → Checked (List Hit)} :
    bareHits (x >>= k) = x >>= fun a => bareHits (k a) := seenHits_bind

theorem seenHits_limited {limit : Value} {hits : List Hit} :
    seenHits f (limit.limited hits) = limit.limited (hits.map (Hit.seen f)) := Value.limited_map

theorem seenHits_ordered {g : Graph} {ids : List Scalar} {hits : List Hit} :
    seenHits f (g.ordered ids hits) = g.ordered ids (hits.map (Hit.seen f)) := by
  unfold Graph.ordered
  split <;> rfl

end SeenHits

theorem seenUsage_congr {f : Node → Node} {g h : Graph} (hf : Node.IsView f) (hlike : g.LooksLike h)
    {limit : Value} {id : Scalar} :
    seenHits f (Query.usage g limit id) = seenHits f (Query.usage h limit id) := by
  have hlimited : seenHits f (limit.limited (Query.usages g id)) =
      seenHits f (limit.limited (Query.usages h id)) := by
    rw [seenHits_limited, seenHits_limited, usages_congr hf hlike]
  rw [Query.usage, Query.usage, hlike.hasNode, Graph.ordered, Graph.ordered, hlike.orderable]
  split
  · rfl
  · split
    · exact hlimited
    · rfl

theorem usage_congr {g h : Graph} (hlike : g.LooksLike h) {limit : Value} {id : Scalar} :
    bareHits (Query.usage g limit id) = bareHits (Query.usage h limit id) :=
  seenUsage_congr Node.isView_bare hlike

namespace QueryEngine

variable {q : QueryEngine} {h : Graph}

theorem nodeKey?_congr (hlike : q.graph.LooksLike h) (id : Value) :
    q.nodeKey? id = { q with graph := h }.nodeKey? id := by
  simp only [nodeKey?, hlike.hasNode]

theorem seenUsers_congr {f : Node → Node} (hf : Node.IsView f) (hlike : q.graph.LooksLike h)
    {id limit : Value} :
    seenHits f (q.findUsage id limit) = seenHits f ({ q with graph := h }.findUsage id limit) := by
  rw [findUsage, findUsage, nodeKey?_congr hlike, seenHits_bind, seenHits_bind]
  refine congrArg _ (funext fun key? => ?_)
  cases key? with
  | none => rfl
  | some key => exact seenUsage_congr hf hlike

theorem findUsage_congr (hlike : q.graph.LooksLike h) {id limit : Value} :
    bareHits (q.findUsage id limit) = bareHits ({ q with graph := h }.findUsage id limit) :=
  seenUsers_congr Node.isView_bare hlike

/-- The dependencies of a node look the same in graphs that look alike. -/
theorem seenDependencies_congr {f : Node → Node} (hf : Node.IsView f) (hlike : q.graph.LooksLike h)
    {id maxDepth : Value} :
    seenHits f (q.findDependencies id maxDepth) =
      seenHits f ({ q with graph := h }.findDependencies id maxDepth) := by
  rw [findDependencies, findDependencies, nodeKey?_congr hlike, seenHits_bind, seenHits_bind]
  refine congrArg _ (funext fun key? => ?_)
  cases key? with
  | none => rfl
  | some start =>
    change seenHits f (maxDepth.floor >>= _) = seenHits f (maxDepth.floor >>= _)
    rw [seenHits_bind, seenHits_bind]
    refine congrArg _ (funext fun depth => ?_)
    split
    · rfl
    · rw [seenHits_bind, seenHits_bind]
      refine congrArg _ (funext fun budget => ?_)
      have hwalk := @dependencyWalk_congr _ _ _ hf hlike start ⟨depth, budget⟩
      have hvisited := congrArg Walk.visited hwalk
      have hhits := congrArg (fun w : Walk => w.hits.map DependencyHit.shown) hwalk
      simp only [Walk.seen, List.map_map] at hvisited hhits
      change seenHits f (q.graph.ordered _ _) = seenHits f (h.ordered _ _)
      rw [seenHits_ordered, seenHits_ordered, hlike.ordered, hvisited, List.map_map, List.map_map]
      exact congrArg _ hhits

theorem findDependencies_congr (hlike : q.graph.LooksLike h) {id maxDepth : Value} :
    bareHits (q.findDependencies id maxDepth) =
      bareHits ({ q with graph := h }.findDependencies id maxDepth) :=
  seenDependencies_congr Node.isView_bare hlike

theorem pathBetween_congr (hlike : q.graph.LooksLike h) {source target : Value} :
    q.pathBetween source target = { q with graph := h }.pathBetween source target := by
  have hstop : routeStop q.graph = routeStop h := funext fun id => hlike.map_get? (fun _ => rfl) id
  simp only [pathBetween, nodeKey?_congr hlike, nodeBudget, hlike.ordered, route_congr hlike, hstop,
    Graph.routeSearch, searchFrom_congr hlike]

end QueryEngine

end CodeAtlas
