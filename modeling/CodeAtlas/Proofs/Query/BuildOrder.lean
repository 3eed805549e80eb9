import CodeAtlas.Proofs.Query.Dependencies
import CodeAtlas.Proofs.Query.SameAnswers

/-! Graphs with the same contents, built in different orders. Traversals take the edges of a node in the
order of their ids, so they stop early, run out of their budget and choose among ways alike in both. -/

namespace CodeAtlas

theorem Table.get?_of_perm {α : Type} {t t' : Table α} (h : t.entries.Perm t'.entries) (k : Scalar) :
    t.get? k = t'.get? k := by
  have hread : ∀ {t t' : Table α}, t.entries.Perm t'.entries → ∀ v, t.get? k = some v →
      t'.get? k = some v := by
    intro t t' h v hv
    obtain ⟨p, hp, hk, rfl⟩ := Table.mem_of_get? hv
    rw [← Table.get?_congr hk]
    exact Table.get?_of_mem (h.mem_iff.1 hp)
  exact Option.ext fun v => ⟨hread h v, hread h.symm v⟩

/-- Whether two graphs hold the same nodes and the same edges under every id. Nothing is said about the
order in which they came, or about what the nodes list. -/
structure Graph.SameContents (g h : Graph) : Prop where
  nodes : ∀ k, (g.nodes.get? k).map Node.bare = (h.nodes.get? k).map Node.bare
  edges : ∀ k, g.edges.get? k = h.edges.get? k

namespace Graph.SameContents

variable {g h l : Graph} {e e' : Edge} {k : Scalar}

theorem refl (g : Graph) : g.SameContents g := ⟨fun _ => rfl, fun _ => rfl⟩

theorem trans (h₁ : g.SameContents h) (h₂ : h.SameContents l) : g.SameContents l :=
  ⟨fun k => (h₁.nodes k).trans (h₂.nodes k), fun k => (h₁.edges k).trans (h₂.edges k)⟩

theorem ofNodes {ns ms : Table Node} (h : ns.entries.Perm ms.entries) :
    (Graph.ofNodes ns).SameContents (Graph.ofNodes ms) where
  nodes k := congrArg (Option.map Node.bare) (Table.get?_of_perm h k)
  edges _ := rfl

theorem bare_putEdge : ((g.putEdge e).nodes.get? k).map Node.bare = (g.nodes.get? k).map Node.bare := by
  have hmeet : Node.bare ∘ (Node.meet · e k) = Node.bare := by
    funext n
    rw [Function.comp_apply, Node.meet_eq]
    rfl
  rw [get?_nodes_putEdge, Option.map_map, hmeet]

theorem putEdge (h₁ : g.SameContents h) (e : Edge) : (g.putEdge e).SameContents (h.putEdge e) where
  nodes k := by rw [bare_putEdge, bare_putEdge, h₁.nodes]
  edges k := by rw [get?_edges_putEdge, get?_edges_putEdge, h₁.edges]

theorem swap (g : Graph) (hid : e.id.canon ≠ e'.id.canon) :
    ((g.putEdge e).putEdge e').SameContents ((g.putEdge e').putEdge e) where
  nodes k := by simp only [bare_putEdge]
  edges k := by
    simp only [get?_edges_putEdge]
    split
    · rename_i he'
      rw [if_neg fun he => hid (he.trans he'.symm)]
    · rfl

theorem foldl (h₁ : g.SameContents h) (es : List Edge) :
    (es.foldl Graph.putEdge g).SameContents (es.foldl Graph.putEdge h) := by
  induction es generalizing g h with
  | nil => exact h₁
  | cons e es ih => exact ih (h₁.putEdge e)

/-- Edges with different ids may be stored in any order. -/
theorem foldl_of_perm {es es' : List Edge} (hperm : es.Perm es')
    (hids : (es.map fun e => e.id.canon).Nodup) (h₁ : g.SameContents h) :
    (es.foldl Graph.putEdge g).SameContents (es'.foldl Graph.putEdge h) := by
  induction hperm generalizing g h with
  | nil => exact h₁
  | cons e _ ih => exact ih (List.nodup_cons.1 hids).2 (h₁.putEdge e)
  | swap e e' es =>
    have hne : e'.id.canon ≠ e.id.canon := by
      intro heq
      simp [heq] at hids
    exact ((swap g hne).trans ((h₁.putEdge e).putEdge e')).foldl es
  | trans hperm _ ih ih' =>
    exact (ih hids (.refl g)).trans (ih' ((hperm.map _).nodup_iff.1 hids) h₁)

end Graph.SameContents

/-- Where edges have texts as ids, what a node of an exact graph lists are the ids of the edges that touch
it. -/
theorem Graph.Exact.mem_connections {g : Graph} {k x : Scalar} {n : Node} (hexact : g.Exact)
    (htexts : ∀ k ∈ g.edges.keys, k.IsText) (hn : g.nodes.get? k = some n) :
    x ∈ n.connections.keys ↔ x.IsText ∧ ∃ e, g.edges.get? x = some e ∧ e.Touches n.id := by
  constructor
  · intro hx
    obtain ⟨e, he, htouch⟩ := (hexact k n hn x).1 (Table.contains_iff_mem.2 ⟨x, hx, rfl⟩)
    exact ⟨(isText_of_contains htexts (Table.contains_of_get? he)).1, e, he, htouch⟩
  · rintro ⟨⟨s, rfl⟩, hedge⟩
    exact Table.contains_text_iff.1 ((hexact k n hn (.text s)).2 hedge)

/-- Graphs with the same contents, of which every node lists exactly the edges that touch it, look
alike: what a node lists is decided by the edges, and texts have one order. -/
theorem Graph.SameContents.looksLike {g h : Graph} (hsame : g.SameContents h) (hg : g.Exact)
    (hh : h.Exact) (htexts : ∀ k ∈ g.edges.keys, k.IsText) : g.LooksLike h where
  nodes k := by
    have htexts' : ∀ k ∈ h.edges.keys, k.IsText := by
      intro k hk
      obtain ⟨e, he⟩ := Table.contains_iff.1 (Table.contains_iff_mem.2 ⟨k, hk, rfl⟩)
      rw [← hsame.edges] at he
      exact (isText_of_contains htexts (Table.contains_of_get? he)).1
    have hbare := hsame.nodes k
    cases hn : g.nodes.get? k with
    | none =>
      rw [hn] at hbare
      rw [Option.map_eq_none_iff.1 hbare.symm]
    | some n =>
      rw [hn] at hbare
      obtain ⟨m, hm, hnm⟩ := Option.map_eq_some_iff.1 hbare.symm
      have hrecord : n.SameRecord m := by
        have heq := congrArg (fun b : Node => { b with connections := m.connections }) hnm
        exact heq
      have hid : m.id = n.id := (Node.mk.inj hnm).1
      rw [hm, Option.map_some, Option.map_some]
      refine congrArg some (Node.profile_eq_of_mem_iff hrecord (fun x => ?_) fun x hx =>
        ((hg.mem_connections htexts hn).1 hx).1)
      rw [hg.mem_connections htexts hn, hh.mem_connections htexts' hm, hid, hsame.edges]
  edges := hsame.edges

/-- Graphs with the same contents give the same answers to traversals, whatever order they were built in
and with any limit, depth and budget: the relationships of a node, its users, its dependencies and the
way from one node to another. The nodes in an answer list the same edges, which are shown in order. -/
theorem traversals_of_sameContents {g h : Graph} (hg : g.Exact) (hh : h.Exact)
    (htexts : ∀ k ∈ g.edges.keys, k.IsText) (hsame : g.SameContents h) (threshold budget : Value) :
    let q : QueryEngine := ⟨g, threshold, budget⟩
    let q' : QueryEngine := ⟨h, threshold, budget⟩
    (∀ id, g.relationships id = h.relationships id) ∧
    (∀ id limit, seenHits Node.inOrder (q.findUsage id limit) =
      seenHits Node.inOrder (q'.findUsage id limit)) ∧
    (∀ id maxDepth, seenHits Node.inOrder (q.findDependencies id maxDepth) =
      seenHits Node.inOrder (q'.findDependencies id maxDepth)) ∧
    (∀ source target, q.pathBetween source target = q'.pathBetween source target) := by
  intro q q'
  have hlike : q.graph.LooksLike h := hsame.looksLike hg hh htexts
  refine ⟨fun id => ?_, fun id limit => QueryEngine.seenUsers_congr Node.isView_inOrder hlike,
    fun id maxDepth => QueryEngine.seenDependencies_congr Node.isView_inOrder hlike,
    fun source target => QueryEngine.pathBetween_congr hlike⟩
  rw [Graph.relationships, Graph.relationships, hlike.neighbors]

def reversedTable : Table Node where
  entries := samplePackages.entries.reverse
  distinct := List.pairwise_reverse.2 (samplePackages.distinct.imp Ne.symm)

def reversedPackages : Graph := sampleDependencies.reverse.foldl .putEdge (.ofNodes reversedTable)

theorem perm_reversedTable : samplePackages.entries.Perm reversedTable.entries :=
  (List.reverse_perm _).symm

theorem sameContents_reversedPackages : packageEngine.graph.SameContents reversedPackages :=
  .foldl_of_perm (List.reverse_perm _).symm (by decide) (.ofNodes perm_reversedTable)

theorem agreeing_sampleDependencies : Agreeing sampleDependencies := by
  unfold Agreeing
  decide

theorem exact_packageEngine : packageEngine.graph.Exact :=
  accounted_packageEngine.exact isText_of_mem_sampleDependencies agreeing_sampleDependencies

theorem exact_reversedPackages : reversedPackages.Exact := by
  have hnodes : ∀ k n, reversedTable.get? k = some n → n.id.canon = k.canon ∧ n.connections = ∅ := by
    intro k n hn
    rw [← Table.get?_of_perm perm_reversedTable] at hn
    exact unconnected_samplePackages k n hn
  have haccount : Accounted reversedPackages sampleDependencies.reverse :=
    (Graph.accounted_ofNodes hnodes).foldl_putEdge (by decide)
  refine haccount.exact (fun e he => isText_of_mem_sampleDependencies e (List.mem_reverse.1 he)) ?_
  exact fun e he e' he' =>
    agreeing_sampleDependencies e (List.mem_reverse.1 he) e' (List.mem_reverse.1 he')

theorem traversals_of_reversedPackages :
    let q := { packageEngine with graph := reversedPackages }
    packageEngine.graph.nodes.keys ≠ reversedPackages.nodes.keys ∧
    seenHits Node.inOrder (packageEngine.findDependencies (.text "A") (.int 1)) =
      seenHits Node.inOrder (q.findDependencies (.text "A") (.int 1)) ∧
    packageEngine.pathBetween (.text "A") (.text "D") = q.pathBetween (.text "A") (.text "D") := by
  obtain ⟨-, -, hdependencies, hpath⟩ := traversals_of_sameContents exact_packageEngine
    exact_reversedPackages textIds_packageEngine.edges sameContents_reversedPackages (.float 0.5) (.int 10)
  exact ⟨by decide, hdependencies _ _, hpath _ _⟩

end CodeAtlas
