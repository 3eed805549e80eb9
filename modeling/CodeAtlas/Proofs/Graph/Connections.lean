import CodeAtlas.Proofs.Graph.History

/-! Connections over whole runs. A node lists an edge because that edge was stored with the node at one of its
ends; so as long as no id is stored with two different pairs of ends, what a node lists is what touches
it. The account below keeps the reason for every listing, and every call keeps the account. -/

namespace CodeAtlas

/-- A linked graph in which every edge, and the reason for every connection, is among the stored edges. -/
structure Accounted (g : Graph) (stored : List Edge) : Prop where
  linked : g.Linked
  written : ∀ k e, g.edges.get? k = some e → e ∈ stored
  justified : ∀ k n, g.nodes.get? k = some n → ∀ x, n.connections.contains x = true →
    ∃ e ∈ stored, e.id.canon = x.canon ∧ e.Touches n.id

/-- No id is given to edges with different ends. -/
def Agreeing (edges : List Edge) : Prop :=
  ∀ e ∈ edges, ∀ e' ∈ edges, e.id = e'.id → e.source = e'.source ∧ e.target = e'.target

namespace Accounted

variable {g : Graph} {stored : List Edge} {now : String} {id : Scalar} {d : NodeDraft} {e : Edge}

theorem empty : Accounted .empty [] where
  linked := Graph.linked_empty
  written _ _ h := nomatch h
  justified _ _ h := nomatch h

theorem withNode (h : Accounted g stored) (c : Table Scalar) :
    Accounted (g.withNode now id d c) stored where
  linked := h.linked.withNode c
  written := h.written
  justified k n hn x hx := by
    rw [Graph.withNode, Table.get?_insert] at hn
    split at hn
    · cases hn
      obtain ⟨old, hold, hx⟩ := Graph.contains_written.1 hx
      obtain ⟨e, he, hid, ht⟩ := h.justified id old hold x hx
      have hkey : old.id.canon = (g.written now id d).id.canon :=
        (h.linked.nodes_keyed id old hold).trans
          (Graph.canon_written_id h.linked.nodes_keyed).symm
      exact ⟨e, he, hid, (Edge.touches_congr hkey).1 ht⟩
    · exact h.justified k n hn x hx

theorem putEdge (h : Accounted g stored) (hs : g.hasNode e.source = true)
    (ht : g.hasNode e.target = true) : Accounted (g.putEdge e) (stored ++ [e]) where
  linked := h.linked.putEdge hs ht
  written k e' he := by
    rw [Graph.get?_edges_putEdge] at he
    split at he
    · cases he
      simp
    · exact List.mem_append_left _ (h.written k e' he)
  justified k n hn x hx := by
    rw [Graph.get?_nodes_putEdge] at hn
    obtain ⟨m, hm, rfl⟩ := Option.map_eq_some_iff.1 hn
    rw [Node.meet_id]
    rcases Node.contains_meet.1 hx with hx | ⟨hx, hk⟩
    · obtain ⟨e', he', hid, ht'⟩ := h.justified k m hm x hx
      exact ⟨e', List.mem_append_left _ he', hid, ht'⟩
    · have hkey := h.linked.nodes_keyed k m hm
      exact ⟨e, by simp, hx, (Edge.touches_congr hkey).2 hk⟩

theorem foldl_putEdge (h : Accounted g stored) {edges : List Edge}
    (hends : ∀ e ∈ edges, g.hasNode e.source = true ∧ g.hasNode e.target = true) :
    Accounted (edges.foldl Graph.putEdge g) (stored ++ edges) := by
  induction edges generalizing g stored with
  | nil => simpa using h
  | cons e rest ih =>
    obtain ⟨hs, ht⟩ := hends e List.mem_cons_self
    have hrest : ∀ e' ∈ rest, (g.putEdge e).hasNode e'.source = true ∧
        (g.putEdge e).hasNode e'.target = true := by
      intro e' he'
      rw [Graph.hasNode_putEdge, Graph.hasNode_putEdge]
      exact hends e' (List.mem_cons_of_mem _ he')
    simpa using ih (h.putEdge hs ht) hrest

theorem withConcepts (h : Accounted g stored) (c : Table Scalar) :
    Accounted { g with concepts := c } stored where
  linked := ⟨h.linked.nodes_keyed, h.linked.edges_keyed, h.linked.listed, h.linked.stored⟩
  written := h.written
  justified := h.justified

/-- While the stored edges agree, nodes list exactly the edges that touch them: the edge that a listing is
owed to may be written over, but then by one with the same ends. -/
theorem exact (h : Accounted g stored) (htext : ∀ e ∈ stored, e.id.IsText)
    (hagree : Agreeing stored) : g.Exact := by
  intro k n hn x
  constructor
  · intro hx
    obtain ⟨e, he, hid, ht⟩ := h.justified k n hn x hx
    obtain ⟨e', he'⟩ := Table.contains_iff.1 (h.linked.stored k n hn x hx)
    have hmem := h.written x e' he'
    have hsame : e.id = e'.id := Scalar.isText_of_canon_eq
      (hid.trans (h.linked.edges_keyed x e' he').symm) (htext e' hmem)
    obtain ⟨hsource, htarget⟩ := hagree e he e' hmem hsame
    refine ⟨e', he', ?_⟩
    unfold Edge.Touches at ht ⊢
    rwa [← hsource, ← htarget]
  · rintro ⟨e, he, ht⟩
    have hkey := h.linked.nodes_keyed k n hn
    obtain ⟨m, hm, hx⟩ := h.linked.listed x e he k ((Edge.touches_congr hkey).1 ht)
    cases hn.symm.trans hm
    rwa [← Table.contains_congr (h.linked.edges_keyed x e he)]

end Accounted

namespace Graph

variable {now : String} {data : Value} {nodes : Table Node} {edges : List Edge}

/-- Imported nodes stand under their own ids and have what every node record yields. -/
theorem forall_importedNodes {P : Node → Prop} (h : importedNodes now data = .ok nodes)
    (hP : ∀ items, exportTable "nodes" data = .ok items → ∀ item ∈ items, ∀ id record n,
      item.pair = .ok (id, record) → Node.read now id record = .ok n → P n) :
    ∀ k n, nodes.get? k = some n → n.id.canon = k.canon ∧ P n := by
  obtain ⟨items, hitems, h⟩ := Except.bind_eq_ok.1 h
  refine foldlM_invariant (P := fun t : Table Node => ∀ k n, t.get? k = some n →
    n.id.canon = k.canon ∧ P n) ?_ h fun k n hn => nomatch hn
  intro item hitem t t' hstep ht k n hn
  obtain ⟨⟨id, record⟩, hpair, hstep⟩ := Except.bind_eq_ok.1 hstep
  obtain ⟨m, hread, hstep⟩ := Except.bind_eq_ok.1 hstep
  cases hstep
  rw [Table.get?_insert] at hn
  split at hn
  · rename_i hk
    cases hn
    exact ⟨hk, hP items hitems item hitem id record _ hpair hread⟩
  · exact ht k n hn

theorem forall_importedEdges {P : Edge → Prop} (h : importedEdges now data nodes = .ok edges)
    (hP : ∀ items, exportTable "edges" data = .ok items → ∀ item ∈ items, ∀ id record e,
      item.pair = .ok (id, record) → Edge.read now nodes id record = .ok e → P e) :
    ∀ e ∈ edges, nodes.contains e.source = true ∧ nodes.contains e.target = true ∧ P e := by
  obtain ⟨items, hitems, h⟩ := Except.bind_eq_ok.1 h
  intro e he
  obtain ⟨item, hitem, hread⟩ := mem_of_mapM_ok h e he
  obtain ⟨⟨id, record⟩, hpair, hread⟩ := Except.bind_eq_ok.1 hread
  obtain ⟨-, hs, ht, -⟩ := Edge.read_ok hread
  exact ⟨hs, ht, hP items hitems item hitem id record e hpair hread⟩

/-- A graph of unconnected nodes is accounted for by no edges at all. -/
theorem accounted_ofNodes
    (h : ∀ k n, nodes.get? k = some n → n.id.canon = k.canon ∧ n.connections = ∅) :
    Accounted (ofNodes nodes) [] where
  linked := {
    nodes_keyed k n hn := (h k n hn).1
    edges_keyed _ _ h := nomatch h
    listed _ _ h := nomatch h
    stored k n hn x hx := by
      rw [(h k n hn).2] at hx
      exact nomatch hx }
  written _ _ h := nomatch h
  justified k n hn x hx := by
    rw [(h k n hn).2] at hx
    exact nomatch hx

def ofDrafts (now : String) (drafts : List (String × NodeDraft)) : Graph :=
  ofNodes (.ofList (drafts.map fun d => (.text d.1, .fresh now (.text d.1) d.2)))

theorem accounted_ofDrafts (now : String) (drafts : List (String × NodeDraft)) :
    Accounted (ofDrafts now drafts) [] := by
  refine accounted_ofNodes fun k n hn => ?_
  obtain ⟨e, he, hk, rfl⟩ := Table.mem_of_get?_ofList hn
  obtain ⟨d, -, rfl⟩ := List.mem_map.1 he
  exact ⟨hk, rfl⟩

theorem accounted_ofExport {g : Graph} (h : ofExport now data = .ok g)
    (hedges : importedNodes now data >>= importedEdges now data = .ok edges) :
    Accounted g edges := by
  obtain ⟨nodes, taken, c, hnodes, hread, -, -, rfl⟩ := ofExport_ok h hedges
  have hbase : Accounted (ofNodes nodes) [] := accounted_ofNodes
    (forall_importedNodes hnodes fun _ _ _ _ _ _ _ _ hread => (Node.read_ok hread).2.1)
  have hends := forall_importedEdges (P := fun _ => True) hread fun _ _ _ _ _ _ _ _ _ => trivial
  have hfold : Accounted (edges.foldl Graph.putEdge (ofNodes nodes)) _ :=
    hbase.foldl_putEdge fun e he => ⟨(hends e he).1, (hends e he).2.1⟩
  exact hfold.withConcepts c

theorem TextIds.foldl_putEdge {g : Graph} (h : g.TextIds) (he : ∀ e ∈ edges, e.id.IsText) :
    (edges.foldl Graph.putEdge g).TextIds := by
  induction edges generalizing g with
  | nil => exact h
  | cons e rest ih =>
    exact ih (h.putEdge (he e List.mem_cons_self)) fun e' he' => he e' (List.mem_cons_of_mem _ he')

/-- An import under textual ids stores its nodes and edges under texts. -/
theorem textIds_ofExport {g : Graph} (h : ofExport now data = .ok g)
    (hedges : importedNodes now data >>= importedEdges now data = .ok edges)
    (htext : (Call.importExport now data).hasTextIds = true) :
    g.TextIds ∧ ∀ e ∈ edges, e.id.IsText := by
  obtain ⟨nodes, taken, c, hnodes, hread, -, -, rfl⟩ := ofExport_ok h hedges
  rw [Call.hasTextIds, Bool.and_eq_true] at htext
  have hn : ∀ k n, nodes.get? k = some n → n.id.canon = k.canon ∧ n.id.IsText :=
    forall_importedNodes hnodes fun items hitems item hitem id record n hpair hnode => by
      obtain ⟨s, hs⟩ := Value.isText_iff.1 (isText_of_textKeyed htext.1 hitems hitem hpair)
      rw [(Node.read_ok hnode).1] at hs
      exact ⟨s, Value.scalar.inj hs⟩
  have he : ∀ e ∈ edges, nodes.contains e.source = true ∧ nodes.contains e.target = true ∧
      e.id.IsText :=
    forall_importedEdges hread fun items hitems item hitem id record e hpair hedge => by
      obtain ⟨s, hs⟩ := Value.isText_iff.1 (isText_of_textKeyed htext.2 hitems hitem hpair)
      rw [(Edge.read_ok hedge).1] at hs
      exact ⟨s, Value.scalar.inj hs⟩
  have hbase : (ofNodes nodes).TextIds := {
    nodes k hk := by
      obtain ⟨p, hp, rfl⟩ := List.mem_map.1 hk
      obtain ⟨hid, htext⟩ := hn p.1 p.2 (Table.get?_of_mem hp)
      exact Scalar.isText_of_canon_eq hid.symm htext ▸ htext
    edges _ h := nomatch h }
  have hfold := hbase.foldl_putEdge fun e hmem => (he e hmem).2.2
  exact ⟨⟨hfold.nodes, hfold.edges⟩, fun e hmem => (he e hmem).2.2⟩

/-- What every call with textual ids keeps: the account, and that all ids are texts. -/
structure Recorded (g : Graph) (stored : List Edge) : Prop where
  account : Accounted g stored
  texts : g.TextIds
  stored_texts : ∀ e ∈ stored, e.id.IsText

theorem recorded_kept : Kept now (fun id _ => id.IsText) Recorded where
  node g stored id d hid h := by
    rcases after_writeNode g now id d with hg | ⟨c, hg, -⟩
    · rw [hg]
      exact h
    · rw [hg]
      exact ⟨h.account.withNode c, h.texts.withNode hid c, h.stored_texts⟩
  edge g stored source target kind properties e hrun h := by
    obtain ⟨hs, ht, ⟨x, -, rfl⟩, -⟩ := relate_ok hrun
    refine ⟨h.account.putEdge hs ht, h.texts.putEdge ⟨_, rfl⟩, fun e' he' => ?_⟩
    rcases List.mem_append.1 he' with he' | he'
    · exact h.stored_texts e' he'
    · rw [List.mem_singleton.1 he']
      exact ⟨_, rfl⟩

end Graph

theorem Call.drafts_of_hasTextIds {c : Call} (h : c.hasTextIds = true) :
    c.Drafts fun id _ => id.IsText := by
  cases c with
  | addNode now id data =>
    intro k d hk _
    obtain ⟨s, rfl⟩ := Value.isText_iff.1 h
    cases hk
    exact ⟨s, rfl⟩
  | addRelationship now source target kind properties => trivial
  | ingest now records =>
    exact Ingestion.drafts_of_mem_writes (fun _ _ r _ => ⟨_, rfl⟩) fun _ _ _ _ _ => ⟨_, rfl⟩
  | discover now threshold => exact fun g => Discovery.drafts_of_mem_writes fun _ _ => ⟨_, rfl⟩
  | importExport now data => trivial

theorem Graph.recorded_ofCalls {calls : List Call} (h : ∀ c ∈ calls, c.hasTextIds = true) :
    Recorded (History.ofCalls calls).graph (History.ofCalls calls).stored := by
  have hdrafts : ∀ c ∈ calls, c.Drafts fun id _ => id.IsText :=
    fun c hc => Call.drafts_of_hasTextIds (h c hc)
  refine History.ofCalls_kept ⟨.empty, textIds_empty, fun _ h => nomatch h⟩
    (fun g stored h => h.account.linked.nodes_keyed) (fun c _ => recorded_kept) hdrafts ?_
  intro now data g edges hc hg hedges
  obtain ⟨htexts, hstored⟩ := textIds_ofExport hg hedges (h _ hc)
  exact ⟨accounted_ofExport hg hedges, htexts, hstored⟩

theorem Graph.nodesKeyed_ofCalls (calls : List Call) : (Graph.ofCalls calls).NodesKeyed := by
  have hdrafts : ∀ c ∈ calls, c.Drafts fun _ _ => True :=
    fun c _ => c.drafts_of_forall fun _ _ => trivial
  rw [← History.graph_ofCalls]
  exact @History.ofCalls_kept _ (fun g _ => g.NodesKeyed) calls linked_empty.nodes_keyed
    (fun _ _ h => h) (fun c _ => nodesKeyed_kept c.now) hdrafts
    fun _ _ _ _ _ hg hedges => (accounted_ofExport hg hedges).linked.nodes_keyed

namespace Graph

variable {g : Graph}

theorem Linked.id_of_mem_nodes (h : g.Linked) (ht : g.TextIds) :
    ∀ p ∈ g.nodes.entries, p.2.id = p.1 := by
  intro p hp
  have hkey : p.1.IsText := ht.nodes p.1 (List.mem_map_of_mem hp)
  exact Scalar.isText_of_canon_eq (h.nodes_keyed p.1 p.2 (Table.get?_of_mem hp)) hkey

theorem Linked.id_of_mem_edges (h : g.Linked) (ht : g.TextIds) :
    ∀ p ∈ g.edges.entries, p.2.id = p.1 := by
  intro p hp
  have hkey : p.1.IsText := ht.edges p.1 (List.mem_map_of_mem hp)
  exact Scalar.isText_of_canon_eq (h.edges_keyed p.1 p.2 (Table.get?_of_mem hp)) hkey

theorem Linked.get?_node (h : g.Linked) (ht : g.TextIds) {n : Node} (hn : n ∈ g.nodes.values) :
    g.nodes.get? n.id = some n ∧ n.id.IsText := by
  obtain ⟨p, hp, rfl⟩ := List.mem_map.1 hn
  rw [h.id_of_mem_nodes ht p hp]
  exact ⟨Table.get?_of_mem hp, ht.nodes p.1 (List.mem_map_of_mem hp)⟩

theorem Linked.get?_edge (h : g.Linked) (ht : g.TextIds) {e : Edge} (he : e ∈ g.edges.values) :
    g.edges.get? e.id = some e ∧ e.id.IsText := by
  obtain ⟨p, hp, rfl⟩ := List.mem_map.1 he
  rw [h.id_of_mem_edges ht p hp]
  exact ⟨Table.get?_of_mem hp, ht.edges p.1 (List.mem_map_of_mem hp)⟩

/-- Both ends of an edge are nodes that list it. -/
theorem Linked.listed_at_ends (h : g.Linked) (ht : g.TextIds) {e : Edge} (he : e ∈ g.edges.values)
    {j : Scalar} (hj : j = e.source ∨ j = e.target) :
    ∃ n ∈ g.nodes.values, n.id = j ∧ e.id ∈ n.connections.keys := by
  obtain ⟨hget, s, hs⟩ := h.get?_edge ht he
  have htouch : e.Touches j := by
    rcases hj with rfl | rfl
    · exact Or.inl rfl
    · exact Or.inr rfl
  obtain ⟨n, hn, hx⟩ := h.listed _ e hget j htouch
  have hkey := (isText_of_contains ht.nodes (Table.contains_of_get? hn)).1
  rw [hs] at hx ⊢
  exact ⟨n, Table.mem_values_of_get? hn, Scalar.isText_of_canon_eq (h.nodes_keyed j n hn) hkey,
    Table.contains_text_iff.1 hx⟩

theorem Linked.mem_edges_of_mem_connections (h : g.Linked) (ht : g.TextIds) {n : Node}
    (hn : n ∈ g.nodes.values) {x : Scalar} (hx : x ∈ n.connections.keys) :
    x.IsText ∧ x ∈ g.edges.keys := by
  obtain ⟨hget, -⟩ := h.get?_node ht hn
  have hc := h.stored _ n hget x (Table.contains_iff_mem.2 ⟨x, hx, rfl⟩)
  exact isText_of_contains ht.edges hc

/-- In an exact graph the connections of a node are the ids of the edges with the node at an end. -/
theorem Exact.mem_connections_iff (hexact : g.Exact) (h : g.Linked) (ht : g.TextIds) {n : Node}
    (hn : n ∈ g.nodes.values) {x : Scalar} :
    x ∈ n.connections.keys ↔
      ∃ e ∈ g.edges.values, e.id = x ∧ (e.source = n.id ∨ e.target = n.id) := by
  obtain ⟨hget, hid⟩ := h.get?_node ht hn
  constructor
  · intro hx
    obtain ⟨hxt, -⟩ := h.mem_edges_of_mem_connections ht hn hx
    obtain ⟨e, he, htouch⟩ := (hexact _ n hget x).1 (Table.contains_iff_mem.2 ⟨x, hx, rfl⟩)
    refine ⟨e, Table.mem_values_of_get? he,
      Scalar.isText_of_canon_eq (h.edges_keyed x e he) hxt, ?_⟩
    rcases htouch with htouch | htouch
    · exact Or.inl (Scalar.isText_of_canon_eq htouch hid)
    · exact Or.inr (Scalar.isText_of_canon_eq htouch hid)
  · rintro ⟨e, he, rfl, hends⟩
    obtain ⟨hedge, s, hs⟩ := h.get?_edge ht he
    have htouch : e.Touches n.id := by
      rcases hends with hend | hend
      · exact Or.inl (congrArg Scalar.canon hend)
      · exact Or.inr (congrArg Scalar.canon hend)
    have hc := (hexact _ n hget e.id).2 ⟨e, hedge, htouch⟩
    rw [hs] at hc ⊢
    exact Table.contains_text_iff.1 hc

end Graph

/-- After any calls with textual ids, failing ones included: an edge is listed at both of its ends, which are
nodes; whatever a node lists is stored; and nodes and edges stand under their own ids. As long as no id
was stored with different ends since the last import, a node lists exactly the edges at one end of which
it stands. -/
theorem connections_of_calls (calls : List Call) (h : ∀ c ∈ calls, c.hasTextIds = true) :
    let run := History.ofCalls calls
    (∀ e ∈ run.graph.edges.values, ∀ j, j = e.source ∨ j = e.target →
      ∃ n ∈ run.graph.nodes.values, n.id = j ∧ e.id ∈ n.connections.keys) ∧
    (∀ n ∈ run.graph.nodes.values, ∀ x ∈ n.connections.keys, x ∈ run.graph.edges.keys) ∧
    (∀ p ∈ run.graph.nodes.entries, p.2.id = p.1) ∧
    (∀ p ∈ run.graph.edges.entries, p.2.id = p.1) ∧
    (Agreeing run.stored → ∀ n ∈ run.graph.nodes.values, ∀ x,
      x ∈ n.connections.keys ↔
        ∃ e ∈ run.graph.edges.values, e.id = x ∧ (e.source = n.id ∨ e.target = n.id)) := by
  intro run
  have hrec : Graph.Recorded run.graph run.stored := Graph.recorded_ofCalls h
  have hlinked := hrec.account.linked
  have htexts := hrec.texts
  refine ⟨?_, ?_, hlinked.id_of_mem_nodes htexts, hlinked.id_of_mem_edges htexts, ?_⟩
  · intro e he j hj
    exact hlinked.listed_at_ends htexts he hj
  · intro n hn x hx
    exact (hlinked.mem_edges_of_mem_connections htexts hn hx).2
  · intro hagree n hn x
    have hexact := hrec.account.exact hrec.stored_texts hagree
    exact hexact.mem_connections_iff hlinked htexts hn

/-- A run with a relationship that is stored twice and one that is refused. -/
def sampleCalls : List Call := [
  .addNode "t0" (.text "a") (.fields [("type", .text "file"), ("name", .text "a.py")]),
  .addNode "t0" (.text "b") (.fields [("type", .text "concept"), ("name", .text "Cache")]),
  .addRelationship "t1" (.text "a") (.text "b") (.text "USES") .null,
  .addRelationship "t2" (.text "a") (.text "c") (.text "USES") .null,
  .addRelationship "t3" (.text "a") (.text "b") (.text "USES") .null]

theorem stored_sampleCalls :
    (History.ofCalls sampleCalls).stored = [
      Graph.relationship "t1" (.text "a") (.text "b") .uses ∅ 1.0,
      Graph.relationship "t3" (.text "a") (.text "b") .uses ∅ 1.0] := rfl

theorem agreeing_sampleCalls : Agreeing (History.ofCalls sampleCalls).stored := by
  have hends : ∀ e ∈ (History.ofCalls sampleCalls).stored,
      e.source = .text "a" ∧ e.target = .text "b" := by
    rw [stored_sampleCalls]
    simp [Graph.relationship]
  intro e he e' he' _
  rw [(hends e he).1, (hends e he).2, (hends e' he').1, (hends e' he').2]
  exact ⟨rfl, rfl⟩

theorem connections_sampleCalls :
    let run := History.ofCalls sampleCalls
    run.stored.length = 2 ∧ ∀ n ∈ run.graph.nodes.values, ∀ x,
      x ∈ n.connections.keys ↔
        ∃ e ∈ run.graph.edges.values, e.id = x ∧ (e.source = n.id ∨ e.target = n.id) :=
  ⟨rfl, (connections_of_calls sampleCalls (by decide)).2.2.2.2 agreeing_sampleCalls⟩

end CodeAtlas
