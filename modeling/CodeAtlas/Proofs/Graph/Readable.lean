import CodeAtlas.Proofs.Graph.Connections

/-! What an import must find in an export to read it back as it was: names that are texts, times that do not
count as absent, and an index that leads to nodes. Calls with textual names and real times keep a graph
that way. -/

namespace CodeAtlas

/-- A node whose name and times survive an import. -/
structure Node.Readable (n : Node) : Prop where
  named : ∃ s, n.name = .text s
  created : n.metadata.created.isFalsy = false
  updated : n.metadata.lastUpdated.isFalsy = false

/-- A graph whose names, times and index survive an import. -/
structure Graph.Readable (g : Graph) : Prop where
  nodes : ∀ k n, g.nodes.get? k = some n → n.Readable
  edges : ∀ k e, g.edges.get? k = some e → e.created.isFalsy = false
  concepts : ∀ k x, g.concepts.get? k = some x → g.hasNode x = true

def NodeDraft.HasTextName (d : NodeDraft) : Prop := ∀ v, d.name = some v → ∃ s, v = .text s

namespace Call

/-- Whether the name that a node record gives, if it gives one, is a text. -/
def namesText (record : Value) : Bool :=
  match record.field? "name" with
  | .ok (some name) => name.isText
  | _ => true

/-- Whether the names that a call gives to nodes are texts. -/
def hasTextNames : Call → Bool
  | addNode _ _ data => namesText data
  | addRelationship .. => true
  | ingest _ records => records.all fun v =>
    match Record.read? v with
    | .ok (some r) => r.path.isText
    | _ => true
  | discover .. => true
  | importExport _ data =>
    match exportTable "nodes" data with
    | .error _ => true
    | .ok items =>
      items.all fun item =>
        match item.pair with
        | .ok (_, record) => namesText record
        | .error _ => true

theorem isText_of_namesText {record name : Value} (h : namesText record = true)
    (hname : record.field? "name" = .ok (some name)) : ∃ s, name = .text s := by
  rw [namesText, hname] at h
  exact Value.isText_iff.1 h

end Call

/-- A draft takes its name as it is given. -/
theorem NodeDraft.name_of_read {data : Value} {d : NodeDraft} (h : NodeDraft.read data = .ok d) :
    data.field? "name" = .ok d.name := by
  unfold NodeDraft.read at h
  obtain ⟨_, -, h⟩ := Except.bind_eq_ok.1 h
  obtain ⟨kind, -, h⟩ := Except.bind_eq_ok.1 h
  obtain ⟨_, -, h⟩ := Except.bind_eq_ok.1 h
  obtain ⟨properties, -, h⟩ := Except.bind_eq_ok.1 h
  obtain ⟨w, -, h⟩ := Except.bind_eq_ok.1 h
  simp only at h
  split at h
  all_goals
    obtain ⟨weight, -, h⟩ := Except.bind_eq_ok.1 h
    obtain ⟨name, hname, h⟩ := Except.bind_eq_ok.1 h
    cases h
    exact hname

theorem Write.Drafts.and {allowed allowed' : Scalar → NodeDraft → Prop} {w : Write}
    (h : w.Drafts allowed) (h' : w.Drafts allowed') :
    w.Drafts fun id d => allowed id d ∧ allowed' id d := by
  cases w with
  | node id d => exact ⟨h, h'⟩
  | newNode id d => exact ⟨h, h'⟩
  | link source target kind properties => trivial
  | stop e => trivial

theorem Call.Drafts.and {allowed allowed' : Scalar → NodeDraft → Prop} {c : Call}
    (h : c.Drafts allowed) (h' : c.Drafts allowed') :
    c.Drafts fun id d => allowed id d ∧ allowed' id d := by
  cases c with
  | addNode now id data => exact fun k d hk hd => ⟨h k d hk hd, h' k d hk hd⟩
  | addRelationship now source target kind properties => trivial
  | ingest now records => exact fun w hw => (h w hw).and (h' w hw)
  | discover now threshold => exact fun g w hw => (h g w hw).and (h' g w hw)
  | importExport now data => trivial

theorem Kept.and {now : String} {allowed allowed' : Scalar → NodeDraft → Prop}
    {Inv Inv' : Graph → List Edge → Prop} (h : Kept now allowed Inv) (h' : Kept now allowed' Inv') :
    Kept now (fun id d => allowed id d ∧ allowed' id d) fun g stored => Inv g stored ∧ Inv' g stored where
  node g stored id d hd hg := ⟨h.node g stored id d hd.1 hg.1, h'.node g stored id d hd.2 hg.2⟩
  edge g stored source target kind properties e hrun hg :=
    ⟨h.edge g stored source target kind properties e hrun hg.1,
      h'.edge g stored source target kind properties e hrun hg.2⟩

namespace Graph

variable {g : Graph} {now : String} {id : Scalar} {d : NodeDraft}

theorem readable_empty : empty.Readable where
  nodes _ _ h := nomatch h
  edges _ _ h := nomatch h
  concepts _ _ h := nomatch h

theorem Readable.written (h : g.Readable) (hnow : now ≠ "") (hd : d.HasTextName) :
    (g.written now id d).Readable := by
  have htime : (Value.text now).isFalsy = false := Value.isFalsy_text hnow
  cases hn : g.nodes.get? id with
  | none =>
    rw [written_of_none hn]
    refine ⟨?_, htime, htime⟩
    change ∃ s, d.name.getD (.text "") = .text s
    cases hname : d.name with
    | none => exact ⟨"", rfl⟩
    | some v => exact hd v hname
  | some old =>
    have hold := h.nodes id old hn
    rw [written_of_some hn]
    refine ⟨?_, hold.created, htime⟩
    change ∃ s, d.name.getD old.name = .text s
    cases hname : d.name with
    | none => exact hold.named
    | some v => exact hd v hname

theorem Readable.withNode (h : g.Readable) (hnow : now ≠ "") (hd : d.HasTextName)
    {c : Table Scalar} (hc : ∀ k x, c.get? k = some x → g.concepts.get? k = some x ∨ x = id) :
    (g.withNode now id d c).Readable where
  nodes k n hn := by
    rw [Graph.withNode, Table.get?_insert] at hn
    split at hn
    · cases hn
      exact h.written hnow hd
    · exact h.nodes k n hn
  edges := h.edges
  concepts k x hx := by
    rw [hasNode, Graph.withNode, Table.contains_insert, Bool.or_eq_true]
    rcases hc k x hx with hold | rfl
    · exact Or.inr (h.concepts k x hold)
    · exact Or.inl (decide_eq_true rfl)

theorem Readable.putEdge (h : g.Readable) {e : Edge} (he : e.created.isFalsy = false) :
    (g.putEdge e).Readable where
  nodes k n hn := by
    rw [get?_nodes_putEdge] at hn
    obtain ⟨m, hm, rfl⟩ := Option.map_eq_some_iff.1 hn
    have hold := h.nodes k m hm
    rw [Node.meet_eq]
    exact ⟨hold.named, hold.created, hold.updated⟩
  edges k e' he' := by
    rw [get?_edges_putEdge] at he'
    split at he'
    · cases he'
      exact he
    · exact h.edges k e' he'
  concepts k x hx := by
    rw [hasNode_putEdge]
    exact h.concepts k x hx

theorem Readable.foldl_putEdge (h : g.Readable) {edges : List Edge}
    (he : ∀ e ∈ edges, e.created.isFalsy = false) : (edges.foldl Graph.putEdge g).Readable := by
  induction edges generalizing g with
  | nil => exact h
  | cons e rest ih =>
    exact ih (h.putEdge (he e List.mem_cons_self)) fun e' he' => he e' (List.mem_cons_of_mem _ he')

theorem readable_kept (hnow : now ≠ "") :
    Kept now (fun _ d => d.HasTextName) fun g _ => g.Readable where
  node g stored id d hd h := by
    rcases after_writeNode g now id d with hg | ⟨c, hg, hc⟩
    · rw [hg]
      exact h
    · rw [hg]
      exact h.withNode hnow hd hc
  edge g stored source target kind properties e hrun h := by
    obtain ⟨-, -, ⟨x, -, rfl⟩, -⟩ := relate_ok hrun
    exact h.putEdge (Value.isFalsy_text hnow)

/-- What an import takes from an index table leads to nodes. -/
theorem contains_of_importedConcepts {data : Value} {nodes : Table Node} {c : Table Scalar}
    (h : importedConcepts data nodes = .ok c) :
    ∀ k x, c.get? k = some x → nodes.contains x = true := by
  obtain ⟨items, -, h⟩ := Except.bind_eq_ok.1 h
  refine foldlM_invariant (P := fun c : Table Scalar => ∀ k x, c.get? k = some x →
    nodes.contains x = true) ?_ h fun k x hx => nomatch hx
  intro item _ c c' hstep hc k x hx
  obtain ⟨⟨name, id⟩, -, hstep⟩ := Except.bind_eq_ok.1 hstep
  obtain ⟨i, -, hstep⟩ := Except.bind_eq_ok.1 hstep
  split at hstep
  · rename_i hi
    obtain ⟨key, -, hstep⟩ := Except.bind_eq_ok.1 hstep
    cases hstep
    rw [Table.get?_insert] at hx
    split at hx
    · cases hx
      exact hi
    · exact hc k x hx
  · cases hstep
    exact hc k x hx

/-- Completing an index adds only nodes to it. -/
theorem contains_of_completed {nodes : Table Node} {c c' : Table Scalar}
    (h : nodes.values.foldlM completeConcept c = .ok c')
    (hkeyed : ∀ k n, nodes.get? k = some n → n.id.canon = k.canon)
    (hc : ∀ k x, c.get? k = some x → nodes.contains x = true) :
    ∀ k x, c'.get? k = some x → nodes.contains x = true := by
  refine foldlM_invariant (P := fun c : Table Scalar => ∀ k x, c.get? k = some x →
    nodes.contains x = true) ?_ h hc
  intro n hn c c' hstep hc k x hx
  unfold completeConcept at hstep
  split at hstep
  · obtain ⟨name, -, hstep⟩ := Except.bind_eq_ok.1 hstep
    cases hstep
    rw [Table.get?_insertNew] at hx
    split at hx
    · cases hx
      obtain ⟨j, hj⟩ := Table.mem_values_iff.1 hn
      rw [Table.contains_congr (hkeyed j n hj)]
      exact Table.contains_of_get? hj
    · exact hc k x hx
  · cases hstep
    exact hc k x hx

/-- An import of textual names can itself be exported and read back. -/
theorem readable_ofExport {data : Value} {edges : List Edge} (h : ofExport now data = .ok g)
    (hedges : importedNodes now data >>= importedEdges now data = .ok edges) (hnow : now ≠ "")
    (hnames : (Call.importExport now data).hasTextNames = true) : g.Readable := by
  have hkeyed := (accounted_ofExport h hedges).linked.nodes_keyed
  obtain ⟨nodes, taken, c, hnodes, hread, htaken, hcompleted, rfl⟩ := ofExport_ok h hedges
  have hn : ∀ k n, nodes.get? k = some n → n.id.canon = k.canon ∧ n.Readable :=
    forall_importedNodes hnodes fun items hitems item hitem id record n hpair hnode => by
      obtain ⟨-, -, ⟨name, hname, hn⟩, ⟨created, hcreated⟩, ⟨updated, hupdated⟩⟩ :=
        Node.read_ok hnode
      rw [Call.hasTextNames, hitems] at hnames
      have hrecord : Call.namesText record = true := by
        have hitem := List.all_eq_true.1 hnames item hitem
        rwa [hpair] at hitem
      refine ⟨?_, ?_, ?_⟩
      · rw [hn]
        cases name with
        | none => exact ⟨"", rfl⟩
        | some v => exact Call.isText_of_namesText hrecord hname
      · rw [hcreated]
        exact isFalsy_timeOr hnow
      · rw [hupdated]
        exact isFalsy_timeOr hnow
  have he := forall_importedEdges (P := fun e => e.created.isFalsy = false) hread
    fun items hitems item hitem id record e hpair hedge => by
      obtain ⟨-, -, -, -, created, hcreated⟩ := Edge.read_ok hedge
      rw [hcreated]
      exact isFalsy_timeOr hnow
  have hbase : (ofNodes nodes).Readable := {
    nodes k n hk := (hn k n hk).2
    edges _ _ h := nomatch h
    concepts _ _ h := nomatch h }
  have hfold := hbase.foldl_putEdge fun e hmem => (he e hmem).2.2
  exact ⟨hfold.nodes, hfold.edges,
    contains_of_completed hcompleted hkeyed (contains_of_importedConcepts htaken)⟩

end Graph

theorem Call.drafts_of_hasTextNames {c : Call} (h : c.hasTextNames = true) :
    c.Drafts fun _ d => d.HasTextName := by
  cases c with
  | addNode now id data =>
    intro k d _ hd v hv
    have hname := NodeDraft.name_of_read hd
    rw [hv] at hname
    exact Call.isText_of_namesText h hname
  | addRelationship now source target kind properties => trivial
  | ingest now records =>
    refine Ingestion.drafts_of_mem_writes ?_ ?_
    · intro v hv r hr name hname
      have hrecord := List.all_eq_true.1 h v hv
      rw [hr] at hrecord
      cases hname
      exact Value.isText_iff.1 hrecord
    · intro id d name _ hd v hv
      rw [hd] at hv
      cases hv
      exact ⟨name, rfl⟩
  | discover now threshold =>
    intro g
    refine Discovery.drafts_of_mem_writes fun id p v hv => ?_
    cases hv
    exact ⟨p.name, rfl⟩
  | importExport now data => trivial

/-- After calls with textual ids and names and real times, a graph is recorded and can be read back. -/
theorem Graph.readable_ofCalls {calls : List Call}
    (h : ∀ c ∈ calls, c.hasTextIds = true ∧ c.hasTextNames = true ∧ c.now ≠ "") :
    Recorded (History.ofCalls calls).graph (History.ofCalls calls).stored ∧
      (History.ofCalls calls).graph.Readable := by
  have hkept : ∀ c ∈ calls, Kept c.now (fun id d => id.IsText ∧ d.HasTextName)
      fun g stored => Recorded g stored ∧ g.Readable :=
    fun c hc => recorded_kept.and (readable_kept (h c hc).2.2)
  have hdrafts : ∀ c ∈ calls, c.Drafts fun id d => id.IsText ∧ d.HasTextName :=
    fun c hc => (Call.drafts_of_hasTextIds (h c hc).1).and (Call.drafts_of_hasTextNames (h c hc).2.1)
  refine History.ofCalls_kept ⟨⟨.empty, textIds_empty, fun _ h => nomatch h⟩, readable_empty⟩
    (fun g stored hg => hg.1.account.linked.nodes_keyed) hkept hdrafts ?_
  intro now data g edges hc hg hedges
  obtain ⟨hids, hnames, hnow⟩ := h _ hc
  obtain ⟨htexts, hstored⟩ := textIds_ofExport hg hedges hids
  exact ⟨⟨accounted_ofExport hg hedges, htexts, hstored⟩, readable_ofExport hg hedges hnow hnames⟩

end CodeAtlas
