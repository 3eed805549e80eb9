import CodeAtlas.Proofs.Graph.Neighbors
import CodeAtlas.Proofs.Graph.Readable

/-! Reading an export back. Node and edge records come back as they were written; the connections are worked
out from the edges, and the index is the old one with the names it lacks at its end. So a graph comes
back whole exactly if its connections are what its edges say and its index lacks no concept. -/

namespace CodeAtlas

section Records

variable {now : String} {k : Scalar}

theorem Properties.toTable_toValue (p : Properties) : p.toValue.toTable = .ok p := by
  unfold Properties.toValue Value.toTable
  cases h : p.entries with
  | nil =>
    exact congrArg Except.ok (Table.ext h.symm)
  | cons e rest =>
    change Except.ok (Table.ofList (e :: rest)) = _
    rw [← h, Table.ofList_entries]

theorem timeOr_eq {v : Value} (h : v.isFalsy = false) : timeOr now v = v := by
  rw [timeOr, Value.orElse, h]
  rfl

theorem Metadata.read_toValue {m : Metadata} (hc : m.created.isFalsy = false)
    (hu : m.lastUpdated.isFalsy = false) : Metadata.read now m.toValue = .ok m := by
  have horElse : m.lastUpdated.orElse .null = m.lastUpdated := by
    rw [Value.orElse, hu]
    rfl
  change Except.ok (⟨timeOr now m.created, timeOr now (m.lastUpdated.orElse .null), m.weight⟩ : Metadata) = _
  rw [timeOr_eq hc, horElse, timeOr_eq hu]

theorem NodeKind.read_name (k : NodeKind) : NodeKind.read (.text k.name) = .ok k := by
  rw [NodeKind.read, NodeKind.ofName?_name]

theorem RelationKind.read_name (k : RelationKind) : RelationKind.read (.text k.name) = .ok k := by
  rw [RelationKind.read, RelationKind.ofName?_name]

theorem Node.read_toValue {n : Node} (h : n.Readable) :
    Node.read now (.scalar k) n.toValue = .ok { n with id := k, connections := ∅ } := by
  have hkind : n.toValue.field "type" = .ok (.text n.kind.name) := rfl
  have hname : n.toValue.field? "name" = .ok (some n.name) := rfl
  have hprops : n.toValue.field "properties" = .ok n.properties.toValue := rfl
  have hmeta : n.toValue.field "metadata" = .ok n.metadata.toValue := rfl
  unfold Node.read
  rw [hkind, hname, hprops, hmeta]
  change (do
    let kind ← NodeKind.read (.text n.kind.name)
    let properties ← n.properties.toValue.toTable
    let metadata ← Metadata.read now n.metadata.toValue
    return { id := k, kind, name := n.name, properties, metadata, connections := ∅ } : Checked Node) = _
  rw [NodeKind.read_name, Properties.toTable_toValue, Metadata.read_toValue h.created h.updated]
  rfl

theorem Edge.read_toValue {nodes : Table Node} {e : Edge}
    (hs : nodes.contains e.source = true) (ht : nodes.contains e.target = true)
    (hc : e.created.isFalsy = false) :
    Edge.read now nodes (.scalar k) e.toValue = .ok { e with id := k } := by
  have hsource : e.toValue.field "from" = .ok (.scalar e.source) := rfl
  have htarget : e.toValue.field "to" = .ok (.scalar e.target) := rfl
  have hkind : e.toValue.field "type" = .ok (.text e.kind.name) := rfl
  have hstrength : e.toValue.field? "strength" = .ok (some (.float e.strength)) := rfl
  have hprops : e.toValue.field "properties" = .ok e.properties.toValue := rfl
  have hcreated : e.toValue.field "created" = .ok e.created := rfl
  have hends : [e.source, e.target].filter (fun k => !nodes.contains k) = [] := by
    simp [hs, ht]
  unfold Edge.read
  rw [hsource, htarget, hkind, hstrength, hprops, hcreated]
  simp only [bind, Except.bind, Value.key, hends, RelationKind.read_name, Properties.toTable_toValue,
    timeOr_eq hc]
  rfl

end Records

def Node.bare (n : Node) : Node := { n with connections := ∅ }

/-- Nodes that differ at most in their connections. -/
def Node.SameRecord (n m : Node) : Prop := m = { n with connections := m.connections }

namespace Node.SameRecord

variable {n m l : Node}

theorem refl (n : Node) : n.SameRecord n := rfl

theorem trans (h : n.SameRecord m) (h' : m.SameRecord l) : n.SameRecord l := by
  unfold Node.SameRecord at h h' ⊢
  rw [h] at h'
  exact h'

theorem kind_eq (h : n.SameRecord m) : m.kind = n.kind := by rw [h]

theorem meet (n : Node) (e : Edge) (k : Scalar) : n.SameRecord (n.meet e k) := Node.meet_eq

end Node.SameRecord

namespace Graph

variable {g : Graph} {now : String} {nodes : Table Node} {edges : List Edge}

theorem importNode_pair {t : Table Node} {p : Scalar × Node} (h : p.2.Readable) :
    importNode now t (.list [.scalar p.1, p.2.toValue]) =
      .ok (t.insert p.1 { p.2 with id := p.1, connections := ∅ }) := by
  change (do
    let n ← Node.read now (.scalar p.1) p.2.toValue
    return t.insert n.id n : Checked (Table Node)) = _
  rw [Node.read_toValue h]
  rfl

theorem foldlM_importNode {es : List (Scalar × Node)} {t : Table Node}
    (h : ∀ p ∈ es, p.2.Readable ∧ p.2.id = p.1) :
    (es.map fun p => Value.list [.scalar p.1, p.2.toValue]).foldlM (importNode now) t =
      .ok ((es.map fun p => (p.1, p.2.bare)).foldl (fun t p => t.insert p.1 p.2) t) := by
  induction es generalizing t with
  | nil => rfl
  | cons p rest ih =>
    obtain ⟨hread, hid⟩ := h p List.mem_cons_self
    have hbare : ({ p.2 with id := p.1, connections := ∅ } : Node) = p.2.bare := by
      rw [← hid]
      rfl
    rw [List.map_cons, List.foldlM_cons, importNode_pair hread, hbare]
    exact ih fun q hq => h q (List.mem_cons_of_mem _ hq)

theorem importedNodes_toValue (h : ∀ p ∈ g.nodes.entries, p.2.Readable ∧ p.2.id = p.1) :
    importedNodes now g.toValue = .ok (g.nodes.mapValues Node.bare) := by
  have htable : exportTable "nodes" g.toValue =
      .ok (g.nodes.entries.map fun p => .list [.scalar p.1, p.2.toValue]) := rfl
  unfold importedNodes
  rw [htable]
  refine (foldlM_importNode h).trans (congrArg Except.ok ?_)
  exact Table.ofList_entries (g.nodes.mapValues Node.bare)

theorem mapM_readEdge {es : List (Scalar × Edge)}
    (h : ∀ p ∈ es, p.2.id = p.1 ∧ p.2.created.isFalsy = false ∧
      nodes.contains p.2.source = true ∧ nodes.contains p.2.target = true) :
    (es.map fun p => Value.list [.scalar p.1, p.2.toValue]).mapM (readEdge now nodes) =
      .ok (es.map Prod.snd) := by
  induction es with
  | nil => rfl
  | cons p rest ih =>
    obtain ⟨hid, hc, hs, ht⟩ := h p List.mem_cons_self
    have hread : readEdge now nodes (.list [.scalar p.1, p.2.toValue]) = .ok p.2 := by
      change Edge.read now nodes (.scalar p.1) p.2.toValue = _
      rw [Edge.read_toValue hs ht hc, ← hid]
    rw [List.map_cons, List.mapM_cons, hread, ih fun q hq => h q (List.mem_cons_of_mem _ hq)]
    rfl

theorem importedEdges_toValue
    (h : ∀ p ∈ g.edges.entries, p.2.id = p.1 ∧ p.2.created.isFalsy = false ∧
      nodes.contains p.2.source = true ∧ nodes.contains p.2.target = true) :
    importedEdges now g.toValue nodes = .ok g.edges.values :=
  mapM_readEdge h

theorem foldlM_importConcept {es : List (Scalar × Scalar)} {c : Table Scalar}
    (h : ∀ p ∈ es, nodes.contains p.2 = true) :
    (es.map fun p => Value.list [.scalar p.1, .scalar p.2]).foldlM (importConcept nodes) c =
      .ok (es.foldl (fun t p => t.insert p.1 p.2) c) := by
  induction es generalizing c with
  | nil => rfl
  | cons p rest ih =>
    have hstep : importConcept nodes c (.list [.scalar p.1, .scalar p.2]) =
        .ok (c.insert p.1 p.2) := by
      change (if nodes.contains p.2 then Except.ok (c.insert p.1 p.2) else .ok c) = _
      rw [if_pos (h p List.mem_cons_self)]
    rw [List.map_cons, List.foldlM_cons, hstep]
    exact ih fun q hq => h q (List.mem_cons_of_mem _ hq)

theorem importedConcepts_toValue (h : ∀ p ∈ g.concepts.entries, nodes.contains p.2 = true) :
    importedConcepts g.toValue nodes = .ok g.concepts :=
  (foldlM_importConcept h).trans (congrArg Except.ok (Table.ofList_entries g.concepts))

theorem completeConcept_of_ne {n : Node} {c : Table Scalar} (hk : n.kind ≠ .concept) :
    completeConcept c n = .ok c := by
  unfold completeConcept
  rw [if_neg hk]
  rfl

theorem completeConcept_of_concept {n : Node} {c : Table Scalar} {s : String} (hk : n.kind = .concept)
    (hs : n.name = .text s) :
    completeConcept c n = .ok (c.insertNew (.text (Text.lowerText s)) n.id) := by
  unfold completeConcept
  rw [if_pos hk, hs]
  rfl

/-- Completing an index appends the names that it lacks, if there are any. -/
theorem foldlM_completeConcept {ns : List Node} {c : Table Scalar}
    (h : ∀ n ∈ ns, ∃ s, n.name = .text s) :
    ∃ c', ns.foldlM completeConcept c = .ok c' ∧ c.entries <+: c'.entries ∧
      (c' = c ↔ ∀ n ∈ ns, n.kind = .concept → ∀ s, n.name = .text s →
        c.contains (.text (Text.lowerText s)) = true) := by
  induction ns generalizing c with
  | nil => exact ⟨c, rfl, List.prefix_refl _, by simp⟩
  | cons n rest ih =>
    have hrest : ∀ n ∈ rest, ∃ s, n.name = .text s := fun m hm => h m (List.mem_cons_of_mem _ hm)
    obtain ⟨s, hs⟩ := h n List.mem_cons_self
    by_cases hk : n.kind = .concept
    · rw [List.foldlM_cons, completeConcept_of_concept hk hs]
      cases hc : c.contains (.text (Text.lowerText s)) with
      | true =>
        rw [Table.insertNew, if_pos hc]
        obtain ⟨c', hfold, hpre, hiff⟩ := ih (c := c) hrest
        refine ⟨c', hfold, hpre, hiff.trans ?_⟩
        simp [hk, hs, hc]
      | false =>
        obtain ⟨c', hfold, hpre, -⟩ := ih (c := c.insertNew (.text (Text.lowerText s)) n.id) hrest
        have hentries : (c.insertNew (.text (Text.lowerText s)) n.id).entries =
            c.entries ++ [(.text (Text.lowerText s), n.id)] := by
          rw [Table.insertNew, if_neg (by simp [hc]), Table.entries_insert_of_not_contains hc]
        rw [hentries] at hpre
        refine ⟨c', hfold, (List.prefix_append _ _).trans hpre, ?_⟩
        -- entries only ever go to the end, so the longer index cannot be the old one again
        have hlen := hpre.length_le
        rw [List.length_append, List.length_singleton] at hlen
        constructor
        · intro heq
          rw [heq] at hlen
          omega
        · intro hall
          have hn := hall n List.mem_cons_self hk s hs
          rw [hc] at hn
          cases hn
    · rw [List.foldlM_cons, completeConcept_of_ne hk]
      obtain ⟨c', hfold, hpre, hiff⟩ := ih (c := c) hrest
      refine ⟨c', hfold, hpre, hiff.trans ?_⟩
      simp [hk]

theorem edges_foldl_putEdge :
    (edges.foldl putEdge g).edges = edges.foldl (fun t e => t.insert e.id e) g.edges := by
  induction edges generalizing g with
  | nil => rfl
  | cons e rest ih => exact ih

/-- Storing the edges of a table in order gives the table again. -/
theorem edges_foldl_putEdge_values (h : ∀ p ∈ g.edges.entries, p.2.id = p.1) :
    (g.edges.values.foldl putEdge (ofNodes nodes)).edges = g.edges := by
  have hinsert : ∀ (es : List (Scalar × Edge)) (t : Table Edge), (∀ p ∈ es, p.2.id = p.1) →
      (es.map Prod.snd).foldl (fun t e => t.insert e.id e) t =
        es.foldl (fun t p => t.insert p.1 p.2) t := by
    intro es
    induction es with
    | nil => exact fun t _ => rfl
    | cons p rest ih =>
      intro t hes
      rw [List.map_cons, List.foldl_cons, List.foldl_cons, hes p List.mem_cons_self]
      exact ih _ fun q hq => hes q (List.mem_cons_of_mem _ hq)
  rw [edges_foldl_putEdge, Table.values, hinsert _ _ h]
  exact Table.ofList_entries g.edges

theorem keys_nodes_foldl_putEdge : (edges.foldl putEdge g).nodes.keys = g.nodes.keys := by
  induction edges generalizing g with
  | nil => rfl
  | cons e rest ih => exact ih.trans keys_nodes_putEdge

theorem sameRecord_foldl_putEdge {k : Scalar} {n m : Node} (hn : g.nodes.get? k = some n)
    (hm : (edges.foldl putEdge g).nodes.get? k = some m) : n.SameRecord m := by
  induction edges generalizing g n with
  | nil =>
    cases hn.symm.trans hm
    rfl
  | cons e rest ih =>
    have hmeet : (g.putEdge e).nodes.get? k = some (n.meet e k) := by
      rw [get?_nodes_putEdge, hn, Option.map_some]
    exact (Node.SameRecord.meet n e k).trans (ih hmeet hm)

/-- Equality of graphs, where connections are sets and everything else is in order. -/
structure Same (g h : Graph) : Prop where
  nodes : List.Forall₂ (fun p q => q.1 = p.1 ∧ p.2.SameRecord q.2 ∧
    ∀ x, x ∈ p.2.connections.keys ↔ x ∈ q.2.connections.keys) g.nodes.entries h.nodes.entries
  edges : h.edges = g.edges
  concepts : h.concepts = g.concepts

/-- Every node lists exactly the edges that have it at an end. -/
def ListsTouchingEdges (g : Graph) : Prop :=
  ∀ n ∈ g.nodes.values, ∀ x, x ∈ n.connections.keys ↔
    ∃ e ∈ g.edges.values, e.id = x ∧ (e.source = n.id ∨ e.target = n.id)

/-- The lower-case name of every concept is in the index. -/
def IndexesConcepts (g : Graph) : Prop :=
  ∀ n ∈ g.nodes.values, n.kind = .concept →
    ∃ s, n.name = .text s ∧ Scalar.text (Text.lowerText s) ∈ g.concepts.keys

theorem toExport_eq (h : g.Linked) (ht : g.TextIds) : g.toExport = .ok g.toValue :=
  ordered_of_textIds h ht g.nodes.keys g.toValue

def rebuilt (g : Graph) : Graph := g.edges.values.foldl putEdge (ofNodes (g.nodes.mapValues Node.bare))

theorem keys_nodes_rebuilt : g.rebuilt.nodes.keys = g.nodes.keys :=
  keys_nodes_foldl_putEdge.trans Table.keys_mapValues

theorem contains_rebuilt {k : Scalar} : g.rebuilt.nodes.contains k = g.nodes.contains k := by
  rw [Bool.eq_iff_iff, Table.contains_iff_mem, Table.contains_iff_mem, keys_nodes_rebuilt]

theorem sameRecord_rebuilt {k : Scalar} {n m : Node} (hn : g.nodes.get? k = some n)
    (hm : g.rebuilt.nodes.get? k = some m) : n.SameRecord m := by
  have hbare : (ofNodes (g.nodes.mapValues Node.bare)).nodes.get? k = some n.bare := by
    change (g.nodes.mapValues Node.bare).get? k = _
    rw [Table.get?_mapValues, hn, Option.map_some]
  have hsame : n.bare.SameRecord m := sameRecord_foldl_putEdge hbare hm
  exact hsame

theorem exists_rebuilt {k : Scalar} {n : Node} (hn : g.nodes.get? k = some n) :
    ∃ m, g.rebuilt.nodes.get? k = some m ∧ n.SameRecord m := by
  have hk : g.rebuilt.nodes.contains k = true := contains_rebuilt.trans (Table.contains_of_get? hn)
  obtain ⟨m, hm⟩ := Table.contains_iff.1 hk
  exact ⟨m, hm, sameRecord_rebuilt hn hm⟩

theorem exists_original {k : Scalar} {m : Node} (hm : g.rebuilt.nodes.get? k = some m) :
    ∃ n, g.nodes.get? k = some n ∧ n.SameRecord m := by
  have hk : g.nodes.contains k = true := contains_rebuilt.symm.trans (Table.contains_of_get? hm)
  obtain ⟨n, hn⟩ := Table.contains_iff.1 hk
  exact ⟨n, hn, sameRecord_rebuilt hn hm⟩

theorem named_rebuilt (hr : g.Readable) : ∀ m ∈ g.rebuilt.nodes.values, ∃ s, m.name = .text s := by
  intro m hm
  obtain ⟨k, hk⟩ := Table.mem_values_iff.1 hm
  obtain ⟨n, hn, hsame⟩ := exists_original hk
  obtain ⟨s, hs⟩ := (hr.nodes k n hn).named
  exact ⟨s, by rw [hsame, hs]⟩

section Import

variable (hl : g.Linked) (ht : g.TextIds) (hr : g.Readable)

include hl ht in
theorem edges_rebuilt : g.rebuilt.edges = g.edges :=
  edges_foldl_putEdge_values (hl.id_of_mem_edges ht)

include hl ht hr in
/-- An import of an export reads the nodes and edges that it rebuilds the graph from. -/
theorem imported_toValue (now : String) :
    importedNodes now g.toValue = .ok (g.nodes.mapValues Node.bare) ∧
      importedEdges now g.toValue (g.nodes.mapValues Node.bare) = .ok g.edges.values := by
  have hends : ∀ p ∈ g.edges.entries, ∀ j, p.2.Touches j →
      (g.nodes.mapValues Node.bare).contains j = true := by
    intro p hp j hj
    obtain ⟨n, hn, -⟩ := hl.listed p.1 p.2 (Table.get?_of_mem hp) j hj
    refine Table.contains_of_get? (v := n.bare) ?_
    rw [Table.get?_mapValues, hn, Option.map_some]
  constructor
  · refine importedNodes_toValue fun p hp => ?_
    exact ⟨hr.nodes p.1 p.2 (Table.get?_of_mem hp), hl.id_of_mem_nodes ht p hp⟩
  · refine importedEdges_toValue fun p hp => ?_
    exact ⟨hl.id_of_mem_edges ht p hp, hr.edges p.1 p.2 (Table.get?_of_mem hp),
      hends p hp _ (Or.inl rfl), hends p hp _ (Or.inr rfl)⟩

include hl ht hr in
/-- The export of a linked graph with textual ids, textual names and real times can be imported. -/
theorem ofExport_toValue (now : String) :
    ∃ c, ofExport now g.toValue = .ok { g.rebuilt with concepts := c } ∧
      g.concepts.entries <+: c.entries ∧
      (c = g.concepts ↔ ∀ m ∈ g.rebuilt.nodes.values, m.kind = .concept →
        ∀ s, m.name = .text s → g.concepts.contains (.text (Text.lowerText s)) = true) := by
  obtain ⟨hnodes, hedges⟩ := imported_toValue hl ht hr now
  have hconcepts : importedConcepts g.toValue g.rebuilt.nodes = .ok g.concepts := by
    refine importedConcepts_toValue fun p hp => ?_
    rw [contains_rebuilt]
    exact hr.concepts p.1 p.2 (Table.get?_of_mem hp)
  obtain ⟨c, hfold, hpre, hiff⟩ := foldlM_completeConcept (c := g.concepts) (named_rebuilt hr)
  refine ⟨c, ?_, hpre, hiff⟩
  rw [ofExport_eq]
  exact Except.bind_eq_ok.2 ⟨_, hnodes, Except.bind_eq_ok.2 ⟨_, hedges,
    Except.bind_eq_ok.2 ⟨_, hconcepts, Except.bind_eq_ok.2 ⟨c, hfold, rfl⟩⟩⟩⟩

include hl ht hr in
/-- A rebuilt graph lists what touches its nodes, whatever the old one listed: no id stands for two edges of
one table. -/
theorem listsTouchingEdges_rebuilt : g.rebuilt.ListsTouchingEdges := by
  obtain ⟨c, hok, -⟩ := ofExport_toValue hl ht hr ""
  obtain ⟨hnodes, hedges⟩ := imported_toValue hl ht hr ""
  have haccount := accounted_ofExport hok (Except.bind_eq_ok.2 ⟨_, hnodes, hedges⟩)
  have htext : ∀ e ∈ g.edges.values, e.id.IsText := fun e he => (hl.get?_edge ht he).2
  have hagree : Agreeing g.edges.values := by
    intro e he e' he' hid
    have hget := (hl.get?_edge ht he).1
    have hget' := (hl.get?_edge ht he').1
    rw [hid] at hget
    cases hget.symm.trans hget'
    exact ⟨rfl, rfl⟩
  have htexts : TextIds { g.rebuilt with concepts := c } := {
    nodes k hk := ht.nodes k (keys_nodes_rebuilt (g := g) ▸ hk)
    edges k hk := ht.edges k (edges_rebuilt hl ht ▸ hk) }
  intro n hn x
  exact (haccount.exact htext hagree).mem_connections_iff haccount.linked htexts hn

include hl ht hr in
/-- The rebuilt graph with an index is the old one exactly if the index is and the connections were what
the edges say. -/
theorem same_rebuilt_iff {c : Table Scalar} :
    g.Same { g.rebuilt with concepts := c } ↔ g.ListsTouchingEdges ∧ c = g.concepts := by
  have hlists := listsTouchingEdges_rebuilt hl ht hr
  have hedges := edges_rebuilt hl ht
  constructor
  · intro h
    refine ⟨?_, h.concepts⟩
    intro n hn x
    obtain ⟨p, hp, rfl⟩ := List.mem_map.1 hn
    obtain ⟨q, hq, -, hsame, hx⟩ := exists_of_forall₂ h.nodes p hp
    have hid : q.2.id = p.2.id := by rw [hsame]
    rw [hx x, hlists q.2 (List.mem_map_of_mem hq) x, hedges, hid]
  · rintro ⟨h, hc⟩
    refine ⟨?_, hedges, hc⟩
    refine Table.forall₂_entries (R := fun n m : Node => n.SameRecord m ∧
      ∀ x, x ∈ n.connections.keys ↔ x ∈ m.connections.keys) keys_nodes_rebuilt ?_
    intro k n m hn hm
    have hsame := sameRecord_rebuilt hn hm
    have hid : m.id = n.id := by rw [hsame]
    refine ⟨hsame, fun x => ?_⟩
    rw [h n (Table.mem_values_of_get? hn) x, hlists m (Table.mem_values_of_get? hm) x, hedges, hid]

include hr in
/-- The names of the rebuilt concepts are those of the old ones. -/
theorem indexesConcepts_iff :
    g.IndexesConcepts ↔ ∀ m ∈ g.rebuilt.nodes.values, m.kind = .concept →
      ∀ s, m.name = .text s → g.concepts.contains (.text (Text.lowerText s)) = true := by
  constructor
  · intro h m hm hk s hs
    obtain ⟨k, hget⟩ := Table.mem_values_iff.1 hm
    obtain ⟨n, hn, hsame⟩ := exists_original hget
    rw [hsame] at hk hs
    obtain ⟨s', hs', hmem⟩ := h n (Table.mem_values_of_get? hn) hk
    cases hs.symm.trans hs'
    exact Table.contains_text_iff.2 hmem
  · intro h n hn hk
    obtain ⟨k, hget⟩ := Table.mem_values_iff.1 hn
    obtain ⟨m, hm, hsame⟩ := exists_rebuilt hget
    obtain ⟨s, hs⟩ := (hr.nodes k n hget).named
    have hmk : m.kind = .concept := by
      rw [hsame]
      exact hk
    have hms : m.name = .text s := by
      rw [hsame]
      exact hs
    exact ⟨s, hs, Table.contains_text_iff.1 (h m (Table.mem_values_of_get? hm) hmk s hms)⟩

end Import

end Graph

/-- After calls with textual ids and names and real times, the graph can be exported, and the export can be
imported into a new graph, which has the same nodes and edges in the same order and all entries of the
index. It is the same graph in every respect exactly if every node of the old one lists the edges that
touch it and no concept is missing from its index. -/
theorem import_of_export (calls : List Call)
    (h : ∀ c ∈ calls, c.hasTextIds = true ∧ c.hasTextNames = true ∧ c.now ≠ "") (now : String) :
    let g := Graph.ofCalls calls
    ∃ v g', g.toExport = .ok v ∧ (Graph.importExport now v).run .empty = .ok () g' ∧
      List.Forall₂ (fun p q => q.1 = p.1 ∧ p.2.SameRecord q.2) g.nodes.entries g'.nodes.entries ∧
      g'.edges = g.edges ∧ g.concepts.entries <+: g'.concepts.entries ∧
      (g.Same g' ↔ g.ListsTouchingEdges ∧ g.IndexesConcepts) := by
  intro g
  obtain ⟨hrec, hr⟩ := Graph.readable_ofCalls h
  rw [History.graph_ofCalls] at hrec hr
  have hl : g.Linked := hrec.account.linked
  have ht : g.TextIds := hrec.texts
  obtain ⟨c, hok, hpre, hiff⟩ := Graph.ofExport_toValue hl ht hr now
  have hrun : (Graph.importExport now g.toValue).run .empty =
      .ok () { g.rebuilt with concepts := c } := by
    simp only [Graph.importExport, EStateM.run_bind, hok, Change.run_check_ok, EStateM.run_set]
  refine ⟨g.toValue, _, Graph.toExport_eq hl ht, hrun, ?_, Graph.edges_rebuilt hl ht, hpre, ?_⟩
  · refine Table.forall₂_entries Graph.keys_nodes_rebuilt fun k n m hn hm => ?_
    exact Graph.sameRecord_rebuilt hn hm
  · rw [Graph.same_rebuilt_iff hl ht hr, Graph.indexesConcepts_iff hr, hiff]

theorem indexesConcepts_sampleCalls : (Graph.ofCalls sampleCalls).IndexesConcepts := by
  have hnodes : (Graph.ofCalls sampleCalls).nodes.values.map (fun n => (n.kind, n.name)) =
      [(.file, .text "a.py"), (.concept, .text "Cache")] := rfl
  have hindex : (Graph.ofCalls sampleCalls).concepts.keys = [.text "cache"] := rfl
  intro n hn hk
  have hmem : (n.kind, n.name) ∈ [(NodeKind.file, Value.text "a.py"), (.concept, .text "Cache")] :=
    hnodes ▸ List.mem_map_of_mem hn
  rw [hk] at hmem
  have hname : n.name = .text "Cache" := by simpa using hmem
  have hlower : Text.lowerText "Cache" = "cache" := rfl
  refine ⟨"Cache", hname, ?_⟩
  rw [hindex, hlower]
  exact List.mem_singleton.2 rfl

theorem import_of_export_sampleCalls :
    ∃ v g', (Graph.ofCalls sampleCalls).toExport = .ok v ∧
      (Graph.importExport "t9" v).run .empty = .ok () g' ∧ (Graph.ofCalls sampleCalls).Same g' := by
  have hconds : ∀ c ∈ sampleCalls, c.hasTextIds = true ∧ c.hasTextNames = true ∧ c.now ≠ "" := by
    decide
  obtain ⟨v, g', hexport, himport, -, -, -, hiff⟩ := import_of_export sampleCalls hconds "t9"
  refine ⟨v, g', hexport, himport, hiff.2 ⟨?_, ?_⟩⟩
  · have hrec := Graph.recorded_ofCalls fun c hc => (hconds c hc).1
    have hexact := hrec.account.exact hrec.stored_texts agreeing_sampleCalls
    intro n hn x
    exact hexact.mem_connections_iff hrec.account.linked hrec.texts hn
  · exact indexesConcepts_sampleCalls

end CodeAtlas
