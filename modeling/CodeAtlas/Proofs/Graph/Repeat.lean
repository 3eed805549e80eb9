import CodeAtlas.Proofs.Graph.Writes

/-! Doing writes again. The second run finds everything there that the first one left, so it makes nothing
new; but on the way it may undo what the first run did later, as an id may be written several times with
different data. So the second run is followed side by side with the first: whatever it finds under an id
is what the first run left there in the end, or what the first run had there at the same point. When both
are done the two are the same. -/

namespace CodeAtlas

/-- A table in which a key has this value already is not changed by writing it. -/
theorem Table.insert_of_get? {α : Type} {t : Table α} {key : Scalar} {v : α}
    (h : t.get? key = some v) : t.insert key v = t := by
  have hentries : ∀ es : List (Scalar × α), lookup? key es = some v → writeEntry key v es = es := by
    intro es
    induction es with
    | nil => exact fun h => nomatch h
    | cons e rest ih =>
      intro h
      rw [lookup?] at h
      rw [writeEntry]
      split at h
      · rename_i hk
        rw [if_pos hk, ← Option.some.inj h]
      · rename_i hk
        rw [if_neg hk, ih h]
  exact Table.ext (hentries t.entries h)

theorem KeySet.add_of_contains {s : KeySet} {key : Scalar} (h : s.contains key = true) :
    s.add key = s := by
  obtain ⟨u, hu⟩ := Table.contains_iff.1 h
  exact Table.insert_of_get? hu

def Node.untimed (n : Node) : Node :=
  { n with metadata := { n.metadata with lastUpdated := .null } }

def Node.draft (n : Node) : NodeDraft := ⟨n.kind, some n.name, n.properties, n.metadata.weight⟩

def Edge.untimed (e : Edge) : Edge := { e with created := .null }

/-- A graph apart from the times at which its nodes were last written and its edges were stored. -/
def Graph.untimed (g : Graph) : Graph where
  nodes := g.nodes.mapValues Node.untimed
  edges := g.edges.mapValues Edge.untimed
  concepts := g.concepts

namespace Node

variable {n : Node} {e : Edge} {k : Scalar} {now : String} {d : NodeDraft}

theorem meet_eq_self (h : e.Touches k → n.connections.contains e.id = true) : n.meet e k = n := by
  have hconnect : e.Touches k → n.connect e.id = n := fun ht => by
    rw [connect, KeySet.add_of_contains (h ht)]
  unfold meet
  by_cases hs : e.source.canon = k.canon
  · by_cases ht : e.target.canon = k.canon <;> simp [hs, ht, hconnect (Or.inl hs)]
  · by_cases ht : e.target.canon = k.canon
    · simp [hs, ht, hconnect (Or.inr ht)]
    · simp [hs, ht]

theorem untimed_eq {m : Node} (hid : m.id = n.id) (hconnections : m.connections = n.connections)
    (hcreated : m.metadata.created = n.metadata.created) (hdraft : m.draft = n.draft) :
    m.untimed = n.untimed := by
  obtain ⟨id, kind, name, properties, ⟨created, lastUpdated, weight⟩, connections⟩ := m
  obtain ⟨id', kind', name', properties', ⟨created', lastUpdated', weight'⟩, connections'⟩ := n
  cases hid
  cases hconnections
  cases hcreated
  cases hdraft
  rfl

@[simp] theorem draft_meet : (n.meet e k).draft = n.draft := by
  simp [draft]

theorem draft_overwritten (h : d.name ≠ none) : (overwritten now n d).draft = d := by
  obtain ⟨kind, name, properties, weight⟩ := d
  cases name with
  | none => exact absurd rfl h
  | some v => rfl

theorem draft_fresh (h : d.name ≠ none) : (fresh now k d).draft = d := by
  obtain ⟨kind, name, properties, weight⟩ := d
  cases name with
  | none => exact absurd rfl h
  | some v => rfl

end Node

namespace Graph

variable {g g' g'' final : Graph} {now : String} {id k : Scalar} {d : NodeDraft} {e : Edge}

/-- Whether a graph came out of another by writes that make no concepts: keys stay in their places, listed
edges stay listed, and what is no concept becomes none. -/
structure Grows (g g' : Graph) : Prop where
  node_keys : g.nodes.keys <+: g'.nodes.keys
  edge_keys : g.edges.keys <+: g'.edges.keys
  nodes : ∀ k n, g.nodes.get? k = some n → ∃ n', g'.nodes.get? k = some n' ∧
    (∀ x, n.connections.contains x = true → n'.connections.contains x = true) ∧
    (n.kind ≠ .concept → n'.kind ≠ .concept)

theorem keys_prefix_insert {α : Type} {t : Table α} {key : Scalar} {v : α} :
    t.keys <+: (t.insert key v).keys := by
  rw [Table.keys_insert]
  split
  · exact List.prefix_refl _
  · exact List.prefix_append _ _

theorem hasNode_withNode_self {c : Table Scalar} : (g.withNode now id d c).hasNode id = true :=
  Table.contains_insert_self

theorem hasNode_withNode {c : Table Scalar} (h : g.hasNode k = true) :
    (g.withNode now id d c).hasNode k = true :=
  Table.contains_insert_of_contains h

namespace Grows

theorem refl (g : Graph) : Grows g g where
  node_keys := List.prefix_refl _
  edge_keys := List.prefix_refl _
  nodes _ n hn := ⟨n, hn, fun _ hx => hx, fun hk => hk⟩

theorem trans (h : Grows g g') (h' : Grows g' g'') : Grows g g'' where
  node_keys := h.node_keys.trans h'.node_keys
  edge_keys := h.edge_keys.trans h'.edge_keys
  nodes k n hn := by
    obtain ⟨n', hn', hx, hk⟩ := h.nodes k n hn
    obtain ⟨n'', hn'', hx', hk'⟩ := h'.nodes k n' hn'
    exact ⟨n'', hn'', fun x hc => hx' x (hx x hc), fun hc => hk' (hk hc)⟩

theorem hasNode (h : Grows g g') (hk : g.hasNode k = true) : g'.hasNode k = true := by
  obtain ⟨n, hn⟩ := hasNode_iff.1 hk
  obtain ⟨n', hn', -⟩ := h.nodes k n hn
  exact Table.contains_of_get? hn'

theorem hasEdge (h : Grows g g') (hk : g.hasEdge k = true) : g'.hasEdge k = true := by
  obtain ⟨k', hk', hc⟩ := Table.contains_iff_mem.1 hk
  exact Table.contains_iff_mem.2 ⟨k', h.edge_keys.subset hk', hc⟩

theorem size_le (h : Grows g g') : g.nodes.size ≤ g'.nodes.size ∧ g.edges.size ≤ g'.edges.size := by
  simp only [Table.size_eq_length_keys]
  exact ⟨h.node_keys.length_le, h.edge_keys.length_le⟩

theorem withNode (hd : d.kind ≠ .concept) (c : Table Scalar) :
    Grows g (g.withNode now id d c) where
  node_keys := keys_prefix_insert
  edge_keys := List.prefix_refl _
  nodes k n hn := by
    rw [Graph.withNode, Table.get?_insert]
    split
    · rename_i hk
      rw [← Table.get?_congr hk] at hn
      refine ⟨_, rfl, fun x hx => contains_written.2 ⟨n, hn, hx⟩, fun _ => ?_⟩
      rw [written_kind]
      exact hd
    · exact ⟨n, hn, fun _ hx => hx, fun hk => hk⟩

theorem putEdge : Grows g (g.putEdge e) where
  node_keys := keys_nodes_putEdge (g := g) ▸ List.prefix_refl _
  edge_keys := keys_prefix_insert
  nodes k n hn := by
    rw [get?_nodes_putEdge, hn]
    refine ⟨_, rfl, fun x hx => Node.contains_meet.2 (Or.inl hx), fun hk => ?_⟩
    rw [Node.meet_kind]
    exact hk

end Grows

end Graph

namespace Write

open CodeAtlas.Graph

/-- Whether writes can be done again without further effect, where these ids are nodes: the nodes they write
are no concepts and are given their names, and what they relate was written before. -/
def Repeatable : List Scalar → List Write → Prop
  | _, [] => True
  | ids, node id d :: rest => d.kind ≠ .concept ∧ d.name ≠ none ∧ Repeatable (id :: ids) rest
  | ids, newNode id d :: rest => d.kind ≠ .concept ∧ Repeatable (id :: ids) rest
  | ids, link source target _ properties :: rest =>
    source ∈ ids ∧ target ∈ ids ∧ properties = ∅ ∧ Repeatable ids rest
  | ids, stop _ :: rest => Repeatable ids rest

section Repeatable

variable {ids ids' : List Scalar} {ws ws' : List Write}

theorem Repeatable.mono (h : Repeatable ids ws) (hsub : ids ⊆ ids') : Repeatable ids' ws := by
  induction ws generalizing ids ids' with
  | nil => trivial
  | cons w rest ih =>
    cases w with
    | node id d => exact ⟨h.1, h.2.1, ih h.2.2 (List.cons_subset_cons id hsub)⟩
    | newNode id d => exact ⟨h.1, ih h.2 (List.cons_subset_cons id hsub)⟩
    | link source target kind properties =>
      exact ⟨hsub h.1, hsub h.2.1, h.2.2.1, ih h.2.2.2 hsub⟩
    | stop e => exact ih h hsub

theorem Repeatable.append (h : Repeatable ids ws) (h' : Repeatable ids ws') :
    Repeatable ids (ws ++ ws') := by
  induction ws generalizing ids with
  | nil => exact h'
  | cons w rest ih =>
    cases w with
    | node id d => exact ⟨h.1, h.2.1, ih h.2.2 (h'.mono (List.subset_cons_self _ _))⟩
    | newNode id d => exact ⟨h.1, ih h.2 (h'.mono (List.subset_cons_self _ _))⟩
    | link source target kind properties => exact ⟨h.1, h.2.1, h.2.2.1, ih h.2.2.2 h'⟩
    | stop e => exact ih h h'

theorem Repeatable.flatMap {α : Type} {as : List α} {f : α → List Write}
    (h : ∀ a ∈ as, Repeatable ids (f a)) : Repeatable ids (as.flatMap f) := by
  induction as with
  | nil => trivial
  | cons a rest ih =>
    rw [List.flatMap_cons]
    exact (h a List.mem_cons_self).append (ih fun b hb => h b (List.mem_cons_of_mem _ hb))

end Repeatable

section Steps

variable {now : String} {g g' : Graph} {id source target : Scalar} {d : NodeDraft} {kind : RelationKind}

theorem run_node_ok (h : ((node id d).run now).run g = .ok () g') :
    ∃ c, g' = g.withNode now id d c := by
  rw [run_node, Change.effect] at h
  cases hrun : (writeNode now id d).run g with
  | error e g'' =>
    rw [hrun] at h
    cases h
  | ok n g'' =>
    rw [hrun] at h
    cases h
    exact (writeNode_ok hrun).2

theorem run_newNode_ok (h : ((newNode id d).run now).run g = .ok () g') :
    g.hasNode id = true ∧ g' = g ∨ g.hasNode id = false ∧ ∃ c, g' = g.withNode now id d c := by
  rw [run_newNode] at h
  cases hid : g.hasNode id with
  | true =>
    rw [hid, if_pos rfl] at h
    cases h
    exact Or.inl ⟨rfl, rfl⟩
  | false =>
    rw [hid, if_neg Bool.false_ne_true, ← run_node] at h
    exact Or.inr ⟨rfl, run_node_ok h⟩

theorem run_link_of_hasNode (hs : g.hasNode source = true) (ht : g.hasNode target = true) :
    ((link source target kind ∅).run now).run g =
      .ok () (g.putEdge (relationship now source target kind ∅ 1.0)) := by
  have hrel : (relate now source target kind ∅).run g = _ := relate_run_of_hasNode hs ht
  rw [run, run_tryCatch, EStateM.run_bind, hrel]
  rfl

/-- What one repeatable write does: the graph grows, and the id that is written is there. -/
theorem Repeatable.run_cons {ids : List Scalar} {w : Write} {rest : List Write}
    (h : Repeatable ids (w :: rest)) (hids : ∀ k ∈ ids, g.hasNode k = true)
    (hrun : (w.run now).run g = .ok () g') :
    Grows g g' ∧ ∃ ids', Repeatable ids' rest ∧ ∀ k ∈ ids', g'.hasNode k = true := by
  have hcons : ∀ id, Grows g g' → g'.hasNode id = true → ∀ k ∈ id :: ids, g'.hasNode k = true := by
    intro id hgrows hid k hk
    rcases List.mem_cons.1 hk with rfl | hk
    · exact hid
    · exact hgrows.hasNode (hids k hk)
  cases w with
  | node id d =>
    obtain ⟨c, rfl⟩ := run_node_ok hrun
    have hgrows : Grows g (g.withNode now id d c) := .withNode h.1 c
    exact ⟨hgrows, _, h.2.2, hcons id hgrows hasNode_withNode_self⟩
  | newNode id d =>
    rcases run_newNode_ok hrun with ⟨hid, rfl⟩ | ⟨-, c, rfl⟩
    · exact ⟨.refl _, _, h.2, hcons id (.refl _) hid⟩
    · have hgrows : Grows g (g.withNode now id d c) := .withNode h.1 c
      exact ⟨hgrows, _, h.2, hcons id hgrows hasNode_withNode_self⟩
  | link source target kind properties =>
    obtain ⟨hs, ht, rfl, hrest⟩ := h
    cases (run_link_of_hasNode (hids _ hs) (hids _ ht)).symm.trans hrun
    exact ⟨.putEdge, ids, hrest, fun k hk => Grows.putEdge.hasNode (hids k hk)⟩
  | stop e => cases hrun

theorem Repeatable.grows {ids : List Scalar} {ws : List Write} (h : Repeatable ids ws)
    (hids : ∀ k ∈ ids, g.hasNode k = true) (hrun : (runAll now ws).run g = .ok () g') :
    Grows g g' := by
  induction ws generalizing g ids with
  | nil =>
    cases hrun
    exact .refl _
  | cons w rest ih =>
    obtain ⟨g₁, hw, hrun⟩ := runAll_cons_ok hrun
    obtain ⟨hgrows, ids', hrest, hids'⟩ := h.run_cons hids hw
    exact hgrows.trans (ih hrest hids' hrun)

end Steps

end Write

namespace Graph

/-- How a node of the second run compares to what the first run made of it in the end: it has the same id,
connections and birth, and the data of then or the data that stand in the first run now. -/
structure Revisits (first : Graph) (k : Scalar) (n m : Node) : Prop where
  same : m.id = n.id
  connections : m.connections = n.connections
  created : m.metadata.created = n.metadata.created
  draft : m.draft = n.draft ∨
    ∃ p, first.nodes.get? k = some p ∧ p.kind ≠ .concept ∧ m.draft = p.draft

/-- The two runs side by side: `first` and `second` are where they stand, and `final` is what the first one
comes to. The second run has the nodes and edges of `final` in their places, with the data that they have
there or in `first`. -/
structure Repeats (final first second : Graph) : Prop where
  node_keys : second.nodes.keys = final.nodes.keys
  edge_keys : second.edges.keys = final.edges.keys
  concepts : second.concepts = final.concepts
  nodes : ∀ k n, final.nodes.get? k = some n →
    ∃ m, second.nodes.get? k = some m ∧ Revisits first k n m
  edges : ∀ k e, final.edges.get? k = some e → ∃ e', second.edges.get? k = some e' ∧
    (e'.untimed = e.untimed ∨ ∃ e₁, first.edges.get? k = some e₁ ∧ e'.untimed = e₁.untimed)

variable {g first : Graph} {now : String} {id : Scalar} {d : NodeDraft} {c : Table Scalar}

theorem draft_written (h : d.name ≠ none) : (g.written now id d).draft = d := by
  unfold written
  split
  · exact Node.draft_fresh h
  · exact Node.draft_overwritten h

namespace Revisits

variable {n m : Node} {k : Scalar} {e : Edge}

theorem kind_ne_concept (h : Revisits first k n m) (hn : n.kind ≠ .concept) : m.kind ≠ .concept := by
  have hkind : ∀ p : Node, m.draft = p.draft → m.kind = p.kind := fun p hp =>
    congrArg NodeDraft.kind hp
  rcases h.draft with hdraft | ⟨p, -, hp, hdraft⟩
  · rwa [hkind n hdraft]
  · rwa [hkind p hdraft]

theorem node {now' : String} (h : Revisits first k n m) (hd : d.kind ≠ .concept) (hname : d.name ≠ none)
    (hk : id.canon = k.canon) :
    Revisits (first.withNode now id d c) k n (.overwritten now' m d) where
  same := h.same
  connections := h.connections
  created := h.created
  draft := by
    refine Or.inr ⟨first.written now id d, ?_, ?_, ?_⟩
    · rw [withNode, Table.get?_insert, if_pos hk]
    · rw [written_kind]
      exact hd
    · rw [Node.draft_overwritten hname, draft_written hname]

/-- The first run writes a node that it did not have, or another one. -/
theorem withNode (h : Revisits first k n m)
    (hother : id.canon = k.canon → first.hasNode id = false) :
    Revisits (first.withNode now id d c) k n m where
  same := h.same
  connections := h.connections
  created := h.created
  draft := by
    refine h.draft.imp_right ?_
    rintro ⟨p, hp, hkind, hdraft⟩
    refine ⟨p, ?_, hkind, hdraft⟩
    rw [Graph.withNode, Table.get?_insert, if_neg ?_]
    · exact hp
    · intro hk
      have hthere := Table.contains_of_get? hp
      rw [← Table.contains_congr hk] at hthere
      exact Bool.false_ne_true ((hother hk).symm.trans hthere)

/-- The first run stores an edge, which does not change the data of nodes. -/
theorem putEdge (h : Revisits first k n m) : Revisits (first.putEdge e) k n m where
  same := h.same
  connections := h.connections
  created := h.created
  draft := by
    refine h.draft.imp_right ?_
    rintro ⟨p, hp, hkind, hdraft⟩
    refine ⟨p.meet e k, by rw [get?_nodes_putEdge, hp, Option.map_some], ?_, ?_⟩
    · rw [Node.meet_kind]
      exact hkind
    · rw [Node.draft_meet]
      exact hdraft

end Revisits

namespace Repeats

variable {final second : Graph} {now' : String} {source target k : Scalar} {kind : RelationKind}

theorem start (final first : Graph) : Repeats final first final where
  node_keys := rfl
  edge_keys := rfl
  concepts := rfl
  nodes _ n hn := ⟨n, hn, rfl, rfl, rfl, Or.inl rfl⟩
  edges _ e he := ⟨e, he, Or.inl rfl⟩

theorem hasNode (h : Repeats final first second) (hk : final.hasNode k = true) :
    second.hasNode k = true := by
  obtain ⟨n, hn⟩ := hasNode_iff.1 hk
  obtain ⟨m, hm, -⟩ := h.nodes k n hn
  exact Table.contains_of_get? hm

theorem node (h : Repeats final first second) (hd : d.kind ≠ .concept) (hname : d.name ≠ none)
    (hgrows : Grows (first.withNode now id d c) final) :
    ∃ second', ((Write.node id d).run now').run second = .ok () second' ∧
      Repeats final (first.withNode now id d c) second' := by
  have hwritten : (first.withNode now id d c).nodes.get? id = some (first.written now id d) := by
    rw [withNode, Table.get?_insert, if_pos rfl]
  obtain ⟨n, hn, -, hkind⟩ := hgrows.nodes id _ hwritten
  obtain ⟨m, hm, hrevisits⟩ := h.nodes id n hn
  have hplain : ∀ old, second.nodes.get? id = some old → old.kind ≠ .concept := by
    intro old hold
    cases hm.symm.trans hold
    exact hrevisits.kind_ne_concept (hkind (by rw [written_kind]; exact hd))
  refine ⟨second.withNode now' id d second.concepts, ?_, ?_, h.edge_keys, h.concepts,
    fun k n' hn' => ?_, h.edges⟩
  · rw [Write.run_node, Change.effect, writeNode_run_of_ne_concept hd hplain]
  · rw [withNode, Table.keys_insert, if_pos (Table.contains_of_get? hm), h.node_keys]
  · obtain ⟨m', hm', hrevisits'⟩ := h.nodes k n' hn'
    rw [withNode, Table.get?_insert]
    by_cases hk : id.canon = k.canon
    · rw [← Table.get?_congr hk] at hm'
      cases hm.symm.trans hm'
      rw [if_pos hk, written_of_some hm]
      exact ⟨_, rfl, hrevisits'.node hd hname hk⟩
    · rw [if_neg hk]
      exact ⟨m', hm', hrevisits'.withNode fun hk' => absurd hk' hk⟩

theorem newNode (h : Repeats final first second) (hid : first.hasNode id = false)
    (hgrows : Grows (first.withNode now id d c) final) :
    ((Write.newNode id d).run now').run second = .ok () second ∧
      Repeats final (first.withNode now id d c) second := by
  have hsecond := h.hasNode (hgrows.hasNode hasNode_withNode_self)
  refine ⟨by rw [Write.run_newNode, if_pos hsecond], h.node_keys, h.edge_keys, h.concepts,
    fun k n hn => ?_, h.edges⟩
  obtain ⟨m, hm, hrevisits⟩ := h.nodes k n hn
  exact ⟨m, hm, hrevisits.withNode fun _ => hid⟩

theorem contains_connections {e : Edge} {n : Node} (hgrows : Grows (first.putEdge e) final)
    (hend : first.hasNode k = true) (htouch : e.Touches k) (hn : final.nodes.get? k = some n) :
    n.connections.contains e.id = true := by
  obtain ⟨p, hp⟩ := hasNode_iff.1 hend
  have hmet : (first.putEdge e).nodes.get? k = some (p.meet e k) := by
    rw [get?_nodes_putEdge, hp, Option.map_some]
  obtain ⟨n', hn', hlisted, -⟩ := hgrows.nodes k _ hmet
  cases hn.symm.trans hn'
  exact hlisted _ (Node.contains_meet.2 (Or.inr ⟨rfl, htouch⟩))

theorem link (h : Repeats final first second) (hs : first.hasNode source = true)
    (ht : first.hasNode target = true)
    (hgrows : Grows (first.putEdge (relationship now source target kind ∅ 1.0)) final) :
    ∃ second', ((Write.link source target kind ∅).run now').run second = .ok () second' ∧
      Repeats final (first.putEdge (relationship now source target kind ∅ 1.0)) second' := by
  have hgrown := Grows.putEdge.trans hgrows
  refine ⟨_, Write.run_link_of_hasNode (h.hasNode (hgrown.hasNode hs))
    (h.hasNode (hgrown.hasNode ht)), ?_, ?_, h.concepts, fun k n hn => ?_, fun k e he => ?_⟩
  · rw [keys_nodes_putEdge, h.node_keys]
  · have hedge : final.hasEdge (relationship now source target kind ∅ 1.0).id = true :=
      hgrows.hasEdge Table.contains_insert_self
    obtain ⟨e, he⟩ := Table.contains_iff.1 hedge
    obtain ⟨e', he', -⟩ := h.edges _ e he
    have hthere : second.edges.contains (relationship now' source target kind ∅ 1.0).id = true :=
      Table.contains_of_get? he'
    rw [putEdge, Table.keys_insert, if_pos hthere, h.edge_keys]
  · obtain ⟨m, hm, hrevisits⟩ := h.nodes k n hn
    have hlisted : (relationship now' source target kind ∅ 1.0).Touches k →
        m.connections.contains (relationship now' source target kind ∅ 1.0).id = true := by
      intro htouch
      have hend : first.hasNode k = true := by
        rcases htouch with hk | hk
        · exact (Table.contains_congr hk).symm.trans hs
        · exact (Table.contains_congr hk).symm.trans ht
      rw [hrevisits.connections]
      exact contains_connections (e := relationship now source target kind ∅ 1.0) hgrows hend htouch hn
    refine ⟨m, ?_, hrevisits.putEdge⟩
    rw [get?_nodes_putEdge, hm, Option.map_some, Node.meet_eq_self hlisted]
  · rw [get?_edges_putEdge, get?_edges_putEdge]
    by_cases hk : (relationship now source target kind ∅ 1.0).id.canon = k.canon
    · exact ⟨_, if_pos hk, Or.inr ⟨_, if_pos hk, rfl⟩⟩
    · obtain ⟨e', he', hsame⟩ := h.edges k e he
      refine ⟨e', (if_neg hk).trans he', hsame.imp_right ?_⟩
      rintro ⟨e₁, he₁, hsame⟩
      exact ⟨e₁, (if_neg hk).trans he₁, hsame⟩

/-- The second run takes every step that the first one takes. -/
theorem run_cons {ids : List Scalar} {w : Write} {rest : List Write} {first' : Graph}
    (h : Repeats final first second) (hws : Write.Repeatable ids (w :: rest))
    (hids : ∀ k ∈ ids, first.hasNode k = true) (hrun : (w.run now).run first = .ok () first')
    (hgrows : Grows first' final) :
    ∃ second', (w.run now').run second = .ok () second' ∧ Repeats final first' second' := by
  cases w with
  | node id d =>
    obtain ⟨c, rfl⟩ := Write.run_node_ok hrun
    exact h.node hws.1 hws.2.1 hgrows
  | newNode id d =>
    rcases Write.run_newNode_ok hrun with ⟨hid, rfl⟩ | ⟨hid, c, rfl⟩
    · exact ⟨second, by rw [Write.run_newNode, if_pos (h.hasNode (hgrows.hasNode hid))], h⟩
    · exact ⟨second, h.newNode hid hgrows⟩
  | link source target kind properties =>
    obtain ⟨hs, ht, rfl, -⟩ := hws
    cases (Write.run_link_of_hasNode (hids _ hs) (hids _ ht)).symm.trans hrun
    exact h.link (hids _ hs) (hids _ ht) hgrows
  | stop e => cases hrun

theorem runAll {ids : List Scalar} {ws : List Write} (h : Repeats final first second)
    (hws : Write.Repeatable ids ws) (hids : ∀ k ∈ ids, first.hasNode k = true)
    (hrun : (Write.runAll now ws).run first = .ok () final) :
    ∃ second', (Write.runAll now' ws).run second = .ok () second' ∧ Repeats final final second' := by
  induction ws generalizing first second ids with
  | nil =>
    cases hrun
    exact ⟨second, rfl, h⟩
  | cons w rest ih =>
    obtain ⟨first', hw, hrun⟩ := Write.runAll_cons_ok hrun
    obtain ⟨-, ids', hrest, hids'⟩ := hws.run_cons hids hw
    obtain ⟨second₁, hw', h₁⟩ := h.run_cons hws hids hw (hrest.grows hids' hrun)
    obtain ⟨second', hrun', h'⟩ := ih h₁ hrest hids' hrun
    refine ⟨second', ?_, h'⟩
    rw [Write.runAll_cons, hw']
    exact hrun'

/-- When the first run has come to its end as well, the second one has changed nothing but times. -/
theorem untimed_eq (h : Repeats final final second) : second.untimed = final.untimed := by
  have hnodes : second.nodes.mapValues Node.untimed = final.nodes.mapValues Node.untimed := by
    refine Table.mapValues_eq_of_get? h.node_keys fun k n hn => ?_
    obtain ⟨m, hm, hrevisits⟩ := h.nodes k n hn
    have hsame : m.draft = n.draft := by
      rcases hrevisits.draft with hdraft | ⟨p, hp, -, hdraft⟩
      · exact hdraft
      · cases hn.symm.trans hp
        exact hdraft
    exact ⟨m, hm, Node.untimed_eq hrevisits.same hrevisits.connections hrevisits.created hsame⟩
  have hedges : second.edges.mapValues Edge.untimed = final.edges.mapValues Edge.untimed := by
    refine Table.mapValues_eq_of_get? h.edge_keys fun k e he => ?_
    obtain ⟨e', he', hsame⟩ := h.edges k e he
    refine ⟨e', he', ?_⟩
    rcases hsame with hsame | ⟨e₁, he₁, hsame⟩
    · exact hsame
    · cases he.symm.trans he₁
      exact hsame
  rw [untimed, untimed, hnodes, hedges, h.concepts]

end Repeats

end Graph

theorem Write.runAll_again {now : String} {g g' : Graph} {ws : List Write} (hws : Repeatable [] ws)
    (hrun : (runAll now ws).run g = .ok () g') (now' : String) :
    ∃ g'', (runAll now' ws).run g' = .ok () g'' ∧ g''.untimed = g'.untimed := by
  obtain ⟨g'', hrun', h⟩ := (Graph.Repeats.start g' g).runAll hws
    (fun k hk => absurd hk List.not_mem_nil) hrun
  exact ⟨g'', hrun', h.untimed_eq⟩

end CodeAtlas
