import CodeAtlas.Proofs.Graph.Change

/-! The connections of a graph. A graph is linked if every edge is listed at both of its ends, everything
listed is stored, and nodes and edges stand under their own ids; it is exact if, besides, a node lists
no edge that does not touch it. Both elementary changes keep a graph linked. Exactness can be lost: an
edge written over by one with other ends stays listed where it was. -/

namespace CodeAtlas

def Edge.Touches (e : Edge) (id : Scalar) : Prop :=
  e.source.canon = id.canon ∨ e.target.canon = id.canon

theorem Edge.touches_congr {e : Edge} {a b : Scalar} (h : a.canon = b.canon) :
    e.Touches a ↔ e.Touches b := by
  rw [Touches, Touches, h]

theorem Value.isFalsy_text {s : String} (h : s ≠ "") : (Value.text s).isFalsy = false := by
  unfold Value.isFalsy
  split <;> simp_all

def Scalar.IsText (k : Scalar) : Prop := ∃ s, k = .text s

theorem Scalar.isText_of_canon_eq {a b : Scalar} (h : a.canon = b.canon) (hb : b.IsText) : a = b := by
  obtain ⟨s, rfl⟩ := hb
  exact Scalar.canon_eq_text_iff.1 h

def Node.meet (n : Node) (e : Edge) (k : Scalar) : Node :=
  let n := if e.source.canon = k.canon then n.connect e.id else n
  if e.target.canon = k.canon then n.connect e.id else n

namespace Node

variable {n : Node} {e : Edge} {k x : Scalar}

theorem contains_connect :
    (n.connect x).connections.contains k = (decide (x.canon = k.canon) || n.connections.contains k) :=
  KeySet.contains_add

theorem contains_meet :
    (n.meet e k).connections.contains x = true ↔
      n.connections.contains x = true ∨ (e.id.canon = x.canon ∧ e.Touches k) := by
  unfold meet Edge.Touches
  by_cases hs : e.source.canon = k.canon <;> by_cases ht : e.target.canon = k.canon <;>
    simp [hs, ht, contains_connect, or_comm]

theorem meet_eq : n.meet e k = { n with connections := (n.meet e k).connections } := by
  unfold meet connect
  split <;> split <;> rfl

@[simp] theorem meet_id : (n.meet e k).id = n.id := by rw [meet_eq]

@[simp] theorem meet_kind : (n.meet e k).kind = n.kind := by rw [meet_eq]

@[simp] theorem meet_name : (n.meet e k).name = n.name := by rw [meet_eq]

@[simp] theorem meet_properties : (n.meet e k).properties = n.properties := by rw [meet_eq]

@[simp] theorem meet_metadata : (n.meet e k).metadata = n.metadata := by rw [meet_eq]

end Node

namespace Graph

/-- Every node stands under its own id. -/
def NodesKeyed (g : Graph) : Prop := ∀ k n, g.nodes.get? k = some n → n.id.canon = k.canon

/-- Every edge is listed at its ends, everything listed is stored, and all stand under their own ids. -/
structure Linked (g : Graph) : Prop where
  nodes_keyed : g.NodesKeyed
  edges_keyed : ∀ k e, g.edges.get? k = some e → e.id.canon = k.canon
  listed : ∀ k e, g.edges.get? k = some e → ∀ j, e.Touches j →
    ∃ n, g.nodes.get? j = some n ∧ n.connections.contains e.id = true
  stored : ∀ k n, g.nodes.get? k = some n → ∀ x, n.connections.contains x = true →
    g.hasEdge x = true

/-- Every node lists exactly the edges that touch it. -/
def Exact (g : Graph) : Prop :=
  ∀ k n, g.nodes.get? k = some n → ∀ x,
    n.connections.contains x = true ↔ ∃ e, g.edges.get? x = some e ∧ e.Touches n.id

variable {g : Graph} {now : String} {id k : Scalar} {d : NodeDraft} {e : Edge}

theorem linked_empty : empty.Linked where
  nodes_keyed _ _ h := nomatch h
  edges_keyed _ _ h := nomatch h
  listed _ _ h := nomatch h
  stored _ _ h := nomatch h

theorem contains_written {x : Scalar} :
    (g.written now id d).connections.contains x = true ↔
      ∃ old, g.nodes.get? id = some old ∧ old.connections.contains x = true := by
  cases h : g.nodes.get? id with
  | none =>
    rw [written_of_none h]
    exact ⟨fun hx => (nomatch hx), fun ⟨_, h, _⟩ => (nomatch h)⟩
  | some old =>
    rw [written_of_some h]
    exact ⟨fun hx => ⟨old, rfl, hx⟩, fun ⟨_, h, hx⟩ => by cases h; exact hx⟩

theorem canon_written_id (h : g.NodesKeyed) : (g.written now id d).id.canon = id.canon := by
  cases hn : g.nodes.get? id with
  | none =>
    rw [written_of_none hn]
    rfl
  | some old =>
    rw [written_of_some hn]
    exact h id old hn

theorem NodesKeyed.map_ids (h : g.NodesKeyed) :
    g.nodes.values.map (·.id.canon) = g.nodes.keys.map Scalar.canon :=
  Table.map_canon_of_keyed h

theorem NodesKeyed.nodup_ids (h : g.NodesKeyed) : (g.nodes.values.map (·.id.canon)).Nodup :=
  h.map_ids ▸ Table.nodup_keys

theorem NodesKeyed.get?_id (h : g.NodesKeyed) {n : Node} (hn : n ∈ g.nodes.values) :
    g.nodes.get? n.id = some n := by
  obtain ⟨k, hk⟩ := Table.mem_values_iff.1 hn
  rw [Table.get?_congr (h k n hk), hk]

theorem NodesKeyed.withNode (h : g.NodesKeyed) (c : Table Scalar) :
    (g.withNode now id d c).NodesKeyed := by
  intro k n hn
  rw [Graph.withNode, Table.get?_insert] at hn
  split at hn
  · rename_i hk
    cases hn
    exact (canon_written_id h).trans hk
  · exact h k n hn

theorem Linked.withNode (h : g.Linked) (c : Table Scalar) : (g.withNode now id d c).Linked where
  nodes_keyed := h.nodes_keyed.withNode c
  edges_keyed := h.edges_keyed
  listed k e he j hj := by
    obtain ⟨n, hn, hx⟩ := h.listed k e he j hj
    rw [Graph.withNode, Table.get?_insert]
    by_cases hk : id.canon = j.canon
    · rw [if_pos hk]
      exact ⟨_, rfl, contains_written.2 ⟨n, (Table.get?_congr hk).trans hn, hx⟩⟩
    · rw [if_neg hk]
      exact ⟨n, hn, hx⟩
  stored k n hn x hx := by
    rw [Graph.withNode, Table.get?_insert] at hn
    split at hn
    · cases hn
      obtain ⟨old, hold, hx⟩ := contains_written.1 hx
      exact h.stored id old hold x hx
    · exact h.stored k n hn x hx

theorem get?_nodes_putEdge : (g.putEdge e).nodes.get? k = (g.nodes.get? k).map (·.meet e k) := by
  rw [putEdge, Table.get?_modify, Table.get?_modify]
  cases g.nodes.get? k with
  | none => simp
  | some n =>
    unfold Node.meet
    by_cases hs : e.source.canon = k.canon <;> by_cases ht : e.target.canon = k.canon <;>
      simp [hs, ht]

theorem keys_nodes_putEdge : (g.putEdge e).nodes.keys = g.nodes.keys := by
  rw [putEdge, Table.keys_modify, Table.keys_modify]

theorem hasNode_putEdge : (g.putEdge e).hasNode k = g.hasNode k := by
  rw [hasNode, hasNode, putEdge, Table.contains_modify, Table.contains_modify]

theorem get?_edges_putEdge :
    (g.putEdge e).edges.get? k = if e.id.canon = k.canon then some e else g.edges.get? k :=
  Table.get?_insert

theorem NodesKeyed.putEdge (h : g.NodesKeyed) : (g.putEdge e).NodesKeyed := by
  intro k n hn
  rw [get?_nodes_putEdge] at hn
  obtain ⟨m, hm, rfl⟩ := Option.map_eq_some_iff.1 hn
  rw [Node.meet_id]
  exact h k m hm

theorem Linked.putEdge (h : g.Linked) (hs : g.hasNode e.source = true)
    (ht : g.hasNode e.target = true) : (g.putEdge e).Linked where
  nodes_keyed := h.nodes_keyed.putEdge
  edges_keyed k e' he := by
    rw [get?_edges_putEdge] at he
    split at he
    · rename_i hk
      cases he
      exact hk
    · exact h.edges_keyed k e' he
  listed k e' he j hj := by
    rw [get?_edges_putEdge] at he
    rw [get?_nodes_putEdge]
    split at he
    · cases he
      have hnode : g.hasNode j = true := by
        rcases hj with hj | hj
        · rwa [hasNode, ← Table.contains_congr hj]
        · rwa [hasNode, ← Table.contains_congr hj]
      obtain ⟨n, hn⟩ := hasNode_iff.1 hnode
      exact ⟨n.meet e j, by rw [hn, Option.map_some], Node.contains_meet.2 (Or.inr ⟨rfl, hj⟩)⟩
    · obtain ⟨n, hn, hx⟩ := h.listed k e' he j hj
      exact ⟨n.meet e j, by rw [hn, Option.map_some], Node.contains_meet.2 (Or.inl hx)⟩
  stored k n hn x hx := by
    rw [get?_nodes_putEdge] at hn
    obtain ⟨m, hm, rfl⟩ := Option.map_eq_some_iff.1 hn
    rw [hasEdge, Table.contains_iff]
    rcases Node.contains_meet.1 hx with hx | ⟨hx, -⟩
    · obtain ⟨e', he'⟩ := Table.contains_iff.1 (h.stored k m hm x hx)
      rw [get?_edges_putEdge]
      split
      · exact ⟨e, rfl⟩
      · exact ⟨e', he'⟩
    · exact ⟨e, by rw [get?_edges_putEdge, if_pos hx]⟩

/-- Whether the names of all nodes have a property. -/
def Names (P : Value → Prop) (g : Graph) : Prop := ∀ k n, g.nodes.get? k = some n → P n.name

section Names

variable {P : Value → Prop}

theorem Names.of_mem_values (h : g.Names P) : ∀ n ∈ g.nodes.values, P n.name := by
  intro n hn
  obtain ⟨k, hk⟩ := Table.mem_values_iff.1 hn
  exact h k n hk

theorem Names.putEdge (h : g.Names P) (e : Edge) : (g.putEdge e).Names P := by
  intro k n hn
  rw [get?_nodes_putEdge] at hn
  obtain ⟨m, hm, rfl⟩ := Option.map_eq_some_iff.1 hn
  rw [Node.meet_name]
  exact h k m hm

theorem Names.foldl_putEdge (h : g.Names P) (edges : List Edge) : (edges.foldl Graph.putEdge g).Names P := by
  induction edges generalizing g with
  | nil => exact h
  | cons e rest ih => exact ih (h.putEdge e)

end Names

/-- All nodes and edges stand under texts. -/
structure TextIds (g : Graph) : Prop where
  nodes : ∀ k ∈ g.nodes.keys, k.IsText
  edges : ∀ k ∈ g.edges.keys, k.IsText

theorem textIds_empty : empty.TextIds where
  nodes _ h := nomatch h
  edges _ h := nomatch h

theorem isText_of_mem_insert {α : Type} {t : Table α} {v : α} (h : ∀ k ∈ t.keys, k.IsText)
    (hid : id.IsText) : ∀ k ∈ (t.insert id v).keys, k.IsText := by
  intro k hk
  rw [Table.keys_insert] at hk
  split at hk
  · exact h k hk
  · rcases List.mem_append.1 hk with hk | hk
    · exact h k hk
    · exact List.mem_singleton.1 hk ▸ hid

theorem TextIds.withNode (h : g.TextIds) (hid : id.IsText) (c : Table Scalar) :
    (g.withNode now id d c).TextIds where
  nodes := isText_of_mem_insert h.nodes hid
  edges := h.edges

theorem TextIds.putEdge (h : g.TextIds) (he : e.id.IsText) : (g.putEdge e).TextIds where
  nodes k hk := h.nodes k (keys_nodes_putEdge ▸ hk)
  edges := isText_of_mem_insert h.edges he

theorem eq_or_contains_of_insert {α : Type} {t : Table α} {key k : Scalar} {v : α} (hkey : key.IsText)
    (hk : (t.insert key v).contains k = true) : k = key ∨ t.contains k = true := by
  rw [Table.contains_insert, Bool.or_eq_true, decide_eq_true_eq] at hk
  exact hk.imp_left fun hc => Scalar.isText_of_canon_eq hc.symm hkey

/-- Under textual keys, whatever is found under a key is found under that very key. -/
theorem isText_of_contains {α : Type} {t : Table α} (h : ∀ k ∈ t.keys, k.IsText)
    (hk : t.contains k = true) : k.IsText ∧ k ∈ t.keys := by
  obtain ⟨k', hk', hc⟩ := Table.contains_iff_mem.1 hk
  have heq := Scalar.isText_of_canon_eq hc.symm (h k' hk')
  exact ⟨heq ▸ h k' hk', heq ▸ hk'⟩

end Graph

end CodeAtlas
