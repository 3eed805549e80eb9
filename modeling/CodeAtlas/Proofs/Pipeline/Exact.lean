import CodeAtlas.Proofs.Graph.ConceptLookup
import CodeAtlas.Proofs.Pipeline.Rediscovery

/-! Graphs that only ingestion and discovery have written are what their export says. The id of an edge gives
its ends away, so an edge that is stored again has the ends it had, and nodes list what touches them; and
what stands under an id keeps its kind, so the index loses no concept. -/

namespace CodeAtlas

namespace Graph.Exact

variable {g : Graph} {now : String} {id : Scalar} {d : NodeDraft} {e : Edge}

theorem empty : Graph.empty.Exact := fun _ _ h => nomatch h

/-- A node that is written lists what it listed before; a new one is touched by nothing yet. -/
theorem withNode (h : g.Exact) (hl : g.Linked) (c : Table Scalar) : (g.withNode now id d c).Exact := by
  intro k n hn x
  rw [get?_nodes_withNode] at hn
  split at hn
  · cases hn
    have hid : (g.written now id d).id.canon = id.canon := canon_written_id hl.nodes_keyed
    rw [contains_written]
    constructor
    · rintro ⟨old, hold, hx⟩
      obtain ⟨e, he, htouch⟩ := (h id old hold x).1 hx
      have hkey := (hl.nodes_keyed id old hold).trans hid.symm
      exact ⟨e, he, (Edge.touches_congr hkey).1 htouch⟩
    · rintro ⟨e, he, htouch⟩
      obtain ⟨old, hold, -⟩ := hl.listed x e he id ((Edge.touches_congr hid).1 htouch)
      have hkey := (hl.nodes_keyed id old hold).trans hid.symm
      exact ⟨old, hold, (h id old hold x).2 ⟨e, he, (Edge.touches_congr hkey).2 htouch⟩⟩
  · exact h k n hn x

/-- Storing an edge keeps the connections exact if the edge that it replaces touches the same nodes. -/
theorem putEdge (h : g.Exact) (hkeyed : g.NodesKeyed)
    (hsame : ∀ old, g.edges.get? e.id = some old → ∀ j, old.Touches j ↔ e.Touches j) :
    (g.putEdge e).Exact := by
  intro k n hn x
  rw [get?_nodes_putEdge] at hn
  obtain ⟨m, hm, rfl⟩ := Option.map_eq_some_iff.1 hn
  have hkey : m.id.canon = k.canon := hkeyed k m hm
  rw [Node.contains_meet, get?_edges_putEdge, Node.meet_id, h k m hm x]
  by_cases hx : e.id.canon = x.canon
  · rw [if_pos hx, ← Table.get?_congr hx]
    constructor
    · rintro (⟨old, hold, htouch⟩ | ⟨-, htouch⟩)
      · exact ⟨e, rfl, (hsame old hold m.id).1 htouch⟩
      · exact ⟨e, rfl, (Edge.touches_congr hkey).2 htouch⟩
    · rintro ⟨e', he', htouch⟩
      cases he'
      exact Or.inr ⟨hx, (Edge.touches_congr hkey).1 htouch⟩
  · rw [if_neg hx]
    simp [hx]

end Graph.Exact

/-- A graph of the pipeline: it fits the schema, and its connections are what its edges say. -/
structure Wrought (texts : List String) (g : Graph) : Prop where
  schema : Schematic texts g
  linked : g.Linked
  exact : g.Exact

namespace Wrought

variable {texts : List String} {g : Graph} {now : String}

theorem empty (texts : List String) : Wrought texts .empty :=
  ⟨.empty texts, Graph.linked_empty, .empty⟩

/-- A write that fits leaves a graph of the pipeline behind. -/
theorem run (hids : NoCollision texts) (h : Wrought texts g) {w : Write} (hw : w.Fits texts) :
    Wrought texts ((w.run now).after g) := by
  have hschema : Schematic texts ((w.run now).after g) := h.schema.run hw
  suffices hlinked : ((w.run now).after g).Linked ∧ ((w.run now).after g).Exact from
    ⟨hschema, hlinked.1, hlinked.2⟩
  rcases Write.after_cases now w g with
    hsame | ⟨id, d, hafter, -⟩ | ⟨source, target, kind, properties, e, -, hrel, hafter⟩
  · rw [hsame]
    exact ⟨h.linked, h.exact⟩
  · rw [hafter]
    rcases Graph.after_writeNode g now id d with hsame | ⟨c, hwritten, -⟩
    · rw [hsame]
      exact ⟨h.linked, h.exact⟩
    · rw [hwritten]
      exact ⟨h.linked.withNode c, h.exact.withNode h.linked c⟩
  · rw [hafter] at hschema ⊢
    obtain ⟨hs, ht, ⟨x, -, rfl⟩, -⟩ := Graph.relate_ok hrel
    refine ⟨h.linked.putEdge hs ht, h.exact.putEdge h.linked.nodes_keyed fun old hold j => ?_⟩
    -- the old edge stands under the id of the new one, so it relates the same nodes
    have hfits := hschema.edges _ _ (Graph.get?_edges_putEdge.trans (if_pos rfl))
    obtain ⟨hsource, htarget, -⟩ := (h.schema.edges _ _ hold).eq_of_id hids hfits
      (h.schema.keys _ _ hold).symm
    rw [Edge.Touches, Edge.Touches, hsource, htarget]

theorem after (hids : NoCollision texts) (h : Wrought texts g) {c : Call} (hc : c.isPipeline = true)
    (htexts : ∀ t ∈ c.hashedTexts g, t ∈ texts) : Wrought texts (c.after g) := by
  rw [Call.after_eq h.linked.nodes_keyed (Call.replaces_of_isPipeline hc)]
  have hfits := Call.reached_fits hc h.schema h.linked.nodes_keyed htexts
  exact (Write.steps_reached (fun w g hw hg => hg.run hids hw) hfits h).2

theorem foldl_after (hids : NoCollision texts) (h : Wrought texts g) {calls : List Call}
    (hcalls : ∀ c ∈ calls, c.isPipeline = true) (htexts : ∀ t ∈ Graph.hashedFrom g calls, t ∈ texts) :
    Wrought texts (calls.foldl Call.after g) := by
  induction calls generalizing g with
  | nil => exact h
  | cons c rest ih =>
    have hfirst := h.after hids (hcalls c List.mem_cons_self) fun t ht =>
      htexts t (List.mem_append_left _ ht)
    exact ih hfirst (fun c hc => hcalls c (List.mem_cons_of_mem _ hc)) fun t ht =>
      htexts t (List.mem_append_right _ ht)

end Wrought

theorem Call.hasTexts_of_isPipeline {c : Call} (hc : c.isPipeline = true) :
    c.hasTextIds = true ∧ c.hasTextNames = true := by
  cases c with
  | ingest now records => exact ⟨rfl, hc⟩
  | discover now threshold => exact ⟨rfl, rfl⟩
  | addNode now id data => cases hc
  | addRelationship now source target kind properties => cases hc
  | importExport now data => cases hc

namespace Graph

variable {calls : List Call}

theorem wrought_ofCalls (hcalls : ∀ c ∈ calls, c.isPipeline = true)
    (hids : NoCollision (hashedTexts calls)) : Wrought (hashedTexts calls) (ofCalls calls) :=
  (Wrought.empty _).foldl_after hids hcalls fun _ ht => ht

theorem textIds_ofPipeline (hcalls : ∀ c ∈ calls, c.isPipeline = true) : (ofCalls calls).TextIds := by
  rw [← History.graph_ofCalls]
  exact (recorded_ofCalls fun c hc => (Call.hasTexts_of_isPipeline (hcalls c hc)).1).texts

/-- What is a concept stays one, so no name is taken out of the index. -/
theorem not_strands_ofPipeline (hcalls : ∀ c ∈ calls, c.isPipeline = true)
    (hids : NoCollision (hashedTexts calls)) : ∀ s ∈ steps calls, ¬ s.Strands := by
  intro s hs
  obtain ⟨hbefore, hafter⟩ := (schematic_ofCalls hcalls fun _ ht => ht).1 s hs
  rintro ⟨k, n, n', name, hn, hkind, -, hn', hkind', -⟩
  exact hkind' ((hafter.kind_eq hids (hbefore.nodes k n hn) hn').trans hkind)

/-- A graph of the pipeline lists what touches its nodes and indexes its concepts, so it can be written down
and read back. -/
theorem listed_ofPipeline (hcalls : ∀ c ∈ calls, c.isPipeline = true)
    (hids : NoCollision (hashedTexts calls)) :
    (ofCalls calls).ListsTouchingEdges ∧ (ofCalls calls).IndexesConcepts := by
  have hwrought := wrought_ofCalls hcalls hids
  have htexts := textIds_ofPipeline hcalls
  refine ⟨fun n hn x => hwrought.exact.mem_connections_iff hwrought.linked htexts hn, ?_⟩
  intro n hn hkind
  obtain ⟨k, hk⟩ := Table.mem_values_iff.1 hn
  obtain ⟨s, hs⟩ := ((scannable_ofCalls hcalls).nodes k n hk).named
  have hcomplete := indexComplete_ofCalls (not_strands_ofPipeline hcalls hids)
  refine ⟨s, hs, Table.contains_text_iff.1 (hcomplete k n hk hkind _ ?_)⟩
  rw [hs]
  rfl

end Graph

end CodeAtlas
