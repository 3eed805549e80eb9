import CodeAtlas.Proofs.Discovery.Detect
import CodeAtlas.Proofs.Graph.Steps
import CodeAtlas.Proofs.Ingestion.Reflects

/-! The schema of graphs that only ingestion and discovery have written: parts of files, files and what they
import, and nodes that implement concepts. An id is made of a text that gives the kind of the node away,
so as long as no two texts have one id, what stands under an id is always of one kind. -/

namespace CodeAtlas

/-- The kinds of nodes between which ingestion and discovery make relationships. -/
inductive RelationKind.Joins : RelationKind → NodeKind → NodeKind → Prop where
  | functionOfFile : Joins .partOf .function .file
  | classOfFile : Joins .partOf .classDecl .file
  | imported : Joins .dependsOn .file .dependency
  | implemented {kind : NodeKind} (h : kind ≠ .concept) : Joins .implements kind .concept

theorem RelationKind.Joins.ne {kind : RelationKind} {a b : NodeKind} (h : kind.Joins a b) : a ≠ b := by
  cases h with
  | implemented h => exact h
  | _ => exact NodeKind.noConfusion

def Names (texts : List String) (id : Scalar) (kind : NodeKind) : Prop :=
  ∃ identifier, nodeText kind.name identifier ∈ texts ∧ id = .text (nodeId kind.name identifier)

/-- Whether the id of an edge is made of one of these texts, and its ends are of kinds that it may join. -/
structure Edge.Fits (texts : List String) (e : Edge) : Prop where
  text : edgeText e.source.shown e.target.shown e.kind.name ∈ texts
  id : e.id = .text (edgeId e.source.shown e.target.shown e.kind.name)
  joins : ∃ a b, Names texts e.source a ∧ Names texts e.target b ∧ e.kind.Joins a b

/-- Whether a write gives nodes the kinds of their ids and joins only what may be joined. -/
def Write.Fits (texts : List String) : Write → Prop
  | node id d => Names texts id d.kind
  | newNode id d => Names texts id d.kind
  | link source target kind _ => edgeText source.shown target.shown kind.name ∈ texts ∧
      ∃ a b, Names texts source a ∧ Names texts target b ∧ kind.Joins a b
  | stop _ => True

/-- A graph in which all nodes have the kinds of their ids, and all edges join what they may join. -/
structure Schematic (texts : List String) (g : Graph) : Prop where
  nodes : ∀ k n, g.nodes.get? k = some n → Names texts k n.kind
  keys : ∀ k e, g.edges.get? k = some e → k = e.id
  edges : ∀ k e, g.edges.get? k = some e → e.Fits texts
  ends : ∀ k e, g.edges.get? k = some e → g.hasNode e.source = true ∧ g.hasNode e.target = true

section Schematic

variable {texts : List String} {g : Graph} {now : String} {id : Scalar} {d : NodeDraft} {e : Edge}
  {a b : NodeKind}

theorem Names.isText (h : Names texts id a) : id.IsText := by
  obtain ⟨identifier, -, rfl⟩ := h
  exact ⟨_, rfl⟩

theorem Names.kind_eq (hids : NoCollision texts) (h : Names texts id a) (h' : Names texts id b) : a = b := by
  obtain ⟨i, hi, rfl⟩ := h
  obtain ⟨j, hj, hid⟩ := h'
  exact (nodeText_injective (hids _ hi _ hj (Scalar.text.inj hid))).1

theorem Names.length_shown (h : Names texts id a) : id.shown.toList.length = idLength := by
  obtain ⟨identifier, -, rfl⟩ := h
  exact length_contentId _

/-- The id of an edge gives away what it relates. -/
theorem Edge.Fits.eq_of_id {e' : Edge} (hids : NoCollision texts) (h : e.Fits texts) (h' : e'.Fits texts)
    (hid : e.id = e'.id) : e.source = e'.source ∧ e.target = e'.target ∧ e.kind = e'.kind := by
  obtain ⟨_, _, hs, ht, -⟩ := h.joins
  obtain ⟨_, _, hs', ht', -⟩ := h'.joins
  rw [h.id, h'.id] at hid
  have htext := hids _ h.text _ h'.text (Scalar.text.inj hid)
  obtain ⟨hsource, htarget, hkind⟩ := edgeText_injective
    (hs.length_shown.trans hs'.length_shown.symm) (ht.length_shown.trans ht'.length_shown.symm) htext
  obtain ⟨s, hs⟩ := hs.isText
  obtain ⟨s', hs'⟩ := hs'.isText
  obtain ⟨t, ht⟩ := ht.isText
  obtain ⟨t', ht'⟩ := ht'.isText
  rw [hs, hs'] at hsource ⊢
  rw [ht, ht'] at htarget ⊢
  exact ⟨congrArg Scalar.text hsource, congrArg Scalar.text htarget, hkind⟩

namespace Schematic

theorem empty (texts : List String) : Schematic texts .empty where
  nodes _ _ h := nomatch h
  keys _ _ h := nomatch h
  edges _ _ h := nomatch h
  ends _ _ h := nomatch h

theorem withNode (h : Schematic texts g) (hid : Names texts id d.kind) (c : Table Scalar) :
    Schematic texts (g.withNode now id d c) where
  nodes k n hn := by
    rw [Graph.withNode, Table.get?_insert] at hn
    split at hn
    · rename_i hk
      cases hn
      rw [Graph.written_kind, Scalar.isText_of_canon_eq hk.symm hid.isText]
      exact hid
    · exact h.nodes k n hn
  keys := h.keys
  edges := h.edges
  ends k e he := (h.ends k e he).imp Table.contains_insert_of_contains Table.contains_insert_of_contains

theorem putEdge (h : Schematic texts g) (he : e.Fits texts) (hs : g.hasNode e.source = true)
    (ht : g.hasNode e.target = true) : Schematic texts (g.putEdge e) where
  nodes k n hn := by
    rw [Graph.get?_nodes_putEdge] at hn
    obtain ⟨m, hm, rfl⟩ := Option.map_eq_some_iff.1 hn
    rw [Node.meet_kind]
    exact h.nodes k m hm
  keys k e' he' := by
    rw [Graph.get?_edges_putEdge] at he'
    split at he'
    · rename_i hk
      cases he'
      exact Scalar.isText_of_canon_eq hk.symm ⟨_, he.id⟩
    · exact h.keys k e' he'
  edges k e' he' := by
    rw [Graph.get?_edges_putEdge] at he'
    split at he'
    · cases he'
      exact he
    · exact h.edges k e' he'
  ends k e' he' := by
    rw [Graph.hasNode_putEdge, Graph.hasNode_putEdge]
    rw [Graph.get?_edges_putEdge] at he'
    split at he'
    · cases he'
      exact ⟨hs, ht⟩
    · exact h.ends k e' he'

/-- A write that fits keeps the schema. -/
theorem run (h : Schematic texts g) {w : Write} (hw : w.Fits texts) :
    Schematic texts ((w.run now).after g) := by
  have hwrite : ∀ id d, Names texts id d.kind → Schematic texts ((Graph.writeNode now id d).after g) := by
    intro id d hid
    rcases Graph.after_writeNode g now id d with hsame | ⟨c, hwritten, -⟩
    · rwa [hsame]
    · rw [hwritten]
      exact h.withNode hid c
  rcases Write.after_cases now w g with
    hsame | ⟨id, d, hafter, rfl | rfl⟩ | ⟨source, target, kind, properties, e, rfl, hrel, hafter⟩
  · rwa [hsame]
  · rw [hafter]
    exact hwrite id d hw
  · rw [hafter]
    exact hwrite id d hw
  · rw [hafter]
    obtain ⟨hs, ht, ⟨x, -, rfl⟩, -⟩ := Graph.relate_ok hrel
    exact h.putEdge ⟨hw.1, rfl, hw.2⟩ hs ht

theorem kind_eq (h : Schematic texts g) (hids : NoCollision texts) {n : Node} (hid : Names texts id a)
    (hn : g.nodes.get? id = some n) : n.kind = a :=
  (h.nodes id n hn).kind_eq hids hid

/-- The ends of an edge are different nodes of kinds that it may join. -/
theorem exists_ends (h : Schematic texts g) (hids : NoCollision texts) {k : Scalar}
    (he : g.edges.get? k = some e) :
    ∃ n m, g.nodes.get? e.source = some n ∧ g.nodes.get? e.target = some m ∧ e.kind.Joins n.kind m.kind ∧
      e.source.canon ≠ e.target.canon := by
  obtain ⟨hs, ht⟩ := h.ends k e he
  obtain ⟨n, hn⟩ := Graph.hasNode_iff.1 hs
  obtain ⟨m, hm⟩ := Graph.hasNode_iff.1 ht
  obtain ⟨a, b, ha, hb, hjoins⟩ := (h.edges k e he).joins
  rw [← h.kind_eq hids ha hn, ← h.kind_eq hids hb hm] at hjoins
  refine ⟨n, m, hn, hm, hjoins, fun hsame => hjoins.ne ?_⟩
  rw [Table.get?_congr hsame, hm] at hn
  cases hn
  rfl

end Schematic

end Schematic

@[simp] theorem Scalar.shown_text (s : String) : (Scalar.text s).shown = s := rfl

namespace Ingestion

variable {texts : List String} {records : List Value} {r : Record}

/-- The values up to the first that cannot be read. -/
def readable : List Value → List Value
  | [] => []
  | v :: rest =>
    match Record.read? v with
    | .ok _ => v :: readable rest
    | .error _ => []

/-- Functions and classes are parts of files, and files depend on what they import. -/
theorem joins_of_mem_recordStatements {f : Fact} (h : .fact f ∈ recordStatements r) :
    f.kind.Joins f.source.kind f.target.kind := by
  have hfacts : ∀ {entity : String → Entity} {path : String} {draft : String → Value → NodeDraft}
      {facts : List Value}, .fact f ∈ facts.flatMap (factStatements entity path draft) →
      ∃ name, f = ⟨entity name, .file path, .partOf⟩ := by
    intro entity path draft facts hf
    obtain ⟨fact, -, hf⟩ := List.mem_flatMap.1 hf
    unfold factStatements at hf
    split at hf
    · exact absurd hf List.not_mem_nil
    · rename_i name _
      exact ⟨name, by simpa using hf⟩
  unfold recordStatements at h
  rcases List.mem_cons.1 h with h | h
  · cases h
  · rcases List.mem_append.1 h with h | h
    · rcases List.mem_append.1 h with h | h
      · obtain ⟨name, rfl⟩ := hfacts h
        exact .functionOfFile
      · obtain ⟨name, rfl⟩ := hfacts h
        exact .classOfFile
    · obtain ⟨entry, -, h⟩ := List.mem_flatMap.1 h
      unfold importStatements at h
      split at h
      · exact absurd h List.not_mem_nil
      · rename_i importPath _
        have hf : f = ⟨.file r.path.shown, .dependency importPath, .dependsOn⟩ := by simpa using h
        rw [hf]
        exact .imported

theorem names_of_text {x : Entity} (h : x.text ∈ texts) : Names texts (.text x.id) x.kind :=
  ⟨x.identifier, h, rfl⟩

/-- What a record says fits, if the texts of all that it says are known. -/
theorem fits_of_mem_recordStatements (h : ∀ s ∈ recordStatements r, s.text ∈ texts) :
    ∀ s ∈ recordStatements r, s.write.Fits texts := by
  intro s hs
  cases s with
  | mention x p =>
    have hnames : Names texts (.text x.id) (x.draft p).kind := names_of_text (h (.mention x p) hs)
    rw [Statement.write]
    cases x.keepsFirst <;> exact hnames
  | fact f =>
    have hgrounded : Grounded [] (recordStatements r) := grounded_recordStatements
    obtain ⟨hsource, htarget⟩ := hgrounded.mentioned hs
    obtain ⟨p, hp⟩ := hsource.resolve_left List.not_mem_nil
    obtain ⟨q, hq⟩ := htarget.resolve_left List.not_mem_nil
    have htext : f.text ∈ texts := h (.fact f) hs
    rw [Fact.text] at htext
    rw [Statement.write, Write.Fits, Scalar.shown_text, Scalar.shown_text]
    exact ⟨htext, _, _, names_of_text (h (.mention _ p) hp), names_of_text (h (.mention _ q) hq),
      joins_of_mem_recordStatements hs⟩

/-- All writes of an ingestion that are reached fit. -/
theorem reached_fits (hpaths : ∀ v ∈ records, ∀ r, Record.read? v = .ok (some r) → ∃ path, r.path = .text path)
    (h : ∀ t ∈ hashedTexts (readable records), t ∈ texts) :
    Write.Reached (Write.Fits texts) (writes records) := by
  induction records with
  | nil => trivial
  | cons v rest ih =>
    have hrest := ih fun w hw => hpaths w (List.mem_cons_of_mem _ hw)
    rw [writes, List.flatMap_cons, valueWrites]
    rw [readable] at h
    cases hv : Record.read? v with
    | error e => trivial
    | ok o =>
      simp only [hv] at h
      have htexts : hashedTexts (v :: readable rest) =
          (o.toList.flatMap recordStatements).map Statement.text ++ hashedTexts (readable rest) := by
        unfold hashedTexts statements readRecords
        rw [List.filterMap_cons, record?, hv]
        cases o <;> simp
      rw [htexts] at h
      have hwrites := hrest fun t ht => h t (List.mem_append_right _ ht)
      cases o with
      | none => exact hwrites
      | some r =>
        obtain ⟨path, hpath⟩ := hpaths v List.mem_cons_self r hv
        refine Write.Reached.append (Write.Reached.of_forall fun w hw => ?_) hwrites
        simp only [recordWrites_eq hpath] at hw
        obtain ⟨s, hs, rfl⟩ := List.mem_map.1 hw
        refine fits_of_mem_recordStatements (fun s hs => ?_) s hs
        refine h _ (List.mem_append_left _ (List.mem_map_of_mem ?_))
        simpa using hs

end Ingestion

def Pattern.hashedTexts (p : Pattern) : List String :=
  nodeText NodeKind.concept.name p.name ::
    p.related.map fun r =>
      edgeText r.shown (nodeId NodeKind.concept.name p.name) RelationKind.implements.name

namespace Discovery

variable {texts : List String} {g : Graph} {threshold : Value} {found : Found} {r : Scalar}

def hashedTexts (threshold : Value) (g : Graph) : List String :=
  match detect threshold g with
  | .ok found => found.all.flatMap Pattern.hashedTexts
  | .error _ => []

/-- What may be found is no concept. -/
theorem names_of_shows (h : Schematic texts g) (hkeyed : g.NodesKeyed) (hr : Shows g r) :
    ∃ kind, Names texts r kind ∧ kind ≠ .concept := by
  rcases hr with ⟨n, hn, rfl⟩ | ⟨use, huse, rfl⟩
  · obtain ⟨hvalue, hkind⟩ := List.mem_filter.1 hn
    obtain ⟨k, hk⟩ := Table.mem_values_iff.1 hvalue
    have hnames := h.nodes k n hk
    rw [Scalar.isText_of_canon_eq (hkeyed k n hk) hnames.isText]
    exact ⟨n.kind, hnames, by simpa using hkind⟩
  · obtain ⟨e, he, hsome⟩ := List.mem_filterMap.1 huse
    split at hsome
    · rename_i hkind
      cases hsome
      obtain ⟨k, hk⟩ := Table.mem_values_iff.1 he
      obtain ⟨a, b, ha, -, hjoins⟩ := (h.edges k e hk).joins
      rw [hkind] at hjoins
      cases hjoins
      exact ⟨_, ha, NodeKind.noConfusion⟩
    · cases hsome

theorem fits_of_mem_patternWrites {p : Pattern} (h : Schematic texts g) (hkeyed : g.NodesKeyed)
    (hshown : ∀ r ∈ p.related, Shows g r) (htexts : ∀ t ∈ p.hashedTexts, t ∈ texts) :
    ∀ w ∈ p.writes, w.Fits texts := by
  have hconcept : Names texts (Pattern.conceptId (.text p.name)) .concept :=
    ⟨p.name, htexts _ List.mem_cons_self, rfl⟩
  intro w hw
  rcases List.mem_cons.1 hw with rfl | hw
  · exact hconcept
  · obtain ⟨r, hr, rfl⟩ := List.mem_map.1 hw
    obtain ⟨kind, hnames, hne⟩ := names_of_shows h hkeyed (hshown r hr)
    exact ⟨htexts _ (List.mem_cons_of_mem _ (List.mem_map_of_mem hr)), kind, .concept, hnames, hconcept,
      .implemented hne⟩

theorem reached_fits (h : Schematic texts g) (hkeyed : g.NodesKeyed)
    (htexts : ∀ t ∈ hashedTexts threshold g, t ∈ texts) :
    Write.Reached (Write.Fits texts) (writes threshold g) := by
  unfold writes
  unfold hashedTexts at htexts
  cases hfound : detect threshold g with
  | error e => trivial
  | ok found =>
    simp only [hfound] at htexts
    refine Write.Reached.of_forall fun w hw => ?_
    obtain ⟨p, hp, hw⟩ := List.mem_flatMap.1 hw
    exact fits_of_mem_patternWrites h hkeyed (shown_of_detect hfound p hp)
      (fun t ht => htexts t (List.mem_flatMap.2 ⟨p, hp, ht⟩)) w hw

end Discovery

end CodeAtlas
