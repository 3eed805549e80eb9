import CodeAtlas.Graph.Snapshot
import CodeAtlas.Proofs.Graph.Failure
import CodeAtlas.Proofs.Graph.Neighbors
import CodeAtlas.Proofs.Value.Contained
import Mathlib.Data.Set.List

/-! The shape of a snapshot: tables of pairs, records that are objects, ids and names that are texts, and numbers
and properties that can be read as such. An import of a document of this shape fails only for causes that
a command reports, and what it gives stands under texts and is named by texts. -/

namespace CodeAtlas

/-- Whether the value of a field passes a test; a field left out has a default. -/
def Value.passesAt (test : Value → Bool) (name : String) (record default : Value) : Bool :=
  match record.field? name with
  | .ok v => test (v.getD default)
  | .error _ => false

theorem Value.exists_of_passesAt {test : Value → Bool} {name : String} {default record : Value}
    (h : record.passesAt test name default = true) :
    ∃ v, record.field? name = .ok v ∧ test (v.getD default) = true := by
  unfold passesAt at h
  split at h
  · rename_i v hv
    exact ⟨v, hv, h⟩
  · cases h

theorem Value.exists_field_of_passesAt {test : Value → Bool} {name : String} {default record : Value}
    (h : record.passesAt test name default = true) (other : String) :
    ∃ v, record.field other = .ok v := by
  obtain ⟨v, hv, -⟩ := exists_of_passesAt h
  cases record with
  | object entries => exact ⟨_, rfl⟩
  | scalar k => cases hv
  | list items => cases hv

theorem Value.field_of_field? {name : String} {record : Value} {v : Option Value}
    (h : record.field? name = .ok v) : record.field name = .ok (v.getD .null) := by
  rw [field, h]
  rfl

namespace Snapshot

def isNumber (v : Value) : Bool := isContained v.toFloat

def isTable (v : Value) : Bool := isContained v.toTable

def isKey (v : Value) : Bool := isContained v.key

def metadataFits (v : Value) : Bool := (v.orElse (.object [])).passesAt isNumber "weight" (.float 1.0)

def nodeFits (id record : Value) : Bool :=
  id.isText && record.passesAt Value.isText "name" (.text "") &&
    record.passesAt isTable "properties" .null && record.passesAt metadataFits "metadata" .null

def edgeFits (id record : Value) : Bool :=
  id.isText && record.passesAt Value.isText "from" .null && record.passesAt Value.isText "to" .null &&
    record.passesAt isNumber "strength" (.float 1.0) && record.passesAt isTable "properties" .null

/-- Whether a table is there, or left out, and its pairs pass a test. -/
def tableFits (entryFits : Value → Value → Bool) (name : String) (data : Value) : Bool :=
  match exportTable name data with
  | .error _ => false
  | .ok items =>
    items.all fun item =>
      match item.pair with
      | .ok (key, v) => entryFits key v
      | .error e => e.isReported

/-- Whether a document has the shape of a snapshot. -/
def fits (data : Value) : Bool :=
  tableFits nodeFits "nodes" data && tableFits edgeFits "edges" data &&
    tableFits (fun name id => isKey name && isKey id) "conceptIndex" data

theorem exists_items_of_tableFits {entryFits : Value → Value → Bool} {name : String} {data : Value}
    (h : tableFits entryFits name data = true) :
    ∃ items, exportTable name data = .ok items ∧ ∀ item ∈ items, isContained item.pair = true ∧
      ∀ key v, item.pair = .ok (key, v) → entryFits key v = true := by
  unfold tableFits at h
  split at h
  · cases h
  · rename_i items hitems
    refine ⟨items, hitems, fun item hitem => ?_⟩
    have hentry := List.all_eq_true.1 h item hitem
    cases hpair : item.pair with
    | error e =>
      rw [hpair] at hentry
      exact ⟨hentry, nofun⟩
    | ok p =>
      rw [hpair] at hentry
      refine ⟨rfl, fun key v hp => ?_⟩
      cases hp
      exact hentry

end Snapshot

theorem isContained_readKind (v : Value) : isContained (NodeKind.read v) = true := by
  unfold NodeKind.read
  split
  · split <;> rfl
  · rfl

theorem isContained_readRelation (v : Value) : isContained (RelationKind.read v) = true := by
  unfold RelationKind.read
  split
  · split <;> rfl
  · rfl

variable {now : String} {id record : Value}

open Snapshot

theorem isContained_readMetadata {v : Value} (h : metadataFits v = true) :
    isContained (Metadata.read now v) = true := by
  obtain ⟨created, hcreated⟩ := Value.exists_field_of_passesAt h "created"
  obtain ⟨lastUpdated, hlastUpdated⟩ := Value.exists_field_of_passesAt h "lastUpdated"
  obtain ⟨older, holder⟩ := Value.exists_field_of_passesAt h "last_updated"
  obtain ⟨weight, hweight, hnumber⟩ := Value.exists_of_passesAt h
  unfold Metadata.read
  refine isContained_bind_ok hcreated <| isContained_bind_ok hlastUpdated <| isContained_bind_ok holder <|
    isContained_bind_ok hweight ?_
  exact isContained_bind hnumber fun _ _ => rfl

theorem isContained_readNode (h : nodeFits id record = true) : isContained (Node.read now id record) = true := by
  simp only [nodeFits, Bool.and_eq_true] at h
  obtain ⟨⟨⟨hid, hname⟩, hproperties⟩, hmetadata⟩ := h
  obtain ⟨s, rfl⟩ := Value.isText_iff.1 hid
  obtain ⟨kind, hkind⟩ := Value.exists_field_of_passesAt hname "type"
  obtain ⟨name, hname, -⟩ := Value.exists_of_passesAt hname
  obtain ⟨properties, hproperties, htable⟩ := Value.exists_of_passesAt hproperties
  obtain ⟨metadata, hmetadata, hfits⟩ := Value.exists_of_passesAt hmetadata
  unfold Node.read
  refine isContained_bind_ok hkind <| isContained_bind (isContained_readKind kind) fun _ _ => ?_
  refine isContained_bind_ok hname <| isContained_bind_ok (Value.field_of_field? hproperties) ?_
  refine isContained_bind htable fun _ _ => isContained_bind_ok (Value.field_of_field? hmetadata) ?_
  exact isContained_bind (isContained_readMetadata hfits) fun _ _ => rfl

theorem isReported_missingFault {ids : List Scalar} (h : ∀ k ∈ ids, k.IsText) :
    (Graph.missingFault ids).isReported = true := by
  have hrange : ids ∈ Set.range (List.map Scalar.text) := by
    rw [Set.range_list_map]
    intro k hk
    obtain ⟨s, rfl⟩ := h k hk
    exact ⟨s, rfl⟩
  obtain ⟨names, rfl⟩ := hrange
  rw [Graph.missingFault_map_text]
  rfl

/-- An edge between texts is refused at worst because they are no nodes. -/
theorem isContained_readEdge {nodes : Table Node} (h : edgeFits id record = true) :
    isContained (Edge.read now nodes id record) = true := by
  simp only [edgeFits, Bool.and_eq_true] at h
  obtain ⟨⟨⟨⟨hid, hsource⟩, htarget⟩, hstrength⟩, hproperties⟩ := h
  obtain ⟨s, rfl⟩ := Value.isText_iff.1 hid
  obtain ⟨kind, hkind⟩ := Value.exists_field_of_passesAt hsource "type"
  obtain ⟨created, hcreated⟩ := Value.exists_field_of_passesAt hsource "created"
  obtain ⟨source, hsource, htext⟩ := Value.exists_of_passesAt hsource
  obtain ⟨source, hs⟩ := Value.isText_iff.1 htext
  obtain ⟨target, htarget, htext⟩ := Value.exists_of_passesAt htarget
  obtain ⟨target, ht⟩ := Value.isText_iff.1 htext
  obtain ⟨strength, hstrength, hnumber⟩ := Value.exists_of_passesAt hstrength
  obtain ⟨properties, hproperties, htable⟩ := Value.exists_of_passesAt hproperties
  unfold Edge.read
  refine isContained_bind_ok (Value.field_of_field? hsource) <|
    isContained_bind_ok (Value.field_of_field? htarget) ?_
  rw [hs, ht]
  refine isContained_bind_ok rfl <| isContained_bind_ok rfl ?_
  simp only
  split
  · refine isContained_bind_ok hkind <| isContained_bind (isContained_readRelation kind) fun _ _ => ?_
    refine isContained_bind_ok hstrength <| isContained_bind hnumber fun _ _ => ?_
    refine isContained_bind_ok (Value.field_of_field? hproperties) <| isContained_bind htable fun _ _ => ?_
    exact isContained_bind_ok hcreated rfl
  · refine isReported_missingFault fun k hk => ?_
    rcases List.mem_cons.1 (List.mem_of_mem_filter hk) with rfl | hk
    · exact ⟨source, rfl⟩
    · exact ⟨target, List.mem_singleton.1 hk⟩

namespace Graph

def TextNames (g : Graph) : Prop := ∀ k n, g.nodes.get? k = some n → ∃ s, n.name = .text s

theorem TextNames.of_mem_values {g : Graph} (h : g.TextNames) : ∀ n ∈ g.nodes.values, ∃ s, n.name = .text s :=
  Names.of_mem_values (P := fun v => ∃ s, v = .text s) h

theorem TextNames.foldl_putEdge {g : Graph} (h : g.TextNames) (edges : List Edge) :
    (edges.foldl Graph.putEdge g).TextNames :=
  Names.foldl_putEdge (P := fun v => ∃ s, v = .text s) h edges

variable {data : Value}

theorem isContained_importedNodes (h : tableFits nodeFits "nodes" data = true) :
    isContained (importedNodes now data) = true := by
  obtain ⟨items, hitems, hpairs⟩ := exists_items_of_tableFits h
  refine isContained_bind_ok hitems <| isContained_foldlM fun item hitem nodes => ?_
  obtain ⟨hpair, hentry⟩ := hpairs item hitem
  refine isContained_bind hpair fun p hp => ?_
  exact isContained_bind (isContained_readNode (hentry p.1 p.2 hp)) fun _ _ => rfl

theorem isContained_importedEdges (h : tableFits edgeFits "edges" data = true) {nodes : Table Node} :
    isContained (importedEdges now data nodes) = true := by
  obtain ⟨items, hitems, hpairs⟩ := exists_items_of_tableFits h
  refine isContained_bind_ok hitems <| isContained_mapM fun item hitem => ?_
  obtain ⟨hpair, hentry⟩ := hpairs item hitem
  exact isContained_bind hpair fun p hp => isContained_readEdge (hentry p.1 p.2 hp)

theorem isContained_importedConcepts
    (h : tableFits (fun name id => isKey name && isKey id) "conceptIndex" data = true) {nodes : Table Node} :
    isContained (importedConcepts data nodes) = true := by
  obtain ⟨items, hitems, hpairs⟩ := exists_items_of_tableFits h
  refine isContained_bind_ok hitems <| isContained_foldlM fun item hitem concepts => ?_
  obtain ⟨hpair, hentry⟩ := hpairs item hitem
  refine isContained_bind hpair fun p hp => ?_
  have hkeys := Bool.and_eq_true_iff.1 (hentry p.1 p.2 hp)
  refine isContained_bind hkeys.2 fun id _ => ?_
  split
  · exact isContained_bind hkeys.1 fun _ _ => rfl
  · rfl

theorem isContained_completed {nodes : Table Node} {concepts : Table Scalar}
    (h : ∀ n ∈ nodes.values, ∃ s, n.name = .text s) :
    isContained (nodes.values.foldlM completeConcept concepts) = true := by
  refine isContained_foldlM fun n hn concepts => ?_
  obtain ⟨s, hs⟩ := h n hn
  unfold completeConcept
  split
  · rw [hs]
    rfl
  · rfl

theorem textNames_ofNodes {nodes : Table Node} (h : tableFits nodeFits "nodes" data = true)
    (hnodes : importedNodes now data = .ok nodes) : (ofNodes nodes).TextNames := by
  obtain ⟨items, hitems, hpairs⟩ := exists_items_of_tableFits h
  have hnamed := forall_importedNodes (P := fun n => ∃ s, n.name = .text s) hnodes
    fun items' hitems' item hitem id record n hpair hread => by
      cases hitems.symm.trans hitems'
      have hfits := (hpairs item hitem).2 id record hpair
      simp only [nodeFits, Bool.and_eq_true] at hfits
      obtain ⟨name, hname, htext⟩ := Value.exists_of_passesAt hfits.1.1.2
      obtain ⟨-, -, ⟨name', hname', hn⟩, -⟩ := Node.read_ok hread
      cases hname.symm.trans hname'
      rw [hn]
      exact Value.isText_iff.1 htext
  exact fun k n hn => (hnamed k n hn).2

theorem isContained_ofExport (h : fits data = true) : isContained (ofExport now data) = true := by
  simp only [fits, Bool.and_eq_true] at h
  obtain ⟨⟨hnodes, hedges⟩, hconcepts⟩ := h
  rw [ofExport_eq]
  refine isContained_bind (isContained_importedNodes hnodes) fun nodes himported => ?_
  refine isContained_bind (isContained_importedEdges hedges) fun edges _ => ?_
  refine isContained_bind (isContained_importedConcepts hconcepts) fun concepts _ => ?_
  have hnames := (textNames_ofNodes hnodes himported).foldl_putEdge edges
  exact isContained_bind (isContained_completed hnames.of_mem_values) fun _ _ => rfl

/-- What can be asked any question: a graph with its edges listed at their ends, with texts for ids and names. -/
structure Askable (g : Graph) : Prop where
  linked : g.Linked
  texts : g.TextIds
  names : g.TextNames

theorem textKeyed_of_tableFits {entryFits : Value → Value → Bool} {name : String}
    (h : tableFits entryFits name data = true) (hid : ∀ id v, entryFits id v = true → id.isText = true) :
    textKeyed name data = true := by
  obtain ⟨items, hitems, hpairs⟩ := exists_items_of_tableFits h
  rw [textKeyed, hitems]
  refine List.all_eq_true.2 fun item hitem => ?_
  split
  · rename_i id v hpair
    exact hid id v ((hpairs item hitem).2 id v hpair)
  · rfl

/-- What has the shape of a snapshot is imported as a graph that can be asked. -/
theorem askable_ofExport {g : Graph} (h : fits data = true) (hg : ofExport now data = .ok g) : g.Askable := by
  simp only [fits, Bool.and_eq_true] at h
  obtain ⟨⟨hnodes, hedges⟩, -⟩ := h
  have htexts : (Call.importExport now data).hasTextIds = true := by
    refine Bool.and_eq_true_iff.2
      ⟨textKeyed_of_tableFits hnodes fun id v hfits => ?_, textKeyed_of_tableFits hedges fun id v hfits => ?_⟩
    · simp only [nodeFits, Bool.and_eq_true] at hfits
      exact hfits.1.1.1
    · simp only [edgeFits, Bool.and_eq_true] at hfits
      exact hfits.1.1.1.1
  obtain ⟨edges, hread⟩ := exists_imported hg
  have haccount := accounted_ofExport hg hread
  have htextIds := (textIds_ofExport hg hread htexts).1
  obtain ⟨nodes, taken, concepts, himported, -, -, -, rfl⟩ := ofExport_ok hg hread
  exact ⟨haccount.linked, htextIds, (textNames_ofNodes hnodes himported).foldl_putEdge edges⟩

end Graph

namespace Snapshot

theorem isTable_properties (p : Properties) : isTable p.toValue = true := by
  unfold isTable Properties.toValue Value.toTable
  split <;> rfl

theorem tableFits_of_entries {α : Type} {t : Table α} {write : α → Value} {entryFits : Value → Value → Bool}
    {name : String} {data : Value}
    (hdata : exportTable name data = .ok (t.entries.map fun e => .list [.scalar e.1, write e.2]))
    (h : ∀ e ∈ t.entries, entryFits (.scalar e.1) (write e.2) = true) : tableFits entryFits name data = true := by
  rw [tableFits, hdata]
  refine List.all_eq_true.2 fun item hitem => ?_
  obtain ⟨e, he, rfl⟩ := List.mem_map.1 hitem
  exact h e he

/-- What is saved of a graph that can be asked has the shape of a snapshot. -/
theorem fits_document {g : Graph} (hg : g.Askable) (created : Value) (now : String) :
    fits (document g created now) = true := by
  have hnodes : tableFits nodeFits "nodes" (document g created now) = true := by
    refine @tableFits_of_entries _ g.nodes Node.toValue _ _ _ rfl fun e he => ?_
    obtain ⟨s, hs⟩ := hg.texts.nodes e.1 (List.mem_map_of_mem he)
    obtain ⟨t, ht⟩ := hg.names.of_mem_values e.2 (List.mem_map_of_mem he)
    have hname : e.2.toValue.passesAt Value.isText "name" (.text "") = e.2.name.isText := rfl
    have hproperties : e.2.toValue.passesAt isTable "properties" .null = isTable e.2.properties.toValue := rfl
    rw [nodeFits, hs, hname, ht, hproperties, isTable_properties]
    rfl
  have hedges : tableFits edgeFits "edges" (document g created now) = true := by
    refine @tableFits_of_entries _ g.edges Edge.toValue _ _ _ rfl fun e he => ?_
    have hvalues : e.2 ∈ g.edges.values := List.mem_map_of_mem he
    obtain ⟨k, hk⟩ := hg.texts.edges e.1 (List.mem_map_of_mem he)
    obtain ⟨-, s, hs⟩ := Graph.Linked.hasNode_of_touches hg.linked hg.texts hvalues (Or.inl rfl)
    obtain ⟨-, t, ht⟩ := Graph.Linked.hasNode_of_touches hg.linked hg.texts hvalues (Or.inr rfl)
    have hsource : e.2.toValue.passesAt Value.isText "from" .null = (Value.scalar e.2.source).isText := rfl
    have htarget : e.2.toValue.passesAt Value.isText "to" .null = (Value.scalar e.2.target).isText := rfl
    have hproperties : e.2.toValue.passesAt isTable "properties" .null = isTable e.2.properties.toValue := rfl
    rw [edgeFits, hk, hsource, hs, htarget, ht, hproperties, isTable_properties]
    rfl
  have hconcepts : tableFits (fun name id => isKey name && isKey id) "conceptIndex" (document g created now) =
      true := @tableFits_of_entries _ g.concepts .scalar _ _ _ rfl fun _ _ => rfl
  rw [fits, hnodes, hedges, hconcepts]
  rfl

end Snapshot

end CodeAtlas
