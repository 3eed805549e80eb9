import CodeAtlas.Proofs.Graph.Readable
import CodeAtlas.Proofs.Ingestion.Statements
import CodeAtlas.Proofs.Value.WellFormed

/-! What the names in a graph have in common. A name is given by a call, for want of one it is the empty text, and
otherwise it is copied from a document; so after any calls with well-formed values all names are well formed. -/

namespace CodeAtlas

namespace Value.WellFormed

variable {v w : Value}

theorem of_field? (hv : v.WellFormed) {name : String} (h : v.field? name = .ok (some w)) : w.WellFormed := by
  cases hv with
  | scalar => cases h
  | list => cases h
  | object entries _ hentries =>
    obtain ⟨e, he, -, rfl⟩ := canon_eq_of_lookup? (Except.ok.inj h)
    exact hentries e he

theorem of_field (hv : v.WellFormed) {name : String} (h : v.field name = .ok w) : w.WellFormed := by
  obtain ⟨found, hfound, h⟩ := Except.bind_eq_ok.1 h
  cases h
  cases found with
  | none => exact .scalar _
  | some w => exact hv.of_field? hfound

theorem of_pair (hv : v.WellFormed) {a b : Value} (h : v.pair = .ok (a, b)) : a.WellFormed ∧ b.WellFormed := by
  obtain ⟨parts, hparts, h⟩ := Except.bind_eq_ok.1 h
  have hall := hv.of_mem_elements hparts
  split at h
  · cases h
    exact ⟨hall _ (by simp), hall _ (by simp)⟩
  · cases h

theorem of_mem_exportTable (hv : v.WellFormed) {name : String} {items : List Value}
    (h : exportTable name v = .ok items) : ∀ item ∈ items, item.WellFormed := by
  obtain ⟨found, hfound, h⟩ := Except.bind_eq_ok.1 h
  cases found with
  | none =>
    cases h
    simp
  | some table => exact (hv.of_field? hfound).of_mem_elements h

end Value.WellFormed

def NodeDraft.Names (P : Value → Prop) (d : NodeDraft) : Prop := ∀ name, d.name = some name → P name

namespace Graph

variable {P : Value → Prop} {g : Graph} {now : String} {id : Scalar} {d : NodeDraft}

variable (hempty : P (.text ""))

include hempty

theorem Names.written (h : g.Names P) (hd : d.Names P) : P (g.written now id d).name := by
  cases hname : d.name with
  | some name =>
    rw [written_name hname]
    exact hd name hname
  | none =>
    cases hn : g.nodes.get? id with
    | none =>
      rw [written_of_none hn, Node.fresh, hname]
      exact hempty
    | some old =>
      rw [written_of_some hn, Node.overwritten, hname]
      exact h id old hn

theorem names_kept : Kept now (fun _ d => d.Names P) fun g _ => g.Names P where
  node g stored id d hd h := by
    rcases after_writeNode g now id d with hg | ⟨c, hg, -⟩
    · rw [hg]
      exact h
    · rw [hg]
      intro k n hn
      rw [withNode, Table.get?_insert] at hn
      split at hn
      · cases hn
        exact h.written hempty hd
      · exact h k n hn
  edge g stored source target kind properties e _ h := h.putEdge e

/-- The names of an import are those of its node records. -/
theorem names_ofExport {data : Value} (h : ofExport now data = .ok g)
    (hnames : ∀ items, exportTable "nodes" data = .ok items → ∀ item ∈ items, ∀ id record name,
      item.pair = .ok (id, record) → record.field? "name" = .ok (some name) → P name) : g.Names P := by
  obtain ⟨edges, hedges⟩ := exists_imported h
  obtain ⟨nodes, taken, concepts, hnodes, -, -, -, rfl⟩ := ofExport_ok h hedges
  have hread := forall_importedNodes (P := fun n => P n.name) hnodes
    fun items hitems item hitem id record n hpair hread => by
      obtain ⟨-, -, ⟨found, hfound, hname⟩, -⟩ := Node.read_ok hread
      rw [hname]
      cases found with
      | none => exact hempty
      | some name => exact hnames items hitems item hitem id record name hpair hfound
  have hbase : (ofNodes nodes).Names P := fun k n hn => (hread k n hn).2
  exact hbase.foldl_putEdge edges

end Graph

/-- Whether the values that a call passes on are well formed. -/
def Call.WellFormed : Call → Prop
  | addNode _ _ data => data.WellFormed
  | addRelationship .. => True
  | ingest _ records => ∀ v ∈ records, v.WellFormed
  | discover .. => True
  | importExport _ data => data.WellFormed

theorem Call.WellFormed.drafts {c : Call} (h : c.WellFormed) :
    c.Drafts fun _ d => d.Names Value.WellFormed := by
  have htext : ∀ {d : NodeDraft} {name : String}, d.name = some (.text name) → d.Names Value.WellFormed := by
    intro d name hd v hv
    cases hd.symm.trans hv
    exact .scalar _
  cases c with
  | addNode now id data =>
    intro k d _ hd name hname
    have hfield := NodeDraft.name_of_read hd
    rw [hname] at hfield
    exact Value.WellFormed.of_field? h hfield
  | addRelationship now source target kind properties => trivial
  | ingest now records =>
    refine Ingestion.drafts_of_mem_writes (fun v hv r hr name hname => ?_) fun _ d name _ hd => htext hd
    cases hname
    exact (h v hv).of_field (Ingestion.field_path_of_read? hr)
  | discover now threshold => exact fun g => Discovery.drafts_of_mem_writes fun _ p => htext rfl
  | importExport now data => trivial

/-- After any calls with well-formed values all names are well formed. -/
theorem Graph.wellFormed_names_ofCalls {calls : List Call} (h : ∀ c ∈ calls, c.WellFormed) :
    (Graph.ofCalls calls).Names Value.WellFormed := by
  have hempty : (Value.text "").WellFormed := .scalar _
  have hkept : ∀ c ∈ calls, Kept c.now (fun _ d => True ∧ d.Names Value.WellFormed)
      fun g _ => g.NodesKeyed ∧ g.Names Value.WellFormed :=
    fun c _ => (nodesKeyed_kept c.now).and (names_kept hempty)
  have hdrafts : ∀ c ∈ calls, c.Drafts fun _ d => True ∧ d.Names Value.WellFormed :=
    fun c hc => (c.drafts_of_forall fun _ _ => trivial).and (h c hc).drafts
  rw [← History.graph_ofCalls]
  refine (@History.ofCalls_kept _ (fun g _ => g.NodesKeyed ∧ g.Names Value.WellFormed) calls
    ⟨linked_empty.nodes_keyed, fun _ _ h => nomatch h⟩ (fun _ _ h => h.1) hkept hdrafts ?_).2
  intro now data g edges hc hg hedges
  have hdata : data.WellFormed := h _ hc
  refine ⟨(accounted_ofExport hg hedges).linked.nodes_keyed, names_ofExport hempty hg ?_⟩
  intro items hitems item hitem id record name hpair hname
  exact ((hdata.of_mem_exportTable hitems item hitem).of_pair hpair).2.of_field? hname

end CodeAtlas
