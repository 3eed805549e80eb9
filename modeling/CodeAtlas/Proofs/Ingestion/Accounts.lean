import CodeAtlas.Ingestion.Build
import CodeAtlas.Proofs.Graph.Connections
import CodeAtlas.Proofs.Ingestion.Reading
import CodeAtlas.Proofs.Ingestion.Report

/-! Ingestion accounts for everything that it is given. Every item is counted once, as processed or as failed;
every new id is counted once, however often it is written; and every fact is either skipped for want of a
name or linked, as the nodes at both ends of its edge were written before. -/

namespace CodeAtlas

/-- Where a table has grown, its new keys are as many as it has grown by. -/
theorem Table.length_newKeys {α : Type} {t t' : Table α} (h : t.keys <+: t'.keys) :
    (t'.keys.filter fun k => !t.contains k).length = t'.size - t.size := by
  obtain ⟨new, hnew⟩ := h
  have hdistinct : (t.keys.map Scalar.canon ++ new.map Scalar.canon).Nodup := by
    rw [← List.map_append, hnew]
    exact nodup_keys
  have hold : (t.keys.filter fun k => !t.contains k) = [] := by
    refine List.filter_eq_nil_iff.2 fun k hk => ?_
    rw [contains_iff_mem.2 ⟨k, hk, rfl⟩]
    exact Bool.false_ne_true
  have hall : (new.filter fun k => !t.contains k) = new := by
    refine List.filter_eq_self.2 fun k hk => ?_
    rw [Bool.not_eq_true', ← Bool.not_eq_true, contains_iff_mem]
    rintro ⟨k', hk', hcanon⟩
    exact (List.nodup_append.1 hdistinct).2.2 _ (List.mem_map_of_mem hk') _ (List.mem_map_of_mem hk) hcanon
  rw [size_eq_length_keys, size_eq_length_keys, ← hnew, List.filter_append, hold, hall, List.nil_append,
    List.length_append, Nat.add_sub_cancel_left]

namespace Write

variable {now : String} {g g' : Graph}

/-- The links among repeatable writes are all made. -/
theorem Repeatable.hasEdge {ids : List Scalar} {ws : List Write} (h : Repeatable ids ws)
    (hids : ∀ k ∈ ids, g.hasNode k = true) (hrun : (runAll now ws).run g = .ok () g') {source target : Scalar}
    {kind : RelationKind} {properties : Properties} (hmem : link source target kind properties ∈ ws) :
    g'.hasEdge (.text (edgeId source.shown target.shown kind.name)) = true := by
  induction ws generalizing g ids with
  | nil => cases hmem
  | cons w rest ih =>
    obtain ⟨g₁, hw, hrun⟩ := runAll_cons_ok hrun
    obtain ⟨hgrows, ids', hrest, hids'⟩ := h.run_cons hids hw
    rcases List.mem_cons.1 hmem with rfl | hmem
    · obtain ⟨hs, ht, rfl, -⟩ := h
      cases (run_link_of_hasNode (hids _ hs) (hids _ ht)).symm.trans hw
      exact (hrest.grows hids' hrun).hasEdge Table.contains_insert_self
    · exact ih hrest hids' hrun hmem

/-- The nodes among repeatable writes are all there. -/
theorem Repeatable.hasNode {ids : List Scalar} {ws : List Write} (h : Repeatable ids ws)
    (hids : ∀ k ∈ ids, g.hasNode k = true) (hrun : (runAll now ws).run g = .ok () g') {id : Scalar} {d : NodeDraft}
    (hmem : node id d ∈ ws ∨ newNode id d ∈ ws) : g'.hasNode id = true := by
  induction ws generalizing g ids with
  | nil => simp at hmem
  | cons w rest ih =>
    obtain ⟨g₁, hw, hrun⟩ := runAll_cons_ok hrun
    obtain ⟨hgrows, ids', hrest, hids'⟩ := h.run_cons hids hw
    have hafter := hrest.grows hids' hrun
    rw [List.mem_cons, List.mem_cons] at hmem
    rcases hmem with (rfl | hmem) | (rfl | hmem)
    · obtain ⟨c, rfl⟩ := run_node_ok hw
      exact hafter.hasNode Graph.hasNode_withNode_self
    · exact ih hrest hids' hrun (.inl hmem)
    · rcases run_newNode_ok hw with ⟨hid, rfl⟩ | ⟨-, c, rfl⟩
      · exact hafter.hasNode hid
      · exact hafter.hasNode Graph.hasNode_withNode_self
    · exact ih hrest hids' hrun (.inr hmem)

end Write

namespace Ingestion

def Nameless (fact : Value) : Prop := ∀ name, ¬ NamedAs fact name

theorem nameless_iff {fact : Value} : Nameless fact ↔ (factName? fact).isNone = true := by
  simp [Nameless, namedAs_iff, Option.eq_none_iff_forall_ne_some]

instance (fact : Value) : Decidable (Nameless fact) := decidable_of_iff _ nameless_iff.symm

def Unusable (entry : Value) : Prop := ∀ importPath, entry = .text importPath → importPath = ""

theorem unusable_iff {entry : Value} : Unusable entry ↔ (importName? entry).isNone = true := by
  simp [Unusable, importName?_eq_some, Option.eq_none_iff_forall_ne_some]

instance (entry : Value) : Decidable (Unusable entry) := decidable_of_iff _ unusable_iff.symm

/-- How many entries of a value are left out for want of a usable name: none where the value describes no record. -/
inductive Skips (v : Value) : Nat → Prop where
  | record {r : Record} (h : Describes v r) :
    Skips v (r.functions.countP (Nameless ·) + r.classes.countP (Nameless ·) + r.imports.countP (Unusable ·))
  | other (h : ∀ r, ¬ Describes v r) : Skips v 0

/-- What a report on the ingestion of some values says of the graphs before and after it. -/
structure Accounts (g : Graph) (values : List Value) (report : IngestionReport) (g' : Graph) : Prop where
  items : report.filesProcessed + report.failedFiles.length = values.length
  nodes : report.nodesCreated = (g'.nodes.keys.filter fun k => !g.hasNode k).length
  edges : report.edgesCreated = (g'.edges.keys.filter fun k => !g.hasEdge k).length
  skipped : ∃ counts, List.Forall₂ Skips values counts ∧ report.skippedFacts = counts.sum
  linked : ∀ f, Stated values f → g'.hasEdge (.text f.id) = true

section Accounts

variable {now : String} {g g' : Graph} {report : IngestionReport} {r : Record}

theorem length_filterMap_add_countP {α : Type} {f : Value → Option α} {values : List Value} :
    (values.filterMap f).length + values.countP (fun v => (f v).isNone) = values.length := by
  rw [List.length_filterMap_eq_countP, List.length_eq_countP_add_countP (fun v => (f v).isSome),
    Nat.add_left_cancel_iff]
  exact List.countP_congr fun v _ => by simp

theorem mem_flatMap_factWrites {file : Scalar} {ids : String → String} {draft : String → Value → NodeDraft}
    {facts : List Value} {fact : Value} {name : String} (hfact : fact ∈ facts) (hname : NamedAs fact name) :
    Write.node (.text (ids name)) (draft name fact) ∈ facts.flatMap (factWrites file ids draft) ∧
      Write.link (.text (ids name)) file .partOf ∅ ∈ facts.flatMap (factWrites file ids draft) := by
  have hwrites : factWrites file ids draft fact =
      [.node (.text (ids name)) (draft name fact), .link (.text (ids name)) file .partOf ∅] := by
    simp [factWrites, namedAs_iff.1 hname]
  exact ⟨List.mem_flatMap.2 ⟨fact, hfact, by simp [hwrites]⟩, List.mem_flatMap.2 ⟨fact, hfact, by simp [hwrites]⟩⟩

/-- Every fact that a record states is linked by what the record writes. -/
theorem exists_link_of_states {f : Fact} (h : States r f) :
    ∃ (source target : Scalar), Write.link source target f.kind ∅ ∈ recordWrites r ∧
      f.id = edgeId source.shown target.shown f.kind.name := by
  cases h with
  | @function _ name h =>
    obtain ⟨rfl, fact, hmem, hname⟩ := h
    refine ⟨.text (functionId r.path name), .text (fileId r.path), ?_, rfl⟩
    refine List.mem_cons_of_mem _ (List.mem_append_left _ (List.mem_append_left _ ?_))
    exact (mem_flatMap_factWrites hmem hname).2
  | @classDecl _ name h =>
    obtain ⟨rfl, fact, hmem, hname⟩ := h
    refine ⟨.text (classId r.path name), .text (fileId r.path), ?_, rfl⟩
    refine List.mem_cons_of_mem _ (List.mem_append_left _ (List.mem_append_right _ ?_))
    exact (mem_flatMap_factWrites hmem hname).2
  | @dependency _ importPath hpath h =>
    obtain ⟨hmem, hne⟩ := h
    subst hpath
    refine ⟨.text (fileId r.path), .text (dependencyId importPath), ?_, rfl⟩
    refine List.mem_cons_of_mem _ (List.mem_append_right _ (List.mem_flatMap.2 ⟨_, hmem, ?_⟩))
    simp [importWrites, importName?_eq_some.2 ⟨rfl, hne⟩]

/-- Every entity that a record mentions is among the nodes that it writes. -/
theorem exists_node_of_mentions {x : Entity} (h : Mentions r x) :
    ∃ d, Write.node (.text x.id) d ∈ recordWrites r ∨ Write.newNode (.text x.id) d ∈ recordWrites r := by
  cases x with
  | file path =>
    obtain rfl : r.path.shown = path := h
    exact ⟨_, .inl List.mem_cons_self⟩
  | function path name =>
    obtain ⟨rfl, fact, hmem, hname⟩ := h
    refine ⟨functionDraft r.path name fact, .inl ?_⟩
    refine List.mem_cons_of_mem _ (List.mem_append_left _ (List.mem_append_left _ ?_))
    exact (mem_flatMap_factWrites hmem hname).1
  | classDecl path name =>
    obtain ⟨rfl, fact, hmem, hname⟩ := h
    refine ⟨classDraft r.path name fact, .inl ?_⟩
    refine List.mem_cons_of_mem _ (List.mem_append_left _ (List.mem_append_right _ ?_))
    exact (mem_flatMap_factWrites hmem hname).1
  | dependency importPath =>
    obtain ⟨hmem, hne⟩ := h
    refine ⟨dependencyDraft r.language importPath, .inr (List.mem_cons_of_mem _ (List.mem_append_right _ ?_))⟩
    refine List.mem_flatMap.2 ⟨_, hmem, ?_⟩
    rw [importWrites, importName?_eq_some.2 ⟨rfl, hne⟩]
    exact List.mem_cons_self

theorem recordWrites_subset {values : List Value} {v : Value} (hread : ∀ v ∈ values, ∃ o, Record.read? v = .ok o)
    (hv : v ∈ values) (hr : Describes v r) : recordWrites r ⊆ writes values := by
  obtain ⟨o, ho⟩ := hread v hv
  cases (describes_iff ho).1 hr
  intro w hw
  refine List.mem_flatMap.2 ⟨v, hv, ?_⟩
  rw [valueWrites, ho]
  exact hw

/-- Every fact that values state is an edge after an ingestion that returns. -/
theorem hasEdge_of_stated {values : List Value} (hread : ∀ v ∈ values, ∃ o, Record.read? v = .ok o)
    (hrun : (Write.runAll now (writes values)).run g = .ok () g') {f : Fact} (hf : Stated values f) :
    g'.hasEdge (.text f.id) = true := by
  obtain ⟨v, hv, r, hr, hstates⟩ := hf
  obtain ⟨source, target, hlink, hid⟩ := exists_link_of_states hstates
  have hrepeatable : Write.Repeatable [] (writes values) := repeatable_writes values
  rw [hid]
  exact hrepeatable.hasEdge (fun k hk => absurd hk List.not_mem_nil) hrun (recordWrites_subset hread hv hr hlink)

/-- Every entity that values mention is a node after an ingestion that returns. -/
theorem hasNode_of_mentioned {values : List Value} (hread : ∀ v ∈ values, ∃ o, Record.read? v = .ok o)
    (hrun : (Write.runAll now (writes values)).run g = .ok () g') {x : Entity} (hx : Mentioned values x) :
    g'.hasNode (.text x.id) = true := by
  obtain ⟨v, hv, r, hr, hmentions⟩ := hx
  have hsubset := recordWrites_subset hread hv hr
  have hrepeatable : Write.Repeatable [] (writes values) := repeatable_writes values
  obtain ⟨d, hmem⟩ := exists_node_of_mentions hmentions
  exact hrepeatable.hasNode (fun k hk => absurd hk List.not_mem_nil) hrun
    (hmem.imp (@hsubset _) (@hsubset _))

theorem skips_iff {v : Value} {o : Option Record} (h : Record.read? v = .ok o) {n : Nat} :
    Skips v n ↔ (o.map skipped).getD 0 = n := by
  have hcounts : ∀ r : Record, r.functions.countP (Nameless ·) + r.classes.countP (Nameless ·) +
      r.imports.countP (Unusable ·) = skipped r := by
    intro r
    have hnameless : (fun fact => decide (Nameless fact)) = fun fact => (factName? fact).isNone :=
      funext fun _ => by rw [Bool.eq_iff_iff, decide_eq_true_iff, nameless_iff]
    have hunusable : (fun entry => decide (Unusable entry)) = fun entry => (importName? entry).isNone :=
      funext fun _ => by rw [Bool.eq_iff_iff, decide_eq_true_iff, unusable_iff]
    rw [skipped, hnameless, hunusable]
  constructor
  · rintro (hr | hnone)
    · rw [(describes_iff h).1 hr]
      exact (hcounts _).symm
    · cases o with
      | none => rfl
      | some r => exact absurd (describes_of_read? h) (hnone r)
  · rintro rfl
    cases o with
    | none => exact .other fun r hr => by cases (describes_iff h).1 hr
    | some r =>
      have hskips := Skips.record (describes_of_read? h)
      rwa [hcounts] at hskips

/-- The entries left out of values that can be read are those that their records leave out. -/
theorem forall₂_skips_iff {values : List Value} (hread : ∀ v ∈ values, ∃ o, Record.read? v = .ok o)
    {counts : List Nat} :
    List.Forall₂ Skips values counts ↔ values.map (fun v => ((record? v).map skipped).getD 0) = counts := by
  induction values generalizing counts with
  | nil => simp [eq_comm]
  | cons v rest ih =>
    obtain ⟨o, ho⟩ := hread v List.mem_cons_self
    have hv : record? v = o := by rw [record?, ho]
    rw [List.forall₂_cons_left_iff, List.map_cons, hv]
    simp only [skips_iff ho, ih fun w hw => hread w (List.mem_cons_of_mem _ hw)]
    constructor
    · rintro ⟨n, ns, rfl, rfl, rfl⟩
      rfl
    · rintro rfl
      exact ⟨_, _, rfl, rfl, rfl⟩

theorem sum_skipped {values : List Value} :
    (values.map fun v => ((record? v).map skipped).getD 0).sum = ((readRecords values).map skipped).sum := by
  induction values with
  | nil => rfl
  | cons v rest ih =>
    unfold readRecords at ih ⊢
    rw [List.map_cons, List.sum_cons, ih, List.filterMap_cons]
    cases record? v with
    | none => exact Nat.zero_add _
    | some r => rfl

theorem accounts_of_foldlM {α : Type} {value : α → Value} {shown : α → String}
    {step : IngestionReport → α → Change IngestionReport}
    (hstep : ∀ report a, step report a = ingestRead now (value a) (shown a) report) {items : List α}
    (h : g.NodesKeyed) (hrun : (items.foldlM step {} : Change IngestionReport).run g = .ok report g') :
    Accounts g (items.map value) report g' := by
  obtain ⟨hgrows, hreport⟩ := report_of_foldlM hstep h hrun
  have heffect : ∀ g report a, g.NodesKeyed →
      (step report a).effect g = (Write.runAll now (valueWrites (value a))).run g := by
    intro g report a hg
    rw [hstep]
    exact ingestRead_effect hg
  have hwrites : (Write.runAll now (writes (items.map value))).run g = .ok () g' := by
    rw [← foldlM_effect value heffect h, Change.effect_of_ok hrun]
  have hread := exists_read?_of_run hwrites
  have hitems := @length_filterMap_add_countP _ record? (items.map value)
  rw [List.countP_map, List.countP_eq_length_filter] at hitems
  rw [hreport]
  refine ⟨?_, ?_, ?_, ?_, fun f hf => hasEdge_of_stated hread hwrites hf⟩
  · simp only [Nat.zero_add, List.nil_append, List.length_map] at hitems ⊢
    exact hitems
  · exact (Nat.zero_add _).trans (Table.length_newKeys hgrows.node_keys).symm
  · exact (Nat.zero_add _).trans (Table.length_newKeys hgrows.edge_keys).symm
  · exact ⟨_, (forall₂_skips_iff hread).2 rfl, (Nat.zero_add _).trans sum_skipped.symm⟩

end Accounts

/-- Whatever calls have led to, an ingestion that returns, of values or of analyses, accounts for all that it was
given. -/
theorem accounts_of_ingest (calls : List Call) (now : String) :
    (∀ records report g', (ingest now records).run (Graph.ofCalls calls) = .ok report g' →
      Accounts (Graph.ofCalls calls) records report g') ∧
    ∀ analyses report g', (ingestAnalyses now analyses).run (Graph.ofCalls calls) = .ok report g' →
      Accounts (Graph.ofCalls calls) (analyses.map Analysis.toValue) report g' := by
  have hkeyed := Graph.nodesKeyed_ofCalls calls
  have hvalue : ∀ report v, ingestRecord now report v = ingestRead now (id v) v.shown report := fun _ _ => rfl
  have hanalysis : ∀ report a, ingestAnalysis now report a = ingestRead now a.toValue a.shown report :=
    fun _ _ => rfl
  constructor
  · intro records report g' hrun
    simpa using accounts_of_foldlM hvalue hkeyed hrun
  · intro analyses report g' hrun
    exact accounts_of_foldlM hanalysis hkeyed hrun

/-- A record with a function that is named twice, one without a name and an import that is no text, and a value
that names no file. -/
def unevenRecords : List Value := [
  .fields [("path", .text "a.py"), ("functions", .list [.text "f", .text "", .text "f"]),
    ("imports", .list [.text "os", .int 1])],
  .null]

def unevenAnalyses : List Analysis := [
  ⟨.text "b.py", .text "python", ⟨[⟨"g", none⟩], [], ["os"]⟩, .int 1⟩,
  ⟨.text "", .text "python", ⟨[], [], []⟩, .int 1⟩]

theorem accounts_of_ingest_unevenRecords :
    (∃ report g, (ingest "t5" unevenRecords).run (Graph.ofCalls sampleCalls) = .ok report g ∧
      report.filesProcessed + report.failedFiles.length = 2 ∧ report.skippedFacts = 2 ∧
      g.hasEdge (.text (edgeId (fileId (.text "a.py")) (dependencyId "os") "DEPENDS_ON")) = true) ∧
    ∃ report g, (ingestAnalyses "t5" unevenAnalyses).run (Graph.ofCalls sampleCalls) = .ok report g ∧
      report.filesProcessed + report.failedFiles.length = 2 ∧ report.skippedFacts = 0 := by
  obtain ⟨hvalues, hanalyses⟩ := accounts_of_ingest sampleCalls "t5"
  have hvaluesRun : (ingest "t5" unevenRecords).succeeds (Graph.ofCalls sampleCalls) = true := by decide +kernel
  have hanalysesRun : (ingestAnalyses "t5" unevenAnalyses).succeeds (Graph.ofCalls sampleCalls) = true := by
    decide +kernel
  have hvaluesRead : ∀ v ∈ unevenRecords, ∃ o, Record.read? v = .ok o := by
    intro v hv
    simp only [unevenRecords, List.mem_cons, List.not_mem_nil, or_false] at hv
    rcases hv with rfl | rfl
    · exact ⟨_, rfl⟩
    · exact ⟨_, rfl⟩
  constructor
  · obtain ⟨report, g, hrun⟩ := Change.exists_run_of_succeeds hvaluesRun
    have haccounts := hvalues _ _ _ hrun
    obtain ⟨counts, hcounts, hskipped⟩ := haccounts.skipped
    rw [← (forall₂_skips_iff hvaluesRead).1 hcounts, sum_skipped] at hskipped
    have hos : Stated unevenRecords ⟨.file "a.py", .dependency "os", .dependsOn⟩ :=
      ⟨_, List.mem_cons_self, _, describes_of_read? rfl, .dependency rfl ⟨List.mem_cons_self, by decide⟩⟩
    have hid : ∀ path importPath, (Fact.mk (.file path) (.dependency importPath) .dependsOn).id =
        edgeId (fileId (.text path)) (dependencyId importPath) "DEPENDS_ON" := fun _ _ => rfl
    have hlinked := haccounts.linked _ hos
    rw [hid] at hlinked
    exact ⟨report, g, hrun, haccounts.items, hskipped.trans (by decide), hlinked⟩
  · obtain ⟨report, g, hrun⟩ := Change.exists_run_of_succeeds hanalysesRun
    have haccounts := hanalyses _ _ _ hrun
    obtain ⟨counts, hcounts, hskipped⟩ := haccounts.skipped
    rw [← (forall₂_skips_iff fun _ => Analysis.exists_read?_of_mem).1 hcounts, sum_skipped] at hskipped
    exact ⟨report, g, hrun, haccounts.items, hskipped.trans (by decide)⟩

end Ingestion

end CodeAtlas
