import CodeAtlas.Proofs.Graph.Repeat
import CodeAtlas.Proofs.Ingestion.Statements
import Mathlib.Algebra.GroupWithZero.Nat

/-! What ingestion reports. It counts what it makes by the size of the graph before and after each record;
everything else in the report can be told from the records alone, as no relationship is ever refused: the
nodes at its ends were written before. -/

namespace CodeAtlas

namespace Ingestion

/-- How many entries of a record are skipped for want of a usable name. -/
def skipped (r : Record) : Nat :=
  r.functions.countP (fun fact => (factName? fact).isNone) +
    r.classes.countP (fun fact => (factName? fact).isNone) +
    r.imports.countP (fun entry => (importName? entry).isNone)

def failed (records : List Value) : List String :=
  (records.filter fun v => (record? v).isNone).map Value.shown

section Repeatable

variable {file : Scalar} {ids : List Scalar}

theorem repeatable_factWrites {id : String → String} {draft : String → Value → NodeDraft} {fact : Value}
    (hkind : ∀ name fact, (draft name fact).kind ≠ .concept)
    (hname : ∀ name fact, (draft name fact).name ≠ none) (hfile : file ∈ ids) :
    Write.Repeatable ids (factWrites file id draft fact) := by
  unfold factWrites
  cases factName? fact with
  | none => trivial
  | some name =>
    exact ⟨hkind _ _, hname _ _, List.mem_cons_self, List.mem_cons_of_mem _ hfile, rfl, trivial⟩

theorem repeatable_importWrites {language entry : Value} (hfile : file ∈ ids) :
    Write.Repeatable ids (importWrites file language entry) := by
  unfold importWrites
  cases importName? entry with
  | none => trivial
  | some importPath =>
    exact ⟨nofun, List.mem_cons_of_mem _ hfile, List.mem_cons_self, rfl, trivial⟩

/-- What a record writes can be done again: its file comes first, and every other node before its edge. -/
theorem repeatable_recordWrites {r : Record} : Write.Repeatable ids (recordWrites r) := by
  have hfile : (Scalar.text (fileId r.path)) ∈ Scalar.text (fileId r.path) :: ids :=
    List.mem_cons_self
  refine ⟨nofun, nofun, .append (.append ?_ ?_) ?_⟩
  · exact .flatMap fun fact _ => repeatable_factWrites nofun nofun hfile
  · exact .flatMap fun fact _ => repeatable_factWrites nofun nofun hfile
  · exact .flatMap fun entry _ => repeatable_importWrites hfile

theorem repeatable_valueWrites {v : Value} : Write.Repeatable ids (valueWrites v) := by
  unfold valueWrites
  split
  · exact repeatable_recordWrites
  · trivial
  · trivial

theorem repeatable_writes (records : List Value) : Write.Repeatable ids (writes records) :=
  .flatMap fun _ _ => repeatable_valueWrites

end Repeatable

section Runs

variable {now : String} {g g' : Graph} {file : Scalar} {report report' : IngestionReport}

theorem link_run_of_hasNode {source target : Scalar} {kind : RelationKind}
    (hs : g.hasNode source = true) (ht : g.hasNode target = true) :
    (link now source target kind report).run g =
      .ok report (g.putEdge (Graph.relationship now source target kind ∅ 1.0)) := by
  have hrel : (Graph.relate now source target kind ∅).run g = _ :=
    Graph.relate_run_of_hasNode hs ht
  rw [link, run_tryCatch, EStateM.run_bind, hrel]
  rfl

theorem report_of_addFacts {id : String → String} {draft : String → Value → NodeDraft}
    {facts : List Value} (h : g.NodesKeyed) (hfile : g.hasNode file = true)
    (hrun : (addFacts now file id draft report facts).run g = .ok report' g') :
    g'.NodesKeyed ∧ g'.hasNode file = true ∧
      report' = { report with
        skippedFacts := report.skippedFacts + facts.countP fun fact => (factName? fact).isNone } := by
  induction facts generalizing g report with
  | nil =>
    cases hrun
    exact ⟨h, hfile, rfl⟩
  | cons fact rest ih =>
    rw [addFacts] at hrun
    cases hname : factName? fact with
    | none =>
      simp only [hname] at hrun
      obtain ⟨hkeyed, hhas, rfl⟩ := ih h hfile hrun
      refine ⟨hkeyed, hhas, ?_⟩
      simp [IngestionReport.skip, hname, Nat.add_assoc, Nat.add_comm 1]
    | some name =>
      simp only [hname] at hrun
      obtain ⟨n, g₁, hwrite, hrun⟩ := Change.run_bind_ok hrun
      have hid := id_of_writeNode h hwrite
      obtain ⟨-, c, rfl⟩ := Graph.writeNode_ok hwrite
      obtain ⟨report₁, g₂, hlink, hrun⟩ := Change.run_bind_ok hrun
      rw [hid] at hlink
      cases (link_run_of_hasNode Graph.hasNode_withNode_self (Graph.hasNode_withNode hfile)).symm.trans
        hlink
      obtain ⟨hkeyed, hhas, rfl⟩ := ih (h.withNode c).putEdge
        (Graph.hasNode_putEdge.trans (Graph.hasNode_withNode hfile)) hrun
      refine ⟨hkeyed, hhas, ?_⟩
      simp [hname]

theorem report_of_addImports {language : Value} {imports : List Value} (h : g.NodesKeyed)
    (hfile : g.hasNode file = true)
    (hrun : (addImports now file language report imports).run g = .ok report' g') :
    report' = { report with
      skippedFacts :=
        report.skippedFacts + imports.countP fun entry => (importName? entry).isNone } := by
  induction imports generalizing g report with
  | nil =>
    cases hrun
    rfl
  | cons entry rest ih =>
    cases hname : importName? entry with
    | none =>
      rw [addImports_of_none hname] at hrun
      rw [ih h hfile hrun]
      simp [IngestionReport.skip, hname, Nat.add_assoc, Nat.add_comm 1]
    | some importPath =>
      rw [addImports_of_some hname] at hrun
      obtain ⟨n, g₁, hnode, hrun⟩ := Change.run_bind_ok hrun
      obtain ⟨report₁, g₂, hlink, hrun⟩ := Change.run_bind_ok hrun
      rw [id_of_dependencyNode h hnode] at hlink
      have hwrite : ((Write.newNode (.text (dependencyId importPath))
          (dependencyDraft language importPath)).run now).run g = .ok () g₁ := by
        rw [← dependencyNode_effect, Change.effect_of_ok hnode]
      have hkeyed := nodesKeyed_of_run h hwrite
      have hends : g₁.hasNode file = true ∧
          g₁.hasNode (.text (dependencyId importPath)) = true := by
        rcases Write.run_newNode_ok hwrite with ⟨hid, rfl⟩ | ⟨-, c, rfl⟩
        · exact ⟨hfile, hid⟩
        · exact ⟨Graph.hasNode_withNode hfile, Graph.hasNode_withNode_self⟩
      cases (link_run_of_hasNode hends.1 hends.2).symm.trans hlink
      rw [ih hkeyed.putEdge (Graph.hasNode_putEdge.trans hends.1) hrun]
      simp [hname]

theorem report_of_addRecord {r : Record} (h : g.NodesKeyed)
    (hrun : (addRecord now report r).run g = .ok report' g') :
    report' = { report with
      nodesCreated := report.nodesCreated + (g'.nodes.size - g.nodes.size)
      edgesCreated := report.edgesCreated + (g'.edges.size - g.edges.size)
      skippedFacts := report.skippedFacts + skipped r
      filesProcessed := report.filesProcessed + 1 } := by
  rw [addRecord] at hrun
  obtain ⟨_, _, hget, hrun⟩ := Change.run_bind_ok hrun
  cases hget
  obtain ⟨_, _, hget, hrun⟩ := Change.run_bind_ok hrun
  cases hget
  obtain ⟨n, g₁, hwrite, hrun⟩ := Change.run_bind_ok hrun
  have hid := id_of_writeNode h hwrite
  obtain ⟨-, c, rfl⟩ := Graph.writeNode_ok hwrite
  obtain ⟨report₁, g₂, hfunctions, hrun⟩ := Change.run_bind_ok hrun
  obtain ⟨report₂, g₃, hclasses, hrun⟩ := Change.run_bind_ok hrun
  obtain ⟨report₃, g₄, himports, hrun⟩ := Change.run_bind_ok hrun
  rw [hid] at hfunctions hclasses himports
  obtain ⟨hkeyed, hfile, rfl⟩ :=
    report_of_addFacts (h.withNode c) Graph.hasNode_withNode_self hfunctions
  obtain ⟨hkeyed, hfile, rfl⟩ := report_of_addFacts hkeyed hfile hclasses
  cases report_of_addImports hkeyed hfile himports
  cases hrun
  simp [skipped, Nat.add_assoc]

theorem grows_of_ingestRead {v : Value} {shown : String} (h : g.NodesKeyed)
    (hrun : (ingestRead now v shown report).run g = .ok report' g') :
    g'.NodesKeyed ∧ Graph.Grows g g' := by
  have hwrites : (Write.runAll now (valueWrites v)).run g = .ok () g' := by
    rw [← ingestRead_effect h, Change.effect_of_ok hrun]
  have hrepeatable : Write.Repeatable [] (valueWrites v) := repeatable_valueWrites
  exact ⟨nodesKeyed_of_runAll h hwrites,
    hrepeatable.grows (fun k hk => absurd hk List.not_mem_nil) hwrites⟩

theorem report_of_ingestRead {v : Value} {shown : String} (h : g.NodesKeyed)
    (hrun : (ingestRead now v shown report).run g = .ok report' g') :
    report' = {
      filesProcessed := report.filesProcessed + (readRecords [v]).length
      nodesCreated := report.nodesCreated + (g'.nodes.size - g.nodes.size)
      edgesCreated := report.edgesCreated + (g'.edges.size - g.edges.size)
      skippedFacts := report.skippedFacts + ((readRecords [v]).map skipped).sum
      failedFiles := report.failedFiles ++ if (record? v).isNone then [shown] else [] } := by
  rw [ingestRead] at hrun
  obtain ⟨o, _, hread, hrun⟩ := Change.run_bind_ok hrun
  cases hv : Record.read? v with
  | error e =>
    rw [hv] at hread
    cases hread
  | ok o' =>
    rw [hv] at hread
    cases hread
    cases o with
    | none =>
      cases hrun
      simp [IngestionReport.fail, readRecords, record?, hv]
    | some r =>
      rw [report_of_addRecord h hrun]
      simp [readRecords, record?, hv]

/-- What the ingestion of items, by the values that they stand for, adds to a report: the number of records read,
the growth of the graph, the number of facts skipped and the texts of the items that name no file. -/
theorem report_of_foldlM {α : Type} {value : α → Value} {shown : α → String}
    {step : IngestionReport → α → Change IngestionReport}
    (hstep : ∀ report a, step report a = ingestRead now (value a) (shown a) report) {items : List α}
    (h : g.NodesKeyed) (hrun : (items.foldlM step report : Change IngestionReport).run g = .ok report' g') :
    Graph.Grows g g' ∧ report' = {
      filesProcessed := report.filesProcessed + (readRecords (items.map value)).length
      nodesCreated := report.nodesCreated + (g'.nodes.size - g.nodes.size)
      edgesCreated := report.edgesCreated + (g'.edges.size - g.edges.size)
      skippedFacts := report.skippedFacts + ((readRecords (items.map value)).map skipped).sum
      failedFiles := report.failedFiles ++ (items.filter fun a => (record? (value a)).isNone).map shown } := by
  induction items generalizing g report with
  | nil =>
    cases hrun
    exact ⟨.refl _, by simp [readRecords]⟩
  | cons a rest ih =>
    rw [List.foldlM_cons, hstep] at hrun
    obtain ⟨report₁, g₁, hitem, hrun⟩ := Change.run_bind_ok hrun
    obtain ⟨hkeyed, hgrows⟩ := grows_of_ingestRead h hitem
    obtain ⟨hgrows', rfl⟩ := ih hkeyed hrun
    cases report_of_ingestRead h hitem
    have hreads : readRecords ((a :: rest).map value) = readRecords [value a] ++ readRecords (rest.map value) :=
      List.filterMap_append (l := [value a])
    have hfailed : ((a :: rest).filter fun a => (record? (value a)).isNone).map shown =
        (if (record? (value a)).isNone then [shown a] else []) ++
          (rest.filter fun a => (record? (value a)).isNone).map shown := by
      rw [List.filter_cons]
      split <;> rfl
    obtain ⟨hnodes, hedges⟩ := hgrows.size_le
    obtain ⟨hnodes', hedges'⟩ := hgrows'.size_le
    refine ⟨hgrows.trans hgrows', ?_⟩
    rw [hreads, hfailed]
    simp only [IngestionReport.mk.injEq, List.length_append, List.map_append, List.sum_append,
      List.append_assoc, and_true]
    omega

/-- Ingestion reports how many records it read, how much the graph grew, how many facts it skipped and which
values name no file. -/
theorem report_of_ingest {records : List Value} (h : g.NodesKeyed)
    (hrun : (ingest now records).run g = .ok report g') :
    report = {
      filesProcessed := (readRecords records).length
      nodesCreated := g'.nodes.size - g.nodes.size
      edgesCreated := g'.edges.size - g.edges.size
      skippedFacts := ((readRecords records).map skipped).sum
      failedFiles := failed records } := by
  have hstep : ∀ report v, ingestRecord now report v = ingestRead now (id v) v.shown report := fun _ _ => rfl
  simpa [failed] using (report_of_foldlM hstep h hrun).2

end Runs

end Ingestion

end CodeAtlas
