import CodeAtlas.Ingestion.Ingest
import CodeAtlas.Proofs.Graph.Writes

/-! Ingestion as a list of writes: which nodes and edges a record asks for can be read off the record, no
matter what is in the graph. -/

namespace CodeAtlas

namespace Ingestion

def importName? : Value → Option String
  | .text s => if s.isEmpty then none else some s
  | _ => none

def factWrites (file : Scalar) (id : String → String) (draft : String → Value → NodeDraft)
    (fact : Value) : List Write :=
  match factName? fact with
  | none => []
  | some name =>
    [.node (.text (id name)) (draft name fact), .link (.text (id name)) file .partOf ∅]

def importWrites (file : Scalar) (language : Value) (entry : Value) : List Write :=
  match importName? entry with
  | none => []
  | some importPath =>
    [.newNode (.text (dependencyId importPath)) (dependencyDraft language importPath),
      .link file (.text (dependencyId importPath)) .dependsOn ∅]

def recordWrites (r : Record) : List Write :=
  let file : Scalar := .text (fileId r.path)
  .node file (fileDraft r) ::
    (r.functions.flatMap (factWrites file (functionId r.path) (functionDraft r.path)) ++
      r.classes.flatMap (factWrites file (classId r.path) (classDraft r.path)) ++
      r.imports.flatMap (importWrites file r.language))

def valueWrites (v : Value) : List Write :=
  match Record.read? v with
  | .ok (some r) => recordWrites r
  | .ok none => []
  | .error e => [.stop e]

def writes (records : List Value) : List Write := records.flatMap valueWrites

variable {now : String} {g : Graph}

theorem link_effect {source target : Scalar} {kind : RelationKind} {report : IngestionReport} :
    (link now source target kind report).effect g =
      ((Write.link source target kind ∅).run now).run g := by
  rw [Change.effect, link, run_tryCatch, Write.run, run_tryCatch, EStateM.run_bind, EStateM.run_bind]
  cases (Graph.relate now source target kind ∅).run g with
  | ok e g' => rfl
  | error e g' => cases e <;> rfl

theorem id_of_writeNode {s : String} {d : NodeDraft} {n : Node} {g' : Graph} (h : g.NodesKeyed)
    (hn : (Graph.writeNode now (.text s) d).run g = .ok n g') : n.id = .text s := by
  obtain ⟨rfl, -⟩ := Graph.writeNode_ok hn
  exact Scalar.canon_eq_text_iff.1 (Graph.canon_written_id h)

theorem nodesKeyed_of_run {w : Write} {g' : Graph} (h : g.NodesKeyed)
    (hw : (w.run now).run g = .ok () g') : g'.NodesKeyed := by
  have hdrafts : w.Drafts fun _ _ => True := w.drafts_of_forall fun _ _ => trivial
  have hafter := @Kept.run _ _ _ g [] (Graph.nodesKeyed_kept now) w hdrafts h
  rwa [Change.after_of_ok hw] at hafter

theorem nodesKeyed_of_runAll {ws : List Write} {g' : Graph} (h : g.NodesKeyed)
    (hws : (Write.runAll now ws).run g = .ok () g') : g'.NodesKeyed := by
  have hdrafts : ∀ w ∈ ws, w.Drafts fun _ _ => True :=
    fun w _ => w.drafts_of_forall fun _ _ => trivial
  have hafter := @Kept.runAll _ _ _ g [] (Graph.nodesKeyed_kept now) ws hdrafts h
  rwa [Change.after_of_ok hws] at hafter

theorem addFacts_effect {file : Scalar} {id : String → String} {draft : String → Value → NodeDraft}
    {facts : List Value} {report : IngestionReport} (h : g.NodesKeyed) :
    (addFacts now file id draft report facts).effect g =
      (Write.runAll now (facts.flatMap (factWrites file id draft))).run g := by
  induction facts generalizing g report with
  | nil => rfl
  | cons fact rest ih =>
    rw [addFacts, List.flatMap_cons, factWrites]
    cases factName? fact with
    | none => exact ih h
    | some name =>
      refine Write.effect_cons Write.run_node.symm fun n g1 hn hwrite => ?_
      have h1 := nodesKeyed_of_run h hwrite
      rw [id_of_writeNode h hn]
      refine Write.effect_cons link_effect fun report' g2 _ hlink => ?_
      exact ih (nodesKeyed_of_run h1 hlink)

theorem dependencyNode_effect {language : Value} {importPath : String} :
    (dependencyNode now language importPath).effect g =
      ((Write.newNode (.text (dependencyId importPath))
        (dependencyDraft language importPath)).run now).run g := by
  simp only [Write.run_newNode, dependencyNode, Change.effect_bind, EStateM.run_get]
  cases hn : g.nodes.get? (.text (dependencyId importPath)) with
  | none =>
    rw [if_neg (by rw [Graph.hasNode, Table.contains_eq_false_iff.2 hn]; exact Bool.false_ne_true)]
  | some n =>
    rw [if_pos (Graph.hasNode_iff.2 ⟨n, hn⟩)]
    rfl

theorem id_of_dependencyNode {language : Value} {importPath : String} {n : Node} {g' : Graph}
    (h : g.NodesKeyed) (hn : (dependencyNode now language importPath).run g = .ok n g') :
    n.id = .text (dependencyId importPath) := by
  rw [dependencyNode, EStateM.run_bind, EStateM.run_get] at hn
  cases hold : g.nodes.get? (.text (dependencyId importPath)) with
  | none =>
    simp only [hold] at hn
    exact id_of_writeNode h hn
  | some old =>
    simp only [hold] at hn
    cases hn
    exact Scalar.canon_eq_text_iff.1 (h _ _ hold)

theorem addImports_of_none {file : Scalar} {language entry : Value} {rest : List Value}
    {report : IngestionReport} (h : importName? entry = none) :
    addImports now file language report (entry :: rest) =
      addImports now file language report.skip rest := by
  cases entry with
  | scalar k =>
    cases k with
    | text s =>
      have hs : s.isEmpty = true := by simpa [importName?] using h
      simp [addImports, hs]
    | _ => rfl
  | list items => rfl
  | object entries => rfl

theorem importName?_eq_some {entry : Value} {importPath : String} :
    importName? entry = some importPath ↔ entry = .text importPath ∧ importPath ≠ "" := by
  cases entry with
  | scalar k =>
    cases k with
    | text s =>
      by_cases hs : s = ""
      · simp [importName?, hs]
      · simpa [importName?, hs] using fun h => h ▸ hs
    | _ => simp [importName?]
  | list items => simp [importName?]
  | object entries => simp [importName?]

theorem addImports_of_some {file : Scalar} {language entry : Value} {rest : List Value}
    {report : IngestionReport} {importPath : String} (h : importName? entry = some importPath) :
    addImports now file language report (entry :: rest) = (do
      let n ← dependencyNode now language importPath
      let report ← link now file n.id .dependsOn report
      addImports now file language report rest) := by
  obtain ⟨rfl, hs⟩ := importName?_eq_some.1 h
  simp [addImports, hs]

theorem addImports_effect {file : Scalar} {language : Value} {imports : List Value}
    {report : IngestionReport} (h : g.NodesKeyed) :
    (addImports now file language report imports).effect g =
      (Write.runAll now (imports.flatMap (importWrites file language))).run g := by
  induction imports generalizing g report with
  | nil => rfl
  | cons entry rest ih =>
    rw [List.flatMap_cons, importWrites]
    cases hname : importName? entry with
    | none =>
      rw [addImports_of_none hname]
      exact ih h
    | some importPath =>
      rw [addImports_of_some hname]
      refine Write.effect_cons dependencyNode_effect fun n g1 hn hwrite => ?_
      have h1 := nodesKeyed_of_run h hwrite
      rw [id_of_dependencyNode h hn]
      refine Write.effect_cons link_effect fun report' g2 _ hlink => ?_
      exact ih (nodesKeyed_of_run h1 hlink)

theorem addRecord_effect {report : IngestionReport} {r : Record} (h : g.NodesKeyed) :
    (addRecord now report r).effect g = (Write.runAll now (recordWrites r)).run g := by
  rw [addRecord, Change.effect_bind, EStateM.run_get]
  simp only
  rw [Change.effect_bind, EStateM.run_get]
  refine Write.effect_cons Write.run_node.symm fun n g1 hn hwrite => ?_
  have h1 := nodesKeyed_of_run h hwrite
  rw [id_of_writeNode h hn, List.append_assoc]
  refine Write.effect_append (addFacts_effect h1) fun functions g2 _ hfunctions => ?_
  have h2 := nodesKeyed_of_runAll h1 hfunctions
  refine Write.effect_append (addFacts_effect h2) fun classes g3 _ hclasses => ?_
  rw [← addImports_effect (nodesKeyed_of_runAll h2 hclasses), Change.effect_bind, Change.effect]
  -- the report is made up last and leaves the graph alone
  cases (addImports now (.text (fileId r.path)) r.language classes r.imports).run g3 <;> rfl

/-- Reads a value and ingests the record that it describes; a value that names no file is noted as this text. All
that is ingested, values and analyses, is ingested so. -/
def ingestRead (now : String) (v : Value) (shown : String) (report : IngestionReport) :
    Change IngestionReport := do
  match ← Change.check (Record.read? v) with
  | none => return report.fail shown
  | some r => addRecord now report r

theorem ingestRead_effect {v : Value} {shown : String} {report : IngestionReport} (h : g.NodesKeyed) :
    (ingestRead now v shown report).effect g = (Write.runAll now (valueWrites v)).run g := by
  rw [ingestRead, valueWrites, Change.effect_bind]
  cases Record.read? v with
  | error e => rfl
  | ok r =>
    cases r with
    | none => rfl
    | some r => exact addRecord_effect h

/-- Ingestion does to the graph what its writes do, also when it breaks off. How it reports on the way does
not matter. -/
theorem foldlM_effect {α : Type} (value : α → Value) {step : IngestionReport → α → Change IngestionReport}
    (hstep : ∀ g report a, g.NodesKeyed →
      (step report a).effect g = (Write.runAll now (valueWrites (value a))).run g)
    {report : IngestionReport} {items : List α} (h : g.NodesKeyed) :
    (items.foldlM step report : Change IngestionReport).effect g =
      (Write.runAll now (writes (items.map value))).run g := by
  induction items generalizing g report with
  | nil => rfl
  | cons a rest ih =>
    rw [List.foldlM_cons, List.map_cons, writes, List.flatMap_cons]
    refine Write.effect_append (hstep g report a h) fun report' g' _ hrecord => ?_
    exact ih (nodesKeyed_of_runAll h hrecord)

theorem ingest_effect {records : List Value} (h : g.NodesKeyed) :
    (ingest now records).effect g = (Write.runAll now (writes records)).run g := by
  have heffect : (ingest now records).effect g = (Write.runAll now (writes (records.map id))).run g :=
    foldlM_effect id (fun _ _ _ => ingestRead_effect) h
  rwa [List.map_id] at heffect

end Ingestion

end CodeAtlas
