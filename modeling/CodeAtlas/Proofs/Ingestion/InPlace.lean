import CodeAtlas.Proofs.Ingestion.Accepted
import CodeAtlas.Proofs.Value.Contained

/-! Ingestion with a report that is passed along and written in place, so that a failure would leave in it what
was noted before. It does what ingestion does that hands its report on. A record that can be read is taken
in whole; one that cannot is refused before anything is written, in the graph or in the report. -/

namespace CodeAtlas

namespace Ingestion

/-- A change of a graph and of a report; what it did to either before it failed stays done. -/
abbrev Noting := EStateM Fault (Graph × IngestionReport)

namespace Noting

def onGraph {α : Type} (c : Change α) : Noting α := fun (g, report) =>
  match c.run g with
  | .ok a g' => .ok a (g', report)
  | .error e g' => .error e (g', report)

def note (f : IngestionReport → IngestionReport) : Noting Unit := modify fun (g, report) => (g, f report)

def link (now : String) (source target : Scalar) (kind : RelationKind) : Noting Unit :=
  tryCatch (onGraph do let _ ← Graph.relate now source target kind ∅) fun
    | .missingNodes _ => note .skip
    | e => throw e

def addFact (now : String) (file : Scalar) (id : String → String) (draft : String → Value → NodeDraft)
    (fact : Value) : Noting Unit := do
  match factName? fact with
  | none => note .skip
  | some name =>
    let n ← onGraph (Graph.writeNode now (.text (id name)) (draft name fact))
    link now n.id file .partOf

def addImport (now : String) (file : Scalar) (language entry : Value) : Noting Unit := do
  match importName? entry with
  | none => note .skip
  | some importPath =>
    let n ← onGraph (dependencyNode now language importPath)
    link now file n.id .dependsOn

def addRecord (now : String) (r : Record) : Noting Unit := do
  let (before, _) ← get
  let file ← onGraph (Graph.writeNode now (.text (fileId r.path)) (fileDraft r))
  forM r.functions (addFact now file.id (functionId r.path) (functionDraft r.path))
  forM r.classes (addFact now file.id (classId r.path) (classDraft r.path))
  forM r.imports (addImport now file.id r.language)
  let (after, _) ← get
  note fun report => { report with
    nodesCreated := report.nodesCreated + (after.nodes.size - before.nodes.size)
    edgesCreated := report.edgesCreated + (after.edges.size - before.edges.size)
    filesProcessed := report.filesProcessed + 1 }

def ingestRecord (now : String) (v : Value) : Noting Unit := do
  match ← onGraph (Change.check (Record.read? v)) with
  | none => note (·.fail v.shown)
  | some r => addRecord now r

def returned : EStateM.Result Fault (Graph × IngestionReport) Unit → EStateM.Result Fault Graph IngestionReport
  | .ok _ (g, report) => .ok report g
  | .error e (g, _) => .error e g

/-- Whether a change that notes in place does what one does that hands the report on. -/
def Agrees (c : Noting Unit) (c' : IngestionReport → Change IngestionReport) : Prop :=
  ∀ g report, returned (c.run (g, report)) = (c' report).run g

theorem run_onGraph {α : Type} (x : Change α) (g : Graph) (report : IngestionReport) :
    (onGraph x).run (g, report) =
      match x.run g with
      | .ok a g' => .ok a (g', report)
      | .error e g' => .error e (g', report) := rfl

namespace Agrees

variable {α : Type} {c d : Noting Unit} {c' d' : IngestionReport → Change IngestionReport} {now : String}
  {file : Scalar}

theorem note (f : IngestionReport → IngestionReport) : Agrees (note f) fun report => return f report :=
  fun _ _ => rfl

theorem seq (h : Agrees c c') (h' : Agrees d d') : Agrees (do c; d) fun report => c' report >>= d' := by
  intro g report
  have hc := h g report
  rw [EStateM.run_bind, EStateM.run_bind, ← hc]
  cases c.run (g, report) with
  | ok _ s => exact h' s.1 s.2
  | error e s => rfl

theorem onGraph (x : Change α) {d : α → Noting Unit} {d' : α → IngestionReport → Change IngestionReport}
    (h : ∀ a, Agrees (d a) (d' a)) :
    Agrees (Noting.onGraph x >>= d) fun report => x >>= fun a => d' a report := by
  intro g report
  rw [EStateM.run_bind, EStateM.run_bind, run_onGraph]
  cases x.run g with
  | ok a g' => exact h a g' report
  | error e g' => rfl

theorem link {source target : Scalar} {kind : RelationKind} :
    Agrees (Noting.link now source target kind) (Ingestion.link now source target kind) := by
  intro g report
  rw [Noting.link, Ingestion.link, run_tryCatch, run_tryCatch, run_onGraph, EStateM.run_bind, EStateM.run_bind]
  cases (Graph.relate now source target kind ∅).run g with
  | ok e g' => rfl
  | error e g' => cases e <;> rfl

theorem addFacts {id : String → String} {draft : String → Value → NodeDraft} (facts : List Value) :
    Agrees (forM facts (addFact now file id draft))
      fun report => Ingestion.addFacts now file id draft report facts := by
  induction facts with
  | nil => exact fun _ _ => rfl
  | cons fact rest ih =>
    rw [List.forM_cons]
    simp only [addFact, Ingestion.addFacts]
    cases factName? fact with
    | none => exact (note .skip).seq ih
    | some name =>
      simp only [bind_assoc]
      exact onGraph _ fun n => link.seq ih

theorem addImports {language : Value} (imports : List Value) :
    Agrees (forM imports (addImport now file language))
      fun report => Ingestion.addImports now file language report imports := by
  induction imports with
  | nil => exact fun _ _ => rfl
  | cons entry rest ih =>
    rw [List.forM_cons]
    simp only [addImport]
    cases hname : importName? entry with
    | none =>
      simp only [addImports_of_none hname]
      exact (note .skip).seq ih
    | some importPath =>
      simp only [addImports_of_some hname, bind_assoc]
      exact onGraph _ fun n => link.seq ih

theorem addRecord (r : Record) :
    Agrees (Noting.addRecord now r) fun report => Ingestion.addRecord now report r := by
  intro g report
  have hend : Agrees (do
      let (after, _) ← get
      Noting.note fun report => { report with
        nodesCreated := report.nodesCreated + (after.nodes.size - g.nodes.size)
        edgesCreated := report.edgesCreated + (after.edges.size - g.edges.size)
        filesProcessed := report.filesProcessed + 1 }) fun report => (do
      return { report with
        nodesCreated := report.nodesCreated + ((← get).nodes.size - g.nodes.size)
        edgesCreated := report.edgesCreated + ((← get).edges.size - g.edges.size)
        filesProcessed := report.filesProcessed + 1 }) := fun _ _ => rfl
  exact onGraph (Graph.writeNode now (.text (fileId r.path)) (fileDraft r))
    (fun file => (addFacts r.functions).seq ((addFacts r.classes).seq ((addImports r.imports).seq hend))) g report

theorem ingestRecord (v : Value) :
    Agrees (Noting.ingestRecord now v) fun report => Ingestion.ingestRecord now report v := by
  refine onGraph _ fun o => ?_
  cases o with
  | none => exact note _
  | some r => exact addRecord r

end Agrees

end Noting

/-- Whether a value is an object with components that have no fields, although they do not count as absent. -/
def hasBrokenComponents : Value → Bool
  | .object entries =>
    match lookup? (.text "components") entries with
    | some (.object _) => false
    | some components => !components.isFalsy
    | none => false
  | _ => false

theorem hasBrokenComponents_object {entries : List (Scalar × Value)} :
    hasBrokenComponents (.object entries) =
      !(((lookup? (.text "components") entries).getD .null).orElse (.object []) matches .object _) := by
  rw [hasBrokenComponents]
  cases lookup? (.text "components") entries with
  | none => rfl
  | some components =>
    rw [Option.getD_some, Value.orElse]
    cases hfalsy : components.isFalsy with
    | true => cases components <;> simp [hfalsy]
    | false => cases components <;> simp [hfalsy]

theorem failsIf_read? (v : Value) : FailsIf (hasBrokenComponents v) .notOffered (Record.read? v) := by
  cases v with
  | scalar k => exact Or.inr ⟨rfl, none, rfl⟩
  | list items => exact Or.inr ⟨rfl, none, rfl⟩
  | object entries =>
    rw [hasBrokenComponents_object]
    simp only [Record.read?, Value.field, Value.field?, bind, Except.bind, pure, Except.pure]
    cases ((lookup? (.text "components") entries).getD .null).orElse (.object []) with
    | object fields => exact Or.inr ⟨rfl, _, rfl⟩
    | scalar k => exact Or.inl ⟨rfl, rfl⟩
    | list items => exact Or.inl ⟨rfl, rfl⟩

theorem Noting.returned_eq_ok {x : EStateM.Result Fault (Graph × IngestionReport) Unit} {g : Graph}
    {report : IngestionReport} (h : returned x = .ok report g) : x = .ok () (g, report) := by
  cases x with
  | ok a s =>
    cases h
    rfl
  | error e s => cases h

/-- Whatever calls have led to, as long as all concepts are named by texts, and whatever was noted before: a
value with broken components is refused, and nothing changes, neither the graph nor the report. Every
other value is taken: one that names no file is noted by its text, and the graph stays; of one that does
everything is written, and it is counted as processed. -/
theorem ingestRecord_in_full_or_refused {calls : List Call} (htexts : (Graph.ofCalls calls).TextConcepts)
    (now : String) (report : IngestionReport) (v : Value) :
    (hasBrokenComponents v = true →
      (Noting.ingestRecord now v).run (Graph.ofCalls calls, report) =
        .error .notOffered (Graph.ofCalls calls, report)) ∧
    (hasBrokenComponents v = false →
      (record? v = none ∧ (Noting.ingestRecord now v).run (Graph.ofCalls calls, report) =
        .ok () (Graph.ofCalls calls, report.fail v.shown)) ∨
      ∃ r g' report', record? v = some r ∧
        (Noting.ingestRecord now v).run (Graph.ofCalls calls, report) = .ok () (g', report') ∧
        (Write.runAll now (recordWrites r)).run (Graph.ofCalls calls) = .ok () g' ∧
        report'.filesProcessed = report.filesProcessed + 1 ∧ report'.failedFiles = report.failedFiles) := by
  have hkeyed := Graph.nodesKeyed_ofCalls calls
  constructor
  · intro hbroken
    rcases failsIf_read? v with ⟨-, hread⟩ | ⟨hfine, -⟩
    · rw [Noting.ingestRecord, hread]
      rfl
    · cases hbroken.symm.trans hfine
  · intro hfine
    rcases failsIf_read? v with ⟨hbroken, -⟩ | ⟨-, o, hread⟩
    · cases hbroken.symm.trans hfine
    cases o with
    | none =>
      left
      refine ⟨by rw [record?, hread], ?_⟩
      rw [Noting.ingestRecord, hread]
      rfl
    | some r =>
      obtain ⟨g', hwrites, -⟩ := Write.exists_runAll_of_safe now htexts (safe_of_mem_valueWrites hread)
      have heffect := hwrites
      rw [← @ingestRead_effect now _ v v.shown report hkeyed] at heffect
      obtain ⟨report', hrun⟩ := Change.exists_run_of_effect heffect
      have hnoting := Noting.returned_eq_ok ((Noting.Agrees.ingestRecord v _ report).trans hrun)
      have hrecord := record?_eq_some.2 hread
      have hvalue : valueWrites v = recordWrites r := by rw [valueWrites, hread]
      rw [hvalue] at hwrites
      right
      refine ⟨r, g', report', hrecord, hnoting, hwrites, ?_⟩
      rw [report_of_ingestRead hkeyed hrun]
      simp [readRecords, hrecord]

def brokenRecord : Value := .fields [("path", .text "a.py"), ("components", .int 3)]

/-- A record with a list for its path, an empty text for its components and a function that stands in no list. -/
def oddRecord : Value :=
  .fields [("path", .list [.text "a.py"]), ("components", .text ""), ("functions", .text "f"),
    ("classes", .list [.fields [("name", .int 1)], .null])]

theorem textConcepts_sampleCalls : (Graph.ofCalls sampleCalls).TextConcepts := by
  intro k n hn hkind
  obtain ⟨e, he, -, rfl⟩ := Table.mem_of_get? hn
  have hnames : ∀ e ∈ (Graph.ofCalls sampleCalls).nodes.entries,
      e.2.kind = .concept → e.2.name.isText = true := by
    decide +kernel
  exact Value.isText_iff.1 (hnames e he hkind)

theorem ingestRecord_in_full_or_refused_sampleCalls :
    (Noting.ingestRecord "t5" brokenRecord).run (Graph.ofCalls sampleCalls, {}) =
        .error .notOffered (Graph.ofCalls sampleCalls, {}) ∧
      (Noting.ingestRecord "t5" .null).run (Graph.ofCalls sampleCalls, {}) =
        .ok () (Graph.ofCalls sampleCalls, { failedFiles := ["None"] }) ∧
      ∃ r g report, record? oddRecord = some r ∧
        (Noting.ingestRecord "t5" oddRecord).run (Graph.ofCalls sampleCalls, {}) = .ok () (g, report) ∧
        (Write.runAll "t5" (recordWrites r)).run (Graph.ofCalls sampleCalls) = .ok () g ∧
        report.filesProcessed = 1 ∧ report.failedFiles = [] := by
  have htexts := textConcepts_sampleCalls
  refine ⟨(ingestRecord_in_full_or_refused htexts "t5" {} brokenRecord).1 rfl, ?_, ?_⟩
  · rcases (ingestRecord_in_full_or_refused htexts "t5" {} .null).2 rfl with ⟨-, hrun⟩ | ⟨r, -, -, hr, -⟩
    · exact hrun
    · cases hr
  · rcases (ingestRecord_in_full_or_refused htexts "t5" {} oddRecord).2 rfl with ⟨hr, -⟩ | hfull
    · cases hr
    · exact hfull

end Ingestion

end CodeAtlas
