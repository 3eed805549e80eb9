import CodeAtlas.Proofs.Graph.Success
import CodeAtlas.Proofs.Ingestion.Accounts
import CodeAtlas.Proofs.Source.Names
import Mathlib.Algebra.BigOperators.Group.List.Basic

/-! Ingestion accepts all that analysis finds. Values that can be read at all are ingested without a failure,
unless a concept has a name that is no text; and an analysis is a record with usable names throughout, so
that no fact of it is skipped. -/

namespace CodeAtlas

namespace Ingestion

variable {now : String} {g : Graph} {r : Record}

theorem safe_of_mem_factWrites {file : String} {id : String → String}
    {draft : String → Value → NodeDraft} {fact : Value} (hkind : ∀ name fact, (draft name fact).kind ≠ .concept) :
    ∀ w ∈ factWrites (.text file) id draft fact, w.Safe := by
  intro w hw
  unfold factWrites at hw
  split at hw
  · cases hw
  · rcases List.mem_cons.1 hw with rfl | hw
    · exact fun h => absurd h (hkind _ _)
    · rw [List.mem_singleton.1 hw]
      exact ⟨⟨_, rfl⟩, ⟨_, rfl⟩, 1.0, rfl⟩

theorem safe_of_mem_importWrites {file : String} {language entry : Value} :
    ∀ w ∈ importWrites (.text file) language entry, w.Safe := by
  intro w hw
  unfold importWrites at hw
  split at hw
  · cases hw
  · rcases List.mem_cons.1 hw with rfl | hw
    · exact nofun
    · rw [List.mem_singleton.1 hw]
      exact ⟨⟨_, rfl⟩, ⟨_, rfl⟩, 1.0, rfl⟩

/-- A record writes no concepts, and relates nothing but nodes under texts. -/
theorem safe_of_mem_recordWrites : ∀ w ∈ recordWrites r, w.Safe := by
  intro w hw
  rcases List.mem_cons.1 hw with rfl | hw
  · exact nofun
  · rcases List.mem_append.1 hw with hw | hw
    · rcases List.mem_append.1 hw with hw | hw
      · obtain ⟨fact, -, hw⟩ := List.mem_flatMap.1 hw
        exact safe_of_mem_factWrites (fun _ _ => NodeKind.noConfusion) w hw
      · obtain ⟨fact, -, hw⟩ := List.mem_flatMap.1 hw
        exact safe_of_mem_factWrites (fun _ _ => NodeKind.noConfusion) w hw
    · obtain ⟨entry, -, hw⟩ := List.mem_flatMap.1 hw
      exact safe_of_mem_importWrites w hw

theorem safe_of_mem_valueWrites {v : Value} {r? : Option Record} (hread : Record.read? v = .ok r?) :
    ∀ w ∈ valueWrites v, w.Safe := by
  intro w hw
  rw [valueWrites, hread] at hw
  cases r? with
  | none => cases hw
  | some r => exact safe_of_mem_recordWrites w hw

/-- Values that can be read are ingested, where all concepts are named by texts. -/
theorem exists_run_ingest {records : List Value} (now : String) (hkeyed : g.NodesKeyed) (h : g.TextConcepts)
    (hread : ∀ v ∈ records, ∃ r?, Record.read? v = .ok r?) :
    ∃ report g', (ingest now records).run g = .ok report g' ∧ g'.TextConcepts := by
  have hsafe : ∀ w ∈ writes records, w.Safe := by
    intro w hw
    obtain ⟨v, hv, hw⟩ := List.mem_flatMap.1 hw
    obtain ⟨r?, hr⟩ := hread v hv
    exact safe_of_mem_valueWrites hr w hw
  obtain ⟨g', hrun, htexts⟩ := Write.exists_runAll_of_safe now h hsafe
  rw [← ingest_effect hkeyed] at hrun
  obtain ⟨report, hrun⟩ := Change.exists_run_of_effect hrun
  exact ⟨report, g', hrun, htexts⟩

end Ingestion

namespace Analysis

variable {a : Analysis}

theorem factName?_function {f : FunctionFact} (h : f.name ≠ "") : factName? f.toValue = some f.name := by
  have hname : factName? f.toValue =
      if (Value.text f.name).isFalsy then none else some (Value.text f.name).shown := by
    obtain ⟨name, params⟩ := f
    cases params <;> rfl
  rw [hname, Value.isFalsy_text h]
  rfl

theorem factName?_class {c : ClassFact} (h : c.name ≠ "") : factName? c.toValue = some c.name := by
  have hname : factName? c.toValue =
      if (Value.text c.name).isFalsy then none else some (Value.text c.name).shown := rfl
  rw [hname, Value.isFalsy_text h]
  rfl

/-- Nothing is skipped where all facts are usable. -/
theorem skipped_record (h : a.facts.Usable) : Ingestion.skipped a.record = 0 := by
  have hfunctions : a.record.functions.countP (fun fact => (factName? fact).isNone) = 0 := by
    rw [List.countP_eq_zero]
    intro v hv
    obtain ⟨f, hf, rfl⟩ := List.mem_map.1 hv
    simp [factName?_function (h.functions f hf)]
  have hclasses : a.record.classes.countP (fun fact => (factName? fact).isNone) = 0 := by
    rw [List.countP_eq_zero]
    intro v hv
    obtain ⟨c, hc, rfl⟩ := List.mem_map.1 hv
    simp [factName?_class (h.classes c hc)]
  have himports : a.record.imports.countP (fun entry => (Ingestion.importName? entry).isNone) = 0 := by
    rw [List.countP_eq_zero]
    intro v hv
    obtain ⟨s, hs, rfl⟩ := List.mem_map.1 hv
    have hne : s ≠ "" := fun hempty => h.imports (hempty ▸ hs)
    simp [Ingestion.importName?_eq_some.2 ⟨rfl, hne⟩]
  rw [Ingestion.skipped, hfunctions, hclasses, himports]

end Analysis

namespace Ingestion

variable {now : String} {analyses : List Analysis}

/-- Analyses of files with paths are ingested as their records are. -/
theorem ingestAnalyses_eq (hpaths : ∀ a ∈ analyses, a.path.isFalsy = false) :
    ingestAnalyses now analyses = ingest now (analyses.map (·.toValue)) := by
  have hstep : ∀ report, analyses.foldlM (ingestAnalysis now) report =
      (analyses.map (·.toValue)).foldlM (ingestRecord now) report := by
    intro report
    induction analyses generalizing report with
    | nil => rfl
    | cons a rest ih =>
      have hread : Record.read? a.toValue = .ok (some a.record) := by
        rw [Analysis.read?_toValue, hpaths a List.mem_cons_self]
        rfl
      have ha : ingestAnalysis now report a = ingestRecord now report a.toValue := by
        rw [ingestAnalysis, ingestRecord, hread]
        rfl
      rw [List.map_cons, List.foldlM_cons, List.foldlM_cons, ha]
      exact bind_congr fun report' => ih (fun a ha => hpaths a (List.mem_cons_of_mem _ ha)) report'
  exact hstep {}

theorem record?_toValue {a : Analysis} (hpath : a.path.isFalsy = false) :
    record? a.toValue = some a.record := by
  rw [record?, Analysis.read?_toValue, hpath]
  rfl

theorem readRecords_analyses (hpaths : ∀ a ∈ analyses, a.path.isFalsy = false) :
    readRecords (analyses.map (·.toValue)) = analyses.map (·.record) := by
  rw [readRecords, List.filterMap_map, ← List.filterMap_eq_map]
  exact List.filterMap_congr fun a ha => record?_toValue (hpaths a ha)

theorem failed_analyses (hpaths : ∀ a ∈ analyses, a.path.isFalsy = false) :
    failed (analyses.map (·.toValue)) = [] := by
  rw [failed, List.map_eq_nil_iff, List.filter_eq_nil_iff]
  intro v hv
  obtain ⟨a, ha, rfl⟩ := List.mem_map.1 hv
  simp [record?_toValue (hpaths a ha)]

end Ingestion

def Call.isIngest : Call → Bool
  | ingest .. => true
  | _ => false

theorem Graph.textConcepts_of_ingests {calls : List Call} (h : ∀ c ∈ calls, c.isIngest = true) :
    (ofCalls calls).TextConcepts := by
  refine textConcepts_ofCalls fun before c after heq => ?_
  have hc := h c (by rw [heq]; exact List.mem_append_right _ List.mem_cons_self)
  cases c with
  | ingest now records => trivial
  | _ => cases hc

namespace Source

variable {files : List SourceFile} {analyses : List Analysis}

theorem analyses_of_analyseAll (h : analyseAll files = .ok analyses) :
    analyses.length = (files.filter fun f => !(f.content matches .null)).length ∧
      ∀ a ∈ analyses, a.facts.Usable ∧ ∃ f ∈ files, analyse f = .ok a := by
  have hlength := congrArg List.length (map_of_mapM_ok h (r := fun _ => ()) (s := fun _ => ()) fun _ _ _ => rfl)
  rw [List.length_map, List.length_map] at hlength
  refine ⟨hlength, fun a ha => ?_⟩
  obtain ⟨f, hf, hanalyse⟩ := mem_of_mapM_ok h a ha
  obtain ⟨facts, hfacts, ha⟩ := Except.bind_eq_ok.1 hanalyse
  cases ha
  exact ⟨usable_factsOf hfacts, f, (List.mem_filter.1 hf).1, hanalyse⟩

theorem facts_of_script {language content : Value} {facts : SourceFacts}
    (hlanguage : language = .text "javascript" ∨ language = .text "typescript")
    (h : factsOf language content = .ok facts) :
    ∃ s, content = .text s ∧ facts = JavaScript.facts s.toList := by
  have hcontent : ∃ s, content = .text s := by
    cases content with
    | scalar k =>
      cases k with
      | text s => exact ⟨s, rfl⟩
      | _ => rcases hlanguage with rfl | rfl <;> cases h
    | list items => rcases hlanguage with rfl | rfl <;> cases h
    | object entries => rcases hlanguage with rfl | rfl <;> cases h
  obtain ⟨s, rfl⟩ := hcontent
  refine ⟨s, rfl, ?_⟩
  rcases hlanguage with rfl | rfl
  · exact (Except.ok.inj h).symm
  · exact (Except.ok.inj h).symm

theorem names_of_analyse {file : SourceFile} {a : Analysis} (h : analyse file = .ok a)
    (hlanguage : a.language = .text "javascript" ∨ a.language = .text "typescript") :
    (a.facts.functions.map (·.name)).Nodup ∧
    (∀ f ∈ a.facts.functions, JavaScript.isKeyword f.name = false) ∧
    ∀ c ∈ a.facts.classes, ∀ method ∈ c.methods, JavaScript.isKeyword method.name = false := by
  obtain ⟨facts, hfacts, ha⟩ := Except.bind_eq_ok.1 h
  cases ha
  obtain ⟨s, -, rfl⟩ := facts_of_script hlanguage hfacts
  exact JavaScript.names_of_facts s.toList

end Source

/-- What analysis finds is ingested in full. Let the files have paths, and let their analysis succeed. Then
ingesting the analyses into a graph that ingestion has made succeeds: it skips no fact, fails on no
file, processes as many files as have content, and leaves a node for all that the analyses mention and an
edge for all that they state. No analysis names an import twice or without a text,
and in one of JavaScript or TypeScript the functions have different names and neither they nor methods
are named like keywords. -/
theorem ingestion_of_analyses {files : List SourceFile} {analyses : List Analysis} {calls : List Call}
    (hpaths : ∀ f ∈ files, ∃ path, f.path = .text path ∧ path ≠ "")
    (hanalyses : Source.analyseAll files = .ok analyses) (hcalls : ∀ c ∈ calls, c.isIngest = true)
    (now : String) :
    (∃ report g, (Ingestion.ingestAnalyses now analyses).run (Graph.ofCalls calls) = .ok report g ∧
      report.skippedFacts = 0 ∧ report.failedFiles = [] ∧
      report.filesProcessed = (files.filter fun f => !(f.content matches .null)).length ∧
      (∀ x, Ingestion.Mentioned (analyses.map (·.toValue)) x → g.hasNode (.text x.id) = true) ∧
      ∀ f, Ingestion.Stated (analyses.map (·.toValue)) f → g.hasEdge (.text f.id) = true) ∧
    ∀ a ∈ analyses, a.facts.imports.Nodup ∧ "" ∉ a.facts.imports ∧
      (a.language = .text "javascript" ∨ a.language = .text "typescript" →
        (a.facts.functions.map (·.name)).Nodup ∧
        (∀ f ∈ a.facts.functions, Source.JavaScript.isKeyword f.name = false) ∧
        ∀ c ∈ a.facts.classes, ∀ method ∈ c.methods,
          Source.JavaScript.isKeyword method.name = false) := by
  obtain ⟨hlength, hfacts⟩ := Source.analyses_of_analyseAll hanalyses
  constructor
  · have hnamed : ∀ a ∈ analyses, a.path.isFalsy = false := by
      intro a ha
      obtain ⟨-, f, hf, hanalyse⟩ := hfacts a ha
      obtain ⟨path, hpath, hne⟩ := hpaths f hf
      obtain ⟨facts, -, ha⟩ := Except.bind_eq_ok.1 hanalyse
      cases ha
      change f.path.isFalsy = false
      rw [hpath, Value.isFalsy_text hne]
    have hkeyed := Graph.nodesKeyed_ofCalls calls
    have hread : ∀ v ∈ analyses.map (·.toValue), ∃ r?, Record.read? v = .ok r? := fun _ hv =>
      Analysis.exists_read?_of_mem hv
    obtain ⟨report, g, hrun, -⟩ := Ingestion.exists_run_ingest now hkeyed
      (Graph.textConcepts_of_ingests hcalls) hread
    have hwrites := Ingestion.ingest_effect hkeyed ▸ Change.effect_of_ok hrun
    refine ⟨report, g, by rw [Ingestion.ingestAnalyses_eq hnamed]; exact hrun, ?_⟩
    rw [Ingestion.report_of_ingest hkeyed hrun, Ingestion.readRecords_analyses hnamed,
      Ingestion.failed_analyses hnamed]
    refine ⟨?_, rfl, ?_, fun x hx => Ingestion.hasNode_of_mentioned hread hwrites hx,
      fun f hf => Ingestion.hasEdge_of_stated hread hwrites hf⟩
    · rw [List.map_map, List.sum_eq_zero]
      intro n hn
      obtain ⟨a, ha, rfl⟩ := List.mem_map.1 hn
      exact Analysis.skipped_record (hfacts a ha).1
    · rw [List.length_map, hlength]
  · intro a ha
    obtain ⟨husable, f, -, hanalyse⟩ := hfacts a ha
    exact ⟨husable.distinct, husable.imports, Source.names_of_analyse hanalyse⟩

/-- A Python file, a JavaScript file, and a file that could not be read. -/
def sourceFiles : List SourceFile := [
  { path := .text "a.py", language := .text "python",
    content := .text "import os, re\nclass A(B):\n    def save(self):\n        pass\n" },
  { path := .text "b.js", language := .text "javascript",
    content := .text "import x from 'react';\nclass C \x7b\n  load() \x7b \x7d\n\x7d\nfunction f() \x7b \x7d" },
  { path := .text "c.ts", language := .text "typescript" }]

def sourceCalls : List Call := [.ingest "t0" [.fields [("path", .text "a.py"), ("classes", .text "A")]]]

theorem isIngest_sourceCalls : ∀ c ∈ sourceCalls, c.isIngest = true := by decide

theorem ingestion_of_sourceFiles :
    ∃ analyses report g, Source.analyseAll sourceFiles = .ok analyses ∧
      (Ingestion.ingestAnalyses "t1" analyses).run (Graph.ofCalls sourceCalls) = .ok report g ∧
      report.skippedFacts = 0 ∧ report.failedFiles = [] ∧ report.filesProcessed = 2 := by
  have hok : (Source.analyseAll sourceFiles).isOk = true := by decide +kernel
  have hpaths : ∀ f ∈ sourceFiles, ∃ path, f.path = .text path ∧ path ≠ "" := by simp [sourceFiles]
  cases hanalyses : Source.analyseAll sourceFiles with
  | error e =>
    rw [hanalyses] at hok
    cases hok
  | ok analyses =>
    obtain ⟨⟨report, g, hrun, hskipped, hfailed, hprocessed, -⟩, -⟩ :=
      ingestion_of_analyses hpaths hanalyses isIngest_sourceCalls "t1"
    exact ⟨analyses, report, g, rfl, hrun, hskipped, hfailed, hprocessed⟩

end CodeAtlas
