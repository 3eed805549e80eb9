import CodeAtlas.Proofs.Graph.Connections
import CodeAtlas.Proofs.Ingestion.Report

/-! Ingestion done again. Whatever was in the graph and whatever the records repeat, the second run makes
nothing new and leaves the graph as the first one left it, but for times. -/

namespace CodeAtlas

theorem Table.size_mapValues {α β : Type} {f : α → β} {t : Table α} : (t.mapValues f).size = t.size := by
  rw [size_eq_length_keys, size_eq_length_keys, keys_mapValues]

theorem Graph.size_eq_of_untimed_eq {g g' : Graph} (h : g'.untimed = g.untimed) :
    g'.nodes.size = g.nodes.size ∧ g'.edges.size = g.edges.size := by
  have hnodes := congrArg (·.nodes.size) h
  have hedges := congrArg (·.edges.size) h
  simpa only [untimed, Table.size_mapValues] using And.intro hnodes hedges

namespace Ingestion

/-- Records that were ingested into a graph that calls have led to can be ingested again: the report is the
same, but nothing is created, and the graph stays the same, but for the times at which its nodes were last
written and its edges were stored. -/
theorem ingest_again {calls : List Call} {now : String} {records : List Value}
    {report : IngestionReport} {g : Graph}
    (hrun : (ingest now records).run (Graph.ofCalls calls) = .ok report g) (now' : String) :
    ∃ g', (ingest now' records).run g = .ok { report with nodesCreated := 0, edgesCreated := 0 } g' ∧
      g'.untimed = g.untimed := by
  have hkeyed := Graph.nodesKeyed_ofCalls calls
  have hwrites : (Write.runAll now (writes records)).run (Graph.ofCalls calls) = .ok () g := by
    rw [← ingest_effect hkeyed, Change.effect_of_ok hrun]
  have hkeyed' := nodesKeyed_of_runAll hkeyed hwrites
  obtain ⟨g', hwrites', hsame⟩ := Write.runAll_again (repeatable_writes records) hwrites now'
  rw [← ingest_effect hkeyed'] at hwrites'
  obtain ⟨report', hrun'⟩ := Change.exists_run_of_effect hwrites'
  obtain ⟨hnodes, hedges⟩ := Graph.size_eq_of_untimed_eq hsame
  have hreport : report' = { report with nodesCreated := 0, edgesCreated := 0 } := by
    rw [report_of_ingest hkeyed' hrun', report_of_ingest hkeyed hrun, hnodes, hedges]
    simp
  exact ⟨g', hreport ▸ hrun', hsame⟩

/-- Two records of one file that differ, and a value that names no file. -/
def repeatedRecords : List Value := [
  .fields [("path", .text "a.py"), ("size", .int 1)],
  .fields [("path", .text "a.py"), ("size", .int 2)],
  .null]

theorem ingest_again_repeatedRecords :
    ∃ report g g', (ingest "t5" repeatedRecords).run (Graph.ofCalls sampleCalls) = .ok report g ∧
      (ingest "t6" repeatedRecords).run g =
        .ok { report with nodesCreated := 0, edgesCreated := 0 } g' ∧
      g'.untimed = g.untimed := by
  have hok : (match (ingest "t5" repeatedRecords).run (Graph.ofCalls sampleCalls) with
      | .ok .. => true
      | .error .. => false) = true := by
    decide +kernel
  split at hok
  · rename_i report g hrun
    obtain ⟨g', hrun', hsame⟩ := ingest_again hrun "t6"
    exact ⟨report, g, g', hrun, hrun', hsame⟩
  · cases hok

end Ingestion

end CodeAtlas
