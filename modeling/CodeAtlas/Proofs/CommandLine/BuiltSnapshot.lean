import CodeAtlas.Proofs.Graph.Saved
import CodeAtlas.Proofs.Pipeline.Build
import CodeAtlas.Proofs.Value.ReadsBack

/-! Commands on a snapshot that was built. What a build writes is read back as a graph that shows the same in
the same order, so the statistics are those that the build printed and every question has the answer that the
graph in memory has. -/

namespace CodeAtlas

namespace Command

variable {settings : Settings} {now path folder : String} {withPatterns : Bool} {root tree : Entry}

/-- How a command ends that only works out an answer: the files stay as they are. -/
def outcome (tree : Entry) : Checked Value → EStateM.Result Fault Entry RunResult
  | .ok answer => .ok ⟨0, printed answer⟩ tree
  | .error e => if e.isReported then .ok ⟨1, ""⟩ tree else .error e tree

theorem run_eq_outcome {i : Invocation} {answer : Checked Value}
    (h : (execute settings now i).run tree = (FileChange.check answer).run tree) :
    (runCommand settings now i).run tree = outcome tree answer := by
  rw [runCommand, run_tryCatch, EStateM.run_bind, h]
  cases answer with
  | ok v => rfl
  | error e =>
    change (if e.isReported then return ⟨1, ""⟩ else throw e : FileChange RunResult).run tree = _
    rw [outcome]
    split <;> rfl

theorem run_stats :
    (runCommand settings now ⟨path, .stats⟩).run tree =
      outcome tree (do return (← Snapshot.load now path tree).stats.toValue) := by
  refine run_eq_outcome ?_
  rw [FileChange.check_bind]
  rfl

theorem run_query {kind : String} {filters : List (String × Value)} {limit : Int} :
    (runCommand settings now ⟨path, .query kind filters limit⟩).run tree =
      outcome tree (do
        let g ← Snapshot.load now path tree
        let r ← QueryRequest.read (request kind filters limit)
        return .list (← (QueryEngine.ofSettings settings g).answer settings r)) := by
  refine run_eq_outcome ?_
  simp only [FileChange.check_bind]
  rfl

/-- A build that ends well has built a graph, saved it and printed its statistics. -/
theorem exists_graph_of_run {out : String}
    (h : (runCommand settings now ⟨path, .build folder withPatterns⟩).run root = .ok ⟨0, out⟩ tree) :
    ∃ report g, (Graph.buildFromFolder settings now withPatterns (Scan.folderAt root folder)).run .empty =
        .ok report g ∧
      (Snapshot.save now path g).run root = .ok () tree ∧
      out = printed (.fields [("ingestion", report.toValue), ("stats", g.stats.toValue)]) := by
  rw [runCommand, run_tryCatch, EStateM.run_bind] at h
  cases hexecute : (execute settings now ⟨path, .build folder withPatterns⟩).run root with
  | error e tree' =>
    rw [hexecute] at h
    change (if e.isReported then return ⟨1, ""⟩ else throw e : FileChange RunResult).run tree' = _ at h
    split at h <;> cases h
  | ok v tree' =>
    rw [hexecute] at h
    cases h
    rw [execute, FileChange.run_get_bind] at hexecute
    cases hbuild : (Graph.buildFromFolder settings now withPatterns (Scan.folderAt root folder)).run .empty with
    | error e g =>
      rw [hbuild] at hexecute
      cases hexecute
    | ok report g =>
      rw [hbuild] at hexecute
      obtain ⟨_, _, hsave, hanswer⟩ := run_bind_eq_ok hexecute
      cases hanswer
      exact ⟨report, g, rfl, hsave, rfl⟩

/-- Commands on the snapshot of a build answer as the graph that was built. Let a build end with exit code 0,
let no two of the texts that it hashed have one id, and let the document that it wrote be read back as it was.
Then it printed the report and the statistics of a graph; the statistics command prints these statistics
again, and a query prints what the graph answers, or ends as the query on the graph does. The commands may
run at any later time, with other settings and under any spelling of the snapshot's path that names a
file; one that ends in a slash asks for a folder. -/
theorem answers_of_built_snapshot {out : String} (hnow : now ≠ "")
    (hrun : (runCommand settings now ⟨path, .build folder withPatterns⟩).run root = .ok ⟨0, out⟩ tree)
    (hids : NoCollision
      (Graph.hashedTexts (Graph.buildCalls settings now withPatterns (Scan.folderAt root folder))))
    (hjson : ∀ report g d,
      (Graph.buildFromFolder settings now withPatterns (Scan.folderAt root folder)).run .empty =
        .ok report g →
      Snapshot.documentAt now path g root = .ok d → Value.parse (d.write .readable) = .ok d) :
    ∃ report g,
      (Graph.buildFromFolder settings now withPatterns (Scan.folderAt root folder)).run .empty =
        .ok report g ∧
      out = printed (.fields [("ingestion", report.toValue), ("stats", g.stats.toValue)]) ∧
      ∀ (settings' : Settings) (now' path' : String), Path.ofText path' = Path.ofText path → path' ≠ "" →
        path'.toList.getLast? ≠ some '/' →
        (runCommand settings' now' ⟨path', .stats⟩).run tree = .ok ⟨0, printed g.stats.toValue⟩ tree ∧
        ∀ kind filters limit,
          (runCommand settings' now' ⟨path', .query kind filters limit⟩).run tree =
            outcome tree (do
              let r ← QueryRequest.read (request kind filters limit)
              return .list (← (QueryEngine.ofSettings settings' g).answer settings' r)) := by
  obtain ⟨report, g, hbuild, hsave, hout⟩ := exists_graph_of_run hrun
  refine ⟨report, g, hbuild, hout, fun settings' now' path' hpath hempty hslash => ?_⟩
  obtain ⟨g', hok, hlike⟩ := Graph.exists_readsLike_of_build hnow hids hbuild now'
  have hload : Snapshot.load now' path' tree = .ok g' := by
    rw [Snapshot.load_of_save hsave (fun d => hjson report g d hbuild) hpath hempty hslash, hok]
  constructor
  · rw [run_stats, hload, hlike.stats_eq]
    rfl
  · intro kind filters limit
    rw [run_query, hload]
    have hanswer : ∀ r, (QueryEngine.ofSettings settings' g).answer settings' r =
        (QueryEngine.ofSettings settings' g').answer settings' r :=
      fun r => QueryEngine.answer_congr hlike
    simp only [hanswer]
    rfl

def endsWell : EStateM.Result Fault Entry RunResult → Bool
  | .ok r _ => r.exitCode = 0
  | .error .. => false

theorem exists_of_endsWell {r : EStateM.Result Fault Entry RunResult} (h : endsWell r = true) :
    ∃ out tree, r = .ok ⟨0, out⟩ tree := by
  cases r with
  | ok r tree =>
    obtain ⟨code, out⟩ := r
    have hcode : code = 0 := of_decide_eq_true h
    exact ⟨out, tree, by rw [hcode]⟩
  | error e tree => cases h

def importingTree : Entry := .folder [("p", .folder [("a.py", .file "import os\n".toUTF8)])]

theorem noCollision_importingTree : NoCollision
    (Graph.hashedTexts (Graph.buildCalls {} "t1" false (Scan.folderAt importingTree "p"))) := by
  decide +kernel

/-- The build of the folder succeeds, and its document reads back. -/
theorem exists_run_importingTree :
    (∃ out tree, (runCommand {} "t1" ⟨"g.json", .build "p" false⟩).run importingTree = .ok ⟨0, out⟩ tree) ∧
      ∀ report g d,
        (Graph.buildFromFolder {} "t1" false (Scan.folderAt importingTree "p")).run .empty = .ok report g →
        Snapshot.documentAt "t1" "g.json" g importingTree = .ok d →
        Value.parse (d.write .readable) = .ok d := by
  have hends : endsWell ((runCommand {} "t1" ⟨"g.json", .build "p" false⟩).run importingTree) = true := by
    decide +kernel
  have hreads : (Snapshot.documentAt "t1" "g.json"
      ((Graph.buildFromFolder {} "t1" false (Scan.folderAt importingTree "p")).after .empty)
      importingTree).toOption.all (·.readsBack .readable) = true := by
    decide +kernel
  refine ⟨exists_of_endsWell hends, fun report g d hbuild hd => ?_⟩
  rw [Change.after_of_ok hbuild, hd, Except.toOption, Option.all_some] at hreads
  exact Value.parse_write_of_readsBack hreads

/-- The statistics of the folder with one file, asked of its snapshot and of the graph. -/
theorem answers_of_importingTree :
    ∃ out tree, ∃ report : IngestionReport, ∃ g : Graph,
      (runCommand {} "t1" ⟨"g.json", .build "p" false⟩).run importingTree = .ok ⟨0, out⟩ tree ∧
      out = printed (.fields [("ingestion", report.toValue), ("stats", g.stats.toValue)]) ∧
      (runCommand {} "t2" ⟨"./g.json", .stats⟩).run tree = .ok ⟨0, printed g.stats.toValue⟩ tree ∧
      ∀ kind filters limit,
        (runCommand {} "t2" ⟨"./g.json", .query kind filters limit⟩).run tree =
          outcome tree (do
            let r ← QueryRequest.read (request kind filters limit)
            return .list (← (QueryEngine.ofSettings {} g).answer {} r)) := by
  obtain ⟨⟨out, tree, hrun⟩, hjson⟩ := exists_run_importingTree
  obtain ⟨report, g, -, hout, hcommands⟩ :=
    answers_of_built_snapshot (by decide) hrun noCollision_importingTree hjson
  obtain ⟨hstats, hqueries⟩ := hcommands {} "t2" "./g.json" (by decide) (by decide) (by decide)
  exact ⟨out, tree, report, g, hrun, hout, hstats, hqueries⟩

end Command

end CodeAtlas
