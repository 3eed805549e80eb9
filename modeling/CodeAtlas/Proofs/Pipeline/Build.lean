import CodeAtlas.CommandLine.Command
import CodeAtlas.Proofs.Ingestion.Accepted
import CodeAtlas.Proofs.Pipeline.Exact
import CodeAtlas.Proofs.Pipeline.Rediscovery
import CodeAtlas.Proofs.Query.SameAnswers

/-! Building a graph from a folder. A build is a run of the pipeline, one ingestion and perhaps one
discovery, so its graph can be written down, and what is read back has the same statistics and answers.
It fails only if the files cannot be analysed. -/

namespace CodeAtlas

namespace Scan

variable {settings : Settings} {folder : Entry} {analyses : List Analysis}

theorem path_of_analyse {f : ScannedFile} {content : String} {a : Analysis}
    (h : Source.analyse (sourceFile f content) = .ok a) : a.path = .text f.path := by
  obtain ⟨facts, -, h⟩ := Except.bind_eq_ok.1 h
  cases h
  rfl

theorem exists_path_of_mem_analyses (h : Scan.analyses settings folder = .ok analyses) :
    ∀ a ∈ analyses, ∃ path, a.path = .text path := by
  obtain ⟨_, -, h⟩ := Except.bind_eq_ok.1 h
  intro a ha
  obtain ⟨source, hsource, hanalyse⟩ := mem_of_mapM_ok h a ha
  obtain ⟨⟨f, content⟩, -, rfl⟩ := List.mem_map.1 (List.mem_filter.1 hsource).1
  exact ⟨f.path, path_of_analyse hanalyse⟩

end Scan

namespace Ingestion

variable {now : String} {g : Graph} {analyses : List Analysis}

theorem ingestAnalyses_effect (h : g.NodesKeyed) :
    (ingestAnalyses now analyses).effect g = (ingest now (analyses.map Analysis.toValue)).effect g := by
  rw [ingest_effect h]
  exact foldlM_effect Analysis.toValue (fun _ _ _ => ingestRead_effect) h

theorem after_ingestAnalyses (h : g.NodesKeyed) :
    (ingestAnalyses now analyses).after g = (ingest now (analyses.map Analysis.toValue)).after g :=
  Change.after_eq_of_effect_eq (ingestAnalyses_effect h)

theorem after_ingest_of_ok {report : IngestionReport} {g' : Graph} (h : g.NodesKeyed)
    (hrun : (ingestAnalyses now analyses).run g = .ok report g') :
    (ingest now (analyses.map Analysis.toValue)).after g = g' := by
  rw [← after_ingestAnalyses h]
  exact Change.after_of_ok hrun

theorem exists_ingestAnalyses (now : String) (analyses : List Analysis) (hkeyed : g.NodesKeyed)
    (h : g.TextConcepts) : ∃ report g', (ingestAnalyses now analyses).run g = .ok report g' := by
  obtain ⟨report, g', hrun, -⟩ :=
    exists_run_ingest now hkeyed h fun _ hv => Analysis.exists_read?_of_mem hv
  have heffect := (@ingestAnalyses_effect now g analyses hkeyed).trans (Change.effect_of_ok hrun)
  obtain ⟨report', hrun'⟩ := Change.exists_run_of_effect heffect
  exact ⟨report', g', hrun'⟩

end Ingestion

theorem Discovery.exists_discover {calls : List Call} (hcalls : ∀ c ∈ calls, c.isPipeline = true) (now : String)
    {threshold : Value} {least : Int} (hthreshold : threshold.ceiling = .ok least) :
    ∃ found g, (discover now threshold).run (Graph.ofCalls calls) = .ok found g := by
  obtain ⟨found, hfound⟩ := exists_detect (Graph.scannable_ofCalls hcalls).of_mem_values hthreshold
  have hkeyed := Graph.nodesKeyed_ofCalls calls
  have hschema := (Graph.schematic_ofCalls hcalls fun _ ht => ht).2
  exact ⟨found, _, discover_run now hkeyed hfound (hasNode_of_detect hschema hkeyed hfound)⟩

namespace Graph

variable {settings : Settings} {now : String} {withPatterns : Bool} {folder : Entry}

/-- The calls that a build from a folder makes. -/
def buildCalls (settings : Settings) (now : String) (withPatterns : Bool) (folder : Entry) : List Call :=
  match Scan.analyses settings folder with
  | .error _ => []
  | .ok analyses =>
    .ingest now (analyses.map Analysis.toValue) ::
      if withPatterns then [.discover now (.int settings.heavyUsageThreshold)] else []

/-- A build leaves the graph that its calls leave. -/
theorem ofCalls_buildCalls {report : IngestionReport} {g : Graph}
    (h : (buildFromFolder settings now withPatterns folder).run .empty = .ok report g) :
    ofCalls (buildCalls settings now withPatterns folder) = g := by
  obtain ⟨analyses, g₀, hcheck, h⟩ := Change.run_bind_ok h
  cases hanalyses : Scan.analyses settings folder with
  | error e =>
    rw [hanalyses] at hcheck
    cases hcheck
  | ok _ =>
    rw [hanalyses] at hcheck
    cases hcheck
    obtain ⟨report', g₁, hingest, h⟩ := Change.run_bind_ok h
    have hafter := Ingestion.after_ingest_of_ok linked_empty.nodes_keyed hingest
    cases withPatterns with
    | false =>
      cases h
      rw [buildCalls, hanalyses]
      exact hafter
    | true =>
      obtain ⟨_, g₂, hdiscover, h⟩ := Change.run_bind_ok h
      cases h
      rw [buildCalls, hanalyses]
      change (Discovery.discover now (.int settings.heavyUsageThreshold)).after
        ((Ingestion.ingest now (analyses.map Analysis.toValue)).after .empty) = g
      rw [hafter]
      exact Change.after_of_ok hdiscover

theorem isPipeline_ingest (now : String) {analyses : List Analysis}
    (h : ∀ a ∈ analyses, ∃ path, a.path = .text path) :
    (Call.ingest now (analyses.map Analysis.toValue)).isPipeline = true := by
  refine List.all_eq_true.2 fun v hv => ?_
  obtain ⟨a, ha, rfl⟩ := List.mem_map.1 hv
  obtain ⟨path, hpath⟩ := h a ha
  split
  · rename_i r hr
    have hfield : a.toValue.field "path" = .ok a.path := rfl
    rcases Ingestion.read?_cases hr hfield with ⟨-, hnone⟩ | ⟨-, r', hr', hrpath⟩
    · cases hnone
    · cases hr'
      exact Value.isText_iff.2 ⟨path, hrpath.trans hpath⟩
  · rfl

theorem isPipeline_buildCalls :
    ∀ c ∈ buildCalls settings now withPatterns folder, c.isPipeline = true ∧ c.now = now := by
  unfold buildCalls
  split
  · exact nofun
  · rename_i analyses hanalyses
    intro c hc
    rcases List.mem_cons.1 hc with rfl | hc
    · exact ⟨isPipeline_ingest now (Scan.exists_path_of_mem_analyses hanalyses), rfl⟩
    · split at hc
      · rw [List.mem_singleton.1 hc]
        exact ⟨rfl, rfl⟩
      · cases hc

theorem run_build_of_error {g : Graph} {e : Fault} (h : Scan.analyses settings folder = .error e) :
    (buildFromFolder settings now withPatterns folder).run g = .error e g := by
  rw [buildFromFolder, h]
  rfl

/-- A build succeeds if the files can be analysed. -/
theorem exists_build {analyses : List Analysis} (now : String) (withPatterns : Bool)
    (h : Scan.analyses settings folder = .ok analyses) :
    ∃ report g, (buildFromFolder settings now withPatterns folder).run .empty = .ok report g := by
  have hkeyed : NodesKeyed .empty := linked_empty.nodes_keyed
  obtain ⟨report, g, hingest⟩ :=
    Ingestion.exists_ingestAnalyses now analyses hkeyed fun _ _ hnone => nomatch hnone
  have hbuild : (buildFromFolder settings now withPatterns folder).run .empty =
      (if withPatterns then do
          let _ ← Discovery.discover now (.int settings.heavyUsageThreshold)
          return report
        else return report : Change IngestionReport).run g := by
    rw [buildFromFolder, h]
    change (Graph.build now _ withPatterns (Ingestion.ingestAnalyses now analyses)).run .empty = _
    unfold Graph.build
    rw [EStateM.run_bind, hingest]
  cases withPatterns with
  | false => exact ⟨report, g, hbuild⟩
  | true =>
    have hg : ofCalls [.ingest now (analyses.map Analysis.toValue)] = g :=
      Ingestion.after_ingest_of_ok hkeyed hingest
    have hcalls : ∀ c ∈ [Call.ingest now (analyses.map Analysis.toValue)], c.isPipeline = true := by
      intro c hc
      rw [List.mem_singleton.1 hc]
      exact isPipeline_ingest now (Scan.exists_path_of_mem_analyses h)
    obtain ⟨found, g', hdiscover⟩ :=
      @Discovery.exists_discover _ hcalls now (.int settings.heavyUsageThreshold) _ rfl
    rw [hg] at hdiscover
    refine ⟨report, g', hbuild.trans ?_⟩
    rw [if_pos rfl, EStateM.run_bind, hdiscover]
    rfl

theorem recorded_of_build {report : IngestionReport} {g : Graph}
    (h : (buildFromFolder settings now withPatterns folder).run .empty = .ok report g) :
    Recorded g (History.ofCalls (buildCalls settings now withPatterns folder)).stored := by
  have hrecorded : Recorded _ _ := recorded_ofCalls fun c hc =>
    (Call.hasTexts_of_isPipeline (@isPipeline_buildCalls settings now withPatterns folder c hc).1).1
  rwa [History.graph_ofCalls, ofCalls_buildCalls h] at hrecorded

/-- The export of a built graph reads back as one that shows the same in the same order. -/
theorem exists_readsLike_of_build {report : IngestionReport} {g : Graph} (hnow : now ≠ "")
    (hids : NoCollision (hashedTexts (buildCalls settings now withPatterns folder)))
    (h : (buildFromFolder settings now withPatterns folder).run .empty = .ok report g) (now' : String) :
    ∃ g', ofExport now' g.toValue = .ok g' ∧ g.ReadsLike g' := by
  have hcalls : ∀ c ∈ buildCalls settings now withPatterns folder, c.isPipeline = true :=
    fun c hc => (isPipeline_buildCalls c hc).1
  have hconds : ∀ c ∈ buildCalls settings now withPatterns folder,
      c.hasTextIds = true ∧ c.hasTextNames = true ∧ c.now ≠ "" := by
    intro c hc
    obtain ⟨hpipeline, hcnow⟩ := isPipeline_buildCalls c hc
    obtain ⟨hid, hname⟩ := Call.hasTexts_of_isPipeline hpipeline
    exact ⟨hid, hname, hcnow ▸ hnow⟩
  obtain ⟨hrec, hr⟩ := readable_ofCalls hconds
  obtain ⟨hlists, hindexes⟩ := listed_ofPipeline hcalls hids
  rw [History.graph_ofCalls, ofCalls_buildCalls h] at hrec hr
  rw [ofCalls_buildCalls h] at hlists hindexes
  have hl : g.Linked := hrec.account.linked
  obtain ⟨c, hok, -, hiff⟩ := ofExport_toValue hl hrec.texts hr now'
  have hsame : g.Same { g.rebuilt with concepts := c } :=
    (same_rebuilt_iff hl hrec.texts hr).2 ⟨hlists, hiff.2 ((indexesConcepts_iff hr).1 hindexes)⟩
  exact ⟨_, hok, hsame.readsLike hl hrec.texts⟩

end Graph

end CodeAtlas
