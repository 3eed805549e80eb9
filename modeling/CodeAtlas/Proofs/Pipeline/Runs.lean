import CodeAtlas.Proofs.Pipeline.Schema

/-! Runs of ingestion and discovery, in any order and with failing calls. The texts that a run hashes are
collected call by call, as what is discovered depends on the graph; if no two of them have one id, the
schema holds at every moment of the run. -/

namespace CodeAtlas

namespace Call

/-- Whether a call ingests records with textual paths, or discovers. -/
def isPipeline : Call → Bool
  | ingest now records => (ingest now records).hasTextNames
  | discover .. => true
  | _ => false

def hashedTexts (g : Graph) : Call → List String
  | ingest _ records => Ingestion.hashedTexts (Ingestion.readable records)
  | discover _ threshold => Discovery.hashedTexts threshold g
  | _ => []

end Call

namespace Graph

def hashedFrom (g : Graph) : List Call → List String
  | [] => []
  | c :: rest => c.hashedTexts g ++ hashedFrom (c.after g) rest

/-- The texts that a run of the pipeline hashes. -/
def hashedTexts (calls : List Call) : List String := hashedFrom .empty calls

variable {texts : List String} {g : Graph} {calls : List Call}

theorem hashedFrom_append {more : List Call} :
    hashedFrom g (calls ++ more) = hashedFrom g calls ++ hashedFrom (calls.foldl Call.after g) more := by
  induction calls generalizing g with
  | nil => rfl
  | cons c rest ih =>
    rw [List.cons_append, hashedFrom, hashedFrom, ih, List.append_assoc]
    rfl

theorem hashedTexts_append {c : Call} :
    hashedTexts (calls ++ [c]) = hashedTexts calls ++ c.hashedTexts (ofCalls calls) := by
  rw [hashedTexts, hashedFrom_append, hashedFrom, hashedFrom, List.append_nil]
  rfl

end Graph

namespace Call

variable {texts : List String} {g : Graph} {c : Call}

theorem exists_path_of_hasTextNames (now : String) {records : List Value}
    (h : (ingest now records).hasTextNames = true) :
    ∀ v ∈ records, ∀ r, Record.read? v = .ok (some r) → ∃ path, r.path = .text path := by
  intro v hv r hr
  have hrecord := List.all_eq_true.1 h v hv
  rw [hr] at hrecord
  exact Value.isText_iff.1 hrecord

theorem reached_fits (hc : c.isPipeline = true) (h : Schematic texts g) (hkeyed : g.NodesKeyed)
    (htexts : ∀ t ∈ c.hashedTexts g, t ∈ texts) : Write.Reached (Write.Fits texts) (c.writes g) := by
  cases c with
  | ingest now records => exact Ingestion.reached_fits (exists_path_of_hasTextNames now hc) htexts
  | discover now threshold => exact Discovery.reached_fits h hkeyed htexts
  | addNode now id data => cases hc
  | addRelationship now source target kind properties => cases hc
  | importExport now data => cases hc

theorem replaces_of_isPipeline (hc : c.isPipeline = true) : c.replaces = false := by
  cases c with
  | importExport now data => cases hc
  | _ => rfl

theorem schematic_steps (hc : c.isPipeline = true) (h : Schematic texts g) (hkeyed : g.NodesKeyed)
    (htexts : ∀ t ∈ c.hashedTexts g, t ∈ texts) :
    (∀ s ∈ c.steps g, Schematic texts s.before ∧ Schematic texts s.after) ∧ Schematic texts (c.after g) := by
  rw [after_eq hkeyed (replaces_of_isPipeline hc)]
  exact Write.steps_reached (fun w g hw h => h.run hw) (reached_fits hc h hkeyed htexts) h

end Call

namespace Graph

variable {texts : List String} {g : Graph} {calls : List Call}

theorem schematic_stepsFrom (hcalls : ∀ c ∈ calls, c.isPipeline = true) (h : Schematic texts g)
    (hkeyed : g.NodesKeyed) (htexts : ∀ t ∈ hashedFrom g calls, t ∈ texts) :
    (∀ s ∈ stepsFrom g calls, Schematic texts s.before ∧ Schematic texts s.after) ∧
      Schematic texts (calls.foldl Call.after g) := by
  induction calls generalizing g with
  | nil => exact ⟨fun s hs => absurd hs List.not_mem_nil, h⟩
  | cons c rest ih =>
    obtain ⟨hsteps, hafter⟩ := Call.schematic_steps (hcalls c List.mem_cons_self) h hkeyed
      fun t ht => htexts t (List.mem_append_left _ ht)
    obtain ⟨hrest, hend⟩ := ih (fun c hc => hcalls c (List.mem_cons_of_mem _ hc)) hafter
      (Call.nodesKeyed_after hkeyed c) fun t ht => htexts t (List.mem_append_right _ ht)
    refine ⟨fun s hs => ?_, hend⟩
    rcases List.mem_append.1 hs with hs | hs
    · exact hsteps s hs
    · exact hrest s hs

theorem schematic_ofCalls (hcalls : ∀ c ∈ calls, c.isPipeline = true)
    (htexts : ∀ t ∈ hashedTexts calls, t ∈ texts) :
    (∀ s ∈ steps calls, Schematic texts s.before ∧ Schematic texts s.after) ∧
      Schematic texts (ofCalls calls) :=
  schematic_stepsFrom hcalls (.empty texts) linked_empty.nodes_keyed htexts

/-- A step of a run takes no node away, unless it replaces the whole graph. -/
theorem hasNode_after_step {s : Step} (hs : s ∈ steps calls) {k : Scalar}
    (hk : s.before.hasNode k = true) : s.after.hasNode k = true := by
  rcases step_cases hs with hsame | ⟨now, id, d, hwrite⟩ | ⟨e, -, -, hedge⟩
  · rwa [hsame]
  · rw [hwrite]
    rcases after_writeNode s.before now id d with hsame | ⟨c, hwritten, -⟩
    · rwa [hsame]
    · rw [hwritten]
      exact Table.contains_insert_of_contains hk
  · rw [hedge, hasNode_putEdge]
    exact hk

end Graph

theorem RelationKind.Joins.cases {kind : RelationKind} {a b : NodeKind} (h : kind.Joins a b) :
    kind = .partOf ∧ (a = .function ∨ a = .classDecl) ∧ b = .file ∨
      kind = .dependsOn ∧ a = .file ∧ b = .dependency ∨
      kind = .implements ∧ a ≠ .concept ∧ b = .concept := by
  cases h with
  | functionOfFile => exact Or.inl ⟨rfl, Or.inl rfl, rfl⟩
  | classOfFile => exact Or.inl ⟨rfl, Or.inr rfl, rfl⟩
  | imported => exact Or.inr (Or.inl ⟨rfl, rfl, rfl⟩)
  | implemented h => exact Or.inr (Or.inr ⟨rfl, h, rfl⟩)

/-- After any ingestions of records with textual paths and any discoveries, failing ones included, if no two
of the texts that were hashed have one id: an edge makes a function or class part of a file, a file
depend on a dependency, or something that is no concept implement a concept, and never joins a node to
itself. And at every write of the run all nodes stay and keep their kinds; what stands under an id at two
moments of the run is of one kind. -/
theorem schema_of_calls (calls : List Call) (hcalls : ∀ c ∈ calls, c.isPipeline = true)
    (hids : NoCollision (Graph.hashedTexts calls)) :
    let g := Graph.ofCalls calls
    (∀ e ∈ g.edges.values, ∃ n m, g.nodes.get? e.source = some n ∧ g.nodes.get? e.target = some m ∧
      e.source.canon ≠ e.target.canon ∧
      (e.kind = .partOf ∧ (n.kind = .function ∨ n.kind = .classDecl) ∧ m.kind = .file ∨
        e.kind = .dependsOn ∧ n.kind = .file ∧ m.kind = .dependency ∨
        e.kind = .implements ∧ n.kind ≠ .concept ∧ m.kind = .concept)) ∧
    (∀ s ∈ Graph.steps calls, ∀ k n, s.before.nodes.get? k = some n →
      ∃ m, s.after.nodes.get? k = some m ∧ m.kind = n.kind) ∧
    (∀ s ∈ Graph.steps calls, ∀ s' ∈ Graph.steps calls, ∀ k n m, s.after.nodes.get? k = some n →
      s'.after.nodes.get? k = some m → m.kind = n.kind) := by
  intro g
  obtain ⟨hsteps, hend⟩ := Graph.schematic_ofCalls hcalls fun _ ht => ht
  refine ⟨?_, ?_, ?_⟩
  · intro e he
    obtain ⟨k, hk⟩ := Table.mem_values_iff.1 he
    obtain ⟨n, m, hn, hm, hjoins, hne⟩ := hend.exists_ends hids hk
    exact ⟨n, m, hn, hm, hne, hjoins.cases⟩
  · intro s hs k n hn
    obtain ⟨m, hm⟩ := Graph.hasNode_iff.1 (Graph.hasNode_after_step hs (Table.contains_of_get? hn))
    exact ⟨m, hm, (hsteps s hs).2.kind_eq hids ((hsteps s hs).1.nodes k n hn) hm⟩
  · intro s hs s' hs' k n m hn hm
    exact (hsteps s' hs').2.kind_eq hids ((hsteps s hs).2.nodes k n hn) hm

def importingFile : Call :=
  .ingest "t1" [.fields [("path", .text "a"), ("imports", .list [.text "b"])]]

def importingRun : List Call := [importingFile, .discover "t2" (.int 1)]

theorem noCollision_importingRun :
    NoCollision (Graph.hashedTexts importingRun) ∧ (Graph.ofCalls importingRun).edges.size = 4 := by
  decide +kernel

theorem schema_importingRun :
    (∀ c ∈ importingRun, c.isPipeline = true) ∧ NoCollision (Graph.hashedTexts importingRun) ∧
      (Graph.ofCalls importingRun).edges.size = 4 ∧
      ∀ e ∈ (Graph.ofCalls importingRun).edges.values, e.source.canon ≠ e.target.canon := by
  have hcalls : ∀ c ∈ importingRun, c.isPipeline = true := by decide
  obtain ⟨hids, hsize⟩ := noCollision_importingRun
  refine ⟨hcalls, hids, hsize, fun e he => ?_⟩
  obtain ⟨_, _, -, -, hne, -⟩ := (schema_of_calls importingRun hcalls hids).1 e he
  exact hne

end CodeAtlas
