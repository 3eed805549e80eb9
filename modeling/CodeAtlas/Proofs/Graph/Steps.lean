import CodeAtlas.Proofs.Graph.Connections

/-! Runs seen write by write. A call that does not replace the graph does its work in single writes, and each
of them is a step from one graph to the next. What every step keeps holds at every moment of a run, not
only between calls. -/

namespace CodeAtlas

/-- One write of a run: the graph before it and the graph after it. -/
structure Step where
  before : Graph
  after : Graph

namespace Write

/-- The steps of writes in order, up to the first that fails. -/
def steps (now : String) : List Write → Graph → List Step
  | [], _ => []
  | w :: rest, g =>
    ⟨g, (w.run now).after g⟩ ::
      match (w.run now).run g with
      | .ok _ g' => steps now rest g'
      | .error .. => []

/-- Whether all writes up to the first that breaks off are as asked. -/
def Reached (P : Write → Prop) : List Write → Prop
  | [] => True
  | stop _ :: _ => True
  | w :: rest => P w ∧ Reached P rest

variable {now : String} {g : Graph} {w : Write} {ws ws' : List Write} {P : Write → Prop}
  {Inv : Graph → Prop}

theorem Reached.of_forall (h : ∀ w ∈ ws, P w) : Reached P ws := by
  induction ws with
  | nil => trivial
  | cons w rest ih =>
    have hrest := ih fun w hw => h w (List.mem_cons_of_mem _ hw)
    cases w with
    | stop e => trivial
    | node id d => exact ⟨h _ List.mem_cons_self, hrest⟩
    | newNode id d => exact ⟨h _ List.mem_cons_self, hrest⟩
    | link source target kind properties => exact ⟨h _ List.mem_cons_self, hrest⟩

theorem Reached.append (h : Reached P ws) (h' : Reached P ws') : Reached P (ws ++ ws') := by
  induction ws with
  | nil => exact h'
  | cons w rest ih =>
    cases w with
    | stop e => trivial
    | node id d => exact ⟨h.1, ih h.2⟩
    | newNode id d => exact ⟨h.1, ih h.2⟩
    | link source target kind properties => exact ⟨h.1, ih h.2⟩

/-- What a write can do to a graph: nothing, write one node, or store one edge between nodes. -/
theorem after_cases (now : String) (w : Write) (g : Graph) :
    (w.run now).after g = g ∨
      (∃ id d, (w.run now).after g = (Graph.writeNode now id d).after g ∧
        (w = .node id d ∨ w = .newNode id d)) ∨
      ∃ source target kind properties e, w = .link source target kind properties ∧
        (Graph.relate now source target kind properties).run g = .ok e (g.putEdge e) ∧
        (w.run now).after g = g.putEdge e := by
  cases w with
  | node id d =>
    refine Or.inr (Or.inl ⟨id, d, ?_, Or.inl rfl⟩)
    exact Change.after_eq_of_effect_eq (by rw [Change.effect_eq_run, run_node])
  | newNode id d =>
    by_cases hid : g.hasNode id = true
    · exact Or.inl (by rw [Change.after, run_newNode, if_pos hid])
    · refine Or.inr (Or.inl ⟨id, d, ?_, Or.inr rfl⟩)
      exact Change.after_eq_of_effect_eq (by rw [Change.effect_eq_run, run_newNode, if_neg hid])
  | link source target kind properties =>
    rcases link_cases now g source target kind properties with ⟨e, hrel, -, hrun⟩ | ⟨-, hrun⟩
    · exact Or.inr (Or.inr ⟨source, target, kind, properties, e, rfl, hrel, Change.after_of_ok hrun⟩)
    · exact Or.inl hrun
  | stop e => exact Or.inl rfl

theorem after_link {source target : Scalar} {kind : RelationKind} {properties : Properties} :
    ((link source target kind properties).run now).after g =
      (Graph.relate now source target kind properties).after g := by
  rcases link_cases now g source target kind properties with ⟨e, hrel, -, hrun⟩ | ⟨hnone, hrun⟩
  · rw [Change.after_of_ok hrun, Change.after_of_ok hrel]
  · rw [hrun]
    unfold stored? at hnone
    cases hrel : (Graph.relate now source target kind properties).run g with
    | ok e g' =>
      simp [hrel] at hnone
    | error e g' => rw [Change.after_of_error hrel, Graph.relate_error hrel]

theorem mem_steps_cons {s : Step} :
    s ∈ steps now (w :: ws) g ↔
      s = ⟨g, (w.run now).after g⟩ ∨ ∃ g', (w.run now).run g = .ok () g' ∧ s ∈ steps now ws g' := by
  rw [steps, List.mem_cons]
  cases (w.run now).run g with
  | ok u g' => simp
  | error e g' => simp

theorem after_runAll_cons :
    (runAll now (w :: ws)).after g =
      match (w.run now).run g with
      | .ok _ g' => (runAll now ws).after g'
      | .error _ g' => g' := by
  unfold Change.after
  rw [runAll_cons]
  cases (w.run now).run g <;> rfl

theorem after_runAll_singleton : (runAll now [w]).after g = (w.run now).after g := by
  rw [after_runAll_cons, Change.after]
  cases (w.run now).run g <;> rfl

/-- What every step of some writes keeps holds before each of the steps and after all of them. -/
theorem steps_induction (hg : Inv g) (hstep : ∀ s ∈ steps now ws g, Inv s.before → Inv s.after) :
    (∀ s ∈ steps now ws g, Inv s.before) ∧ Inv ((runAll now ws).after g) := by
  induction ws generalizing g with
  | nil => exact ⟨fun s hs => absurd hs List.not_mem_nil, hg⟩
  | cons w rest ih =>
    have hafter : Inv ((w.run now).after g) := hstep _ (mem_steps_cons.2 (Or.inl rfl)) hg
    cases hrun : (w.run now).run g with
    | ok u g' =>
      rw [Change.after_of_ok hrun] at hafter
      obtain ⟨hbefore, hend⟩ := ih hafter fun s hs =>
        hstep s (mem_steps_cons.2 (Or.inr ⟨g', hrun, hs⟩))
      refine ⟨fun s hs => ?_, by rw [after_runAll_cons, hrun]; exact hend⟩
      rcases mem_steps_cons.1 hs with rfl | ⟨g'', hrun', hs⟩
      · exact hg
      · cases hrun.symm.trans hrun'
        exact hbefore s hs
    | error e g' =>
      rw [Change.after_of_error hrun] at hafter
      refine ⟨fun s hs => ?_, by rw [after_runAll_cons, hrun]; exact hafter⟩
      rcases mem_steps_cons.1 hs with rfl | ⟨g'', hrun', -⟩
      · exact hg
      · cases hrun.symm.trans hrun'

/-- Every step is made by one of the writes that are reached, if it changes anything. -/
theorem exists_of_mem_steps (hws : Reached P ws) {s : Step} (hs : s ∈ steps now ws g) :
    s.after = s.before ∨ ∃ w, P w ∧ s.after = (w.run now).after s.before := by
  induction ws generalizing g with
  | nil => exact absurd hs List.not_mem_nil
  | cons w rest ih =>
    rcases mem_steps_cons.1 hs with rfl | ⟨g', hrun, hrest⟩
    · cases w with
      | stop e => exact Or.inl rfl
      | node id d => exact Or.inr ⟨_, hws.1, rfl⟩
      | newNode id d => exact Or.inr ⟨_, hws.1, rfl⟩
      | link source target kind properties => exact Or.inr ⟨_, hws.1, rfl⟩
    · cases w with
      | stop e => cases hrun
      | node id d => exact ih hws.2 hrest
      | newNode id d => exact ih hws.2 hrest
      | link source target kind properties => exact ih hws.2 hrest

/-- What the reached writes keep holds before and after each of their steps, and after all of them. -/
theorem steps_reached (hP : ∀ w g, P w → Inv g → Inv ((w.run now).after g)) (hws : Reached P ws)
    (hg : Inv g) :
    (∀ s ∈ steps now ws g, Inv s.before ∧ Inv s.after) ∧ Inv ((runAll now ws).after g) := by
  have hstep : ∀ s ∈ steps now ws g, Inv s.before → Inv s.after := by
    intro s hs hbefore
    rcases exists_of_mem_steps hws hs with hsame | ⟨w, hw, hafter⟩
    · rwa [hsame]
    · rw [hafter]
      exact hP w s.before hw hbefore
  obtain ⟨hbefore, hend⟩ := steps_induction hg hstep
  exact ⟨fun s hs => ⟨hbefore s hs, hstep s hs (hbefore s hs)⟩, hend⟩

end Write

namespace Call

def writeOf : Checked Write → Write
  | .ok w => w
  | .error e => .stop e

/-- The writes that a call makes of a graph that it does not replace. -/
def writes (g : Graph) : Call → List Write
  | addNode _ id data =>
    [writeOf do
      let draft ← NodeDraft.read data
      return .node (← id.key) draft]
  | addRelationship _ source target kind properties =>
    [writeOf do
      let kind ← RelationKind.read kind
      return .link (← source.key) (← target.key) kind (← properties.toTable)]
  | ingest _ records => Ingestion.writes records
  | discover _ threshold => Discovery.writes threshold g
  | importExport .. => []

/-- The steps of a call. An import has none: it replaces the graph at once, or leaves it. -/
def steps (g : Graph) (c : Call) : List Step := Write.steps c.now (c.writes g) g

variable {g : Graph} {c : Call}

theorem exists_of_replaces (h : c.replaces = true) :
    ∃ now data g', c = .importExport now data ∧ Graph.ofExport now data = .ok g' := by
  cases c with
  | importExport now data =>
    cases hg : Graph.ofExport now data with
    | ok g' => exact ⟨now, data, g', rfl, hg⟩
    | error e => simp [replaces, hg] at h
  | addNode now id data => cases h
  | addRelationship now source target kind properties => cases h
  | ingest now records => cases h
  | discover now threshold => cases h

theorem after_addNode {now : String} {id data : Value} :
    (addNode now id data).after g =
      (Write.runAll now ((addNode now id data).writes g)).after g := by
  rw [after, writes, Write.after_runAll_singleton]
  refine Change.after_eq_of_effect_eq ?_
  rw [Graph.addNode, Change.effect_bind, Change.effect_eq_run]
  cases NodeDraft.read data with
  | error e => rfl
  | ok d =>
    cases id.key with
    | error e => rfl
    | ok k => exact Write.run_node.symm

theorem after_addRelationship {now : String} {source target kind properties : Value} :
    (addRelationship now source target kind properties).after g =
      (Write.runAll now ((addRelationship now source target kind properties).writes g)).after g := by
  rw [after, writes, Write.after_runAll_singleton]
  simp only [Graph.addRelationship, Change.after, EStateM.run_bind, EStateM.run_get]
  cases RelationKind.read kind with
  | error e => rfl
  | ok k =>
    cases source.key with
    | error e => rfl
    | ok s =>
      cases target.key with
      | error e => rfl
      | ok t =>
        simp only [Change.run_check_ok]
        cases properties.toTable with
        | error e => cases g.checkEnds s t <;> rfl
        | ok p =>
          -- the ends are checked here and once more when they are related
          refine Eq.trans ?_ Write.after_link.symm
          rw [Change.after, Graph.relate_run]
          cases hends : g.checkEnds s t with
          | error e => rfl
          | ok u =>
            simp only [Change.run_check_ok, Graph.relate_run, hends]

/-- A call that does not replace the graph does what its writes do. -/
theorem after_eq (h : g.NodesKeyed) (hc : c.replaces = false) :
    c.after g = (Write.runAll c.now (c.writes g)).after g := by
  cases c with
  | addNode now id data => exact after_addNode
  | addRelationship now source target kind properties => exact after_addRelationship
  | ingest now records =>
    exact Change.after_eq_of_effect_eq (by rw [Ingestion.ingest_effect h, Change.effect_eq_run]; rfl)
  | discover now threshold =>
    exact Change.after_eq_of_effect_eq (by rw [Discovery.discover_effect h, Change.effect_eq_run]; rfl)
  | importExport now data =>
    rw [after, Graph.after_importExport]
    cases hg : Graph.ofExport now data with
    | ok g' => simp [replaces, hg] at hc
    | error e => rfl

theorem nodesKeyed_after (h : g.NodesKeyed) (c : Call) : (c.after g).NodesKeyed := by
  cases hc : c.replaces with
  | false =>
    rw [after_eq h hc]
    have hdrafts : ∀ w ∈ c.writes g, w.Drafts fun _ _ => True :=
      fun w _ => w.drafts_of_forall fun _ _ => trivial
    exact @Kept.runAll _ _ _ g [] (Graph.nodesKeyed_kept c.now) _ hdrafts h
  | true =>
    obtain ⟨now, data, g', rfl, hg⟩ := exists_of_replaces hc
    obtain ⟨edges, hedges⟩ := Graph.exists_imported hg
    rw [after, Graph.after_importExport, hg]
    exact (Graph.accounted_ofExport hg hedges).linked.nodes_keyed

end Call

namespace Graph

/-- The steps of calls that are made one after the other, starting from a graph. -/
def stepsFrom (g : Graph) : List Call → List Step
  | [] => []
  | c :: rest => c.steps g ++ stepsFrom (c.after g) rest

/-- The steps of a run. -/
def steps (calls : List Call) : List Step := stepsFrom .empty calls

variable {calls : List Call}

theorem exists_call_of_mem_stepsFrom {g : Graph} {s : Step} (hs : s ∈ stepsFrom g calls) :
    ∃ c ∈ calls, ∃ g', s ∈ c.steps g' := by
  induction calls generalizing g with
  | nil => exact absurd hs List.not_mem_nil
  | cons c rest ih =>
    rcases List.mem_append.1 hs with hs | hs
    · exact ⟨c, List.mem_cons_self, g, hs⟩
    · obtain ⟨c', hc', g', hs⟩ := ih hs
      exact ⟨c', List.mem_cons_of_mem _ hc', g', hs⟩

/-- What a step of a run can do: nothing, write one node, or store one edge between nodes. -/
theorem step_cases {s : Step} (hs : s ∈ steps calls) :
    s.after = s.before ∨ (∃ now id d, s.after = (writeNode now id d).after s.before) ∨
      ∃ e, s.before.hasNode e.source = true ∧ s.before.hasNode e.target = true ∧
        s.after = s.before.putEdge e := by
  obtain ⟨c, -, g, hs⟩ := exists_call_of_mem_stepsFrom hs
  have hall : Write.Reached (fun _ => True) (c.writes g) := .of_forall fun _ _ => trivial
  rcases Write.exists_of_mem_steps hall hs with hsame | ⟨w, -, hafter⟩
  · exact Or.inl hsame
  · rcases Write.after_cases c.now w s.before with
      hsame | ⟨id, d, hwrite, -⟩ | ⟨source, target, kind, properties, e, -, hrel, hedge⟩
    · exact Or.inl (hafter.trans hsame)
    · exact Or.inr (Or.inl ⟨c.now, id, d, hafter.trans hwrite⟩)
    · obtain ⟨hs, ht, ⟨x, -, rfl⟩, -⟩ := relate_ok hrel
      exact Or.inr (Or.inr ⟨_, hs, ht, hafter.trans hedge⟩)

/-- What holds of the empty graph and of every import, and is kept by every step, holds at every moment of a
run and after it. -/
theorem steps_induction (Inv : Graph → Prop) (hstart : Inv .empty)
    (hstep : ∀ s ∈ steps calls, Inv s.before → Inv s.after)
    (himport : ∀ now data g, .importExport now data ∈ calls → ofExport now data = .ok g → Inv g) :
    (∀ s ∈ steps calls, Inv s.before) ∧ Inv (ofCalls calls) := by
  have h : ∀ (cs : List Call) (g : Graph), (∀ c ∈ cs, c ∈ calls) → g.NodesKeyed → Inv g →
      (∀ s ∈ stepsFrom g cs, Inv s.before → Inv s.after) →
      (∀ s ∈ stepsFrom g cs, Inv s.before) ∧ Inv (cs.foldl Call.after g) := by
    intro cs
    induction cs with
    | nil => exact fun g _ _ hg _ => ⟨fun s hs => absurd hs List.not_mem_nil, hg⟩
    | cons c rest ih =>
      intro g hcs hkeyed hg hstep
      have hwrites : (∀ s ∈ c.steps g, Inv s.before) ∧ Inv ((Write.runAll c.now (c.writes g)).after g) :=
        Write.steps_induction hg fun s hs => hstep s (List.mem_append_left _ hs)
      obtain ⟨hbefore, hend⟩ := hwrites
      have hafter : Inv (c.after g) := by
        cases hc : c.replaces with
        | false => exact Call.after_eq hkeyed hc ▸ hend
        | true =>
          obtain ⟨now, data, g', rfl, hg'⟩ := Call.exists_of_replaces hc
          rw [Call.after, after_importExport, hg']
          exact himport now data g' (hcs _ List.mem_cons_self) hg'
      obtain ⟨hrest, hlast⟩ := ih (c.after g) (fun c hc => hcs c (List.mem_cons_of_mem _ hc))
        (Call.nodesKeyed_after hkeyed c) hafter fun s hs => hstep s (List.mem_append_right _ hs)
      refine ⟨fun s hs => ?_, hlast⟩
      rcases List.mem_append.1 hs with hs | hs
      · exact hbefore s hs
      · exact hrest s hs
  exact h calls .empty (fun _ hc => hc) linked_empty.nodes_keyed hstart hstep

end Graph

end CodeAtlas
