import CodeAtlas.Proofs.Graph.History
import CodeAtlas.Proofs.Graph.Repeat

/-! A graph only grows. Ingestion counts what is new by how much longer the tables have become, and that counts
right only if nothing ever leaves its place in them. So it is shown of the two elementary changes that they
extend the graph, and that every way in which changes are put together keeps that, also where a change fails
half-way. -/

namespace CodeAtlas

/-- What stays of a node that is written over: its id, its birth, and every edge that it lists. -/
structure Node.Lasts (n n' : Node) : Prop where
  id : n'.id = n.id
  created : n'.metadata.created = n.metadata.created
  connections : n.connections.keys ⊆ n'.connections.keys

namespace Node.Lasts

variable {n n' n'' : Node}

theorem refl (n : Node) : n.Lasts n := ⟨rfl, rfl, List.Subset.refl _⟩

theorem trans (h : n.Lasts n') (h' : n'.Lasts n'') : n.Lasts n'' where
  id := h'.id.trans h.id
  created := h'.created.trans h.created
  connections := List.Subset.trans h.connections h'.connections

theorem overwritten (now : String) (n : Node) (d : NodeDraft) : n.Lasts (.overwritten now n d) :=
  ⟨rfl, rfl, List.Subset.refl _⟩

theorem connect (n : Node) (edge : Scalar) : n.Lasts (n.connect edge) :=
  ⟨rfl, rfl, Graph.keys_prefix_insert.subset⟩

theorem meet (n : Node) (e : Edge) (k : Scalar) : n.Lasts (n.meet e k) := by
  unfold Node.meet
  split <;> split
  · exact (connect n e.id).trans (connect _ e.id)
  · exact connect n e.id
  · exact connect n e.id
  · exact refl n

end Node.Lasts

/-- Whether a graph came out of another one by growth: all nodes and edges keep their places, new ones stand
behind them, and every node lasts. -/
structure Graph.Extends (g g' : Graph) : Prop where
  node_keys : g.nodes.keys <+: g'.nodes.keys
  edge_keys : g.edges.keys <+: g'.edges.keys
  nodes : ∀ k n, g.nodes.get? k = some n → ∃ n', g'.nodes.get? k = some n' ∧ n.Lasts n'

namespace Graph.Extends

variable {g g' g'' : Graph} {now : String}

theorem refl (g : Graph) : g.Extends g where
  node_keys := List.prefix_refl _
  edge_keys := List.prefix_refl _
  nodes _ n hn := ⟨n, hn, .refl n⟩

theorem trans (h : g.Extends g') (h' : g'.Extends g'') : g.Extends g'' where
  node_keys := h.node_keys.trans h'.node_keys
  edge_keys := h.edge_keys.trans h'.edge_keys
  nodes k n hn := by
    obtain ⟨n', hn', hlasts⟩ := h.nodes k n hn
    obtain ⟨n'', hn'', hlasts'⟩ := h'.nodes k n' hn'
    exact ⟨n'', hn'', hlasts.trans hlasts'⟩

theorem withNode {id : Scalar} {d : NodeDraft} (c : Table Scalar) :
    g.Extends (g.withNode now id d c) where
  node_keys := keys_prefix_insert
  edge_keys := List.prefix_refl _
  nodes k n hn := by
    rw [Graph.withNode, Table.get?_insert]
    by_cases hk : id.canon = k.canon
    · rw [← Table.get?_congr hk] at hn
      rw [if_pos hk, written_of_some hn]
      exact ⟨_, rfl, .overwritten now n d⟩
    · rw [if_neg hk]
      exact ⟨n, hn, .refl n⟩

theorem putEdge (g : Graph) (e : Edge) : g.Extends (g.putEdge e) where
  node_keys := keys_nodes_putEdge (g := g) ▸ List.prefix_refl _
  edge_keys := keys_prefix_insert
  nodes k n hn := by
    rw [get?_nodes_putEdge, hn]
    exact ⟨_, rfl, .meet n e k⟩

end Graph.Extends

/-- A change that leaves nothing but extensions of a graph behind, whether it succeeds or fails. -/
def Change.Extending {α : Type} (c : Change α) : Prop := ∀ g : Graph, g.Extends (c.after g)

namespace Change.Extending

section Combinators

variable {α β : Type} {c : Change α}

theorem pure (a : α) : (pure a : Change α).Extending := Graph.Extends.refl

theorem throw (e : Fault) : (throw e : Change α).Extending := Graph.Extends.refl

theorem get : (get : Change Graph).Extending := Graph.Extends.refl

theorem check (a : Checked α) : (Change.check a).Extending := by
  cases a with
  | ok a => exact pure a
  | error e => exact throw e

theorem bind {f : α → Change β} (hc : c.Extending) (hf : ∀ a, (f a).Extending) :
    (c >>= f).Extending := by
  intro g
  have hfirst := hc g
  rw [after, EStateM.run_bind]
  cases hrun : c.run g with
  | ok a g' =>
    rw [after_of_ok hrun] at hfirst
    exact hfirst.trans (hf a g')
  | error e g' =>
    rw [after_of_error hrun] at hfirst
    exact hfirst

theorem tryCatch {handle : Fault → Change α} (hc : c.Extending) (hh : ∀ e, (handle e).Extending) :
    (tryCatch c handle : Change α).Extending := by
  intro g
  have hfirst := hc g
  rw [after, run_tryCatch]
  cases hrun : c.run g with
  | ok a g' =>
    rw [after_of_ok hrun] at hfirst
    exact hfirst
  | error e g' =>
    rw [after_of_error hrun] at hfirst
    exact hfirst.trans (hh e g')

theorem forM {f : α → Change PUnit} (as : List α) (hf : ∀ a, (f a).Extending) :
    (as.forM f).Extending := by
  induction as with
  | nil => exact pure _
  | cons a rest ih => exact (hf a).bind fun _ => ih

theorem foldlM {f : β → α → Change β} (as : List α) (hf : ∀ b a, (f b a).Extending) (b : β) :
    (as.foldlM f b).Extending := by
  induction as generalizing b with
  | nil => exact pure b
  | cons a rest ih => exact (hf b a).bind ih

end Combinators

section Elementary

variable (now : String)

theorem writeNode (id : Scalar) (d : NodeDraft) : (Graph.writeNode now id d).Extending := by
  intro g
  rcases Graph.after_writeNode g now id d with hsame | ⟨c, hwritten, -⟩
  · rw [hsame]
    exact .refl g
  · rw [hwritten]
    exact .withNode c

theorem relate (source target : Scalar) (kind : RelationKind) (properties : Properties) :
    (Graph.relate now source target kind properties).Extending := by
  intro g
  cases hrun : (Graph.relate now source target kind properties).run g with
  | ok e g' =>
    obtain ⟨-, -, -, rfl⟩ := Graph.relate_ok hrun
    rw [after_of_ok hrun]
    exact .putEdge g e
  | error e g' =>
    rw [after_of_error hrun, Graph.relate_error hrun]
    exact .refl g

theorem addNode (id data : Value) : (Graph.addNode now id data).Extending :=
  (check _).bind fun d => (check _).bind fun k => writeNode now k d

theorem addRelationship (source target kind properties : Value) :
    (Graph.addRelationship now source target kind properties).Extending :=
  (check _).bind fun k => (check _).bind fun s => (check _).bind fun t =>
    get.bind fun _ => (check _).bind fun _ => (check _).bind fun p => relate now s t k p

end Elementary

section Ingestion

open CodeAtlas.Ingestion

variable (now : String)

theorem link (source target : Scalar) (kind : RelationKind) (report : IngestionReport) :
    (Ingestion.link now source target kind report).Extending := by
  refine tryCatch ((relate now source target kind ∅).bind fun _ => pure _) fun e => ?_
  cases e with
  | missingNodes ids => exact pure _
  | _ => exact throw _

theorem addFacts (file : Scalar) (id : String → String) (draft : String → Value → NodeDraft)
    (facts : List Value) (report : IngestionReport) :
    (Ingestion.addFacts now file id draft report facts).Extending := by
  induction facts generalizing report with
  | nil => exact pure report
  | cons fact rest ih =>
    unfold Ingestion.addFacts
    cases factName? fact with
    | none => exact ih report.skip
    | some name =>
      exact (writeNode now _ _).bind fun n => (link now n.id file .partOf report).bind ih

theorem dependencyNode (language : Value) (importPath : String) :
    (Ingestion.dependencyNode now language importPath).Extending := by
  refine get.bind fun g => ?_
  cases g.nodes.get? (.text (dependencyId importPath)) with
  | none => exact writeNode now _ _
  | some n => exact pure n

theorem addImports (file : Scalar) (language : Value) (imports : List Value)
    (report : IngestionReport) :
    (Ingestion.addImports now file language report imports).Extending := by
  induction imports generalizing report with
  | nil => exact pure report
  | cons entry rest ih =>
    cases hname : importName? entry with
    | none =>
      rw [addImports_of_none hname]
      exact ih report.skip
    | some importPath =>
      rw [addImports_of_some hname]
      exact (dependencyNode now language importPath).bind fun n =>
        (link now file n.id .dependsOn report).bind ih

theorem addRecord (report : IngestionReport) (r : Record) :
    (Ingestion.addRecord now report r).Extending :=
  get.bind fun _ => get.bind fun _ => (writeNode now _ _).bind fun file =>
    (addFacts now file.id _ _ r.functions report).bind fun report =>
      (addFacts now file.id _ _ r.classes report).bind fun report =>
        (addImports now file.id r.language r.imports report).bind fun _ =>
          get.bind fun _ => get.bind fun _ => pure _

theorem ingestRecord (report : IngestionReport) (v : Value) :
    (Ingestion.ingestRecord now report v).Extending := by
  refine (check _).bind fun r => ?_
  cases r with
  | none => exact pure _
  | some r => exact addRecord now report r

theorem ingest (records : List Value) : (Ingestion.ingest now records).Extending :=
  foldlM records (ingestRecord now) {}

end Ingestion

section Discovery

variable (now : String)

theorem implement (concept related : Scalar) (confidence : Value) :
    (Pattern.implement now concept confidence related).Extending := by
  refine tryCatch ((relate now related concept .implements _).bind fun _ => pure _) fun e => ?_
  cases e with
  | missingNodes ids => exact pure _
  | _ => exact throw _

theorem materialize (name description confidence category : Value) (related : List Value) :
    (Pattern.materializeOpen now name description confidence category related).Extending := by
  refine (writeNode now _ _).bind fun concept => ?_
  have hlinks : ∀ v : Value, (do
      Pattern.implement now concept.id confidence (← Change.check v.key) : Change Unit).Extending :=
    fun v => (check _).bind fun r => implement now concept.id r confidence
  exact (forM related hlinks).bind fun _ => get.bind fun _ => pure _

theorem discover (threshold : Value) : (Discovery.discover now threshold).Extending :=
  get.bind fun g => (check (Discovery.detect threshold g)).bind fun found =>
    (forM found.all fun _ => (materialize now _ _ _ _ _).bind fun _ => pure _).bind fun _ => pure found

end Discovery

end Change.Extending

/-- One of the calls that add to a graph, with everything that it is given. -/
inductive Addition where
  | addNode (now : String) (id data : Value)
  | addRelationship (now : String) (source target kind properties : Value)
  | ingest (now : String) (records : List Value)
  | discover (now : String) (threshold : Value)
  | materialize (now : String) (name description confidence category : Value) (related : List Value)
  | link (now : String) (source target : Scalar) (kind : RelationKind) (report : IngestionReport)

/-- The graph after an addition, whether it succeeds or fails. -/
def Addition.after (g : Graph) : Addition → Graph
  | addNode now id data => (Graph.addNode now id data).after g
  | addRelationship now source target kind properties =>
    (Graph.addRelationship now source target kind properties).after g
  | ingest now records => (Ingestion.ingest now records).after g
  | discover now threshold => (Discovery.discover now threshold).after g
  | materialize now name description confidence category related =>
    (Pattern.materializeOpen now name description confidence category related).after g
  | link now source target kind report => (Ingestion.link now source target kind report).after g

theorem Graph.extends_after (g : Graph) (a : Addition) : g.Extends (a.after g) := by
  cases a with
  | addNode now id data => exact Change.Extending.addNode now id data g
  | addRelationship now source target kind properties =>
    exact Change.Extending.addRelationship now source target kind properties g
  | ingest now records => exact Change.Extending.ingest now records g
  | discover now threshold => exact Change.Extending.discover now threshold g
  | materialize now name description confidence category related =>
    exact Change.Extending.materialize now name description confidence category related g
  | link now source target kind report =>
    exact Change.Extending.link now source target kind report g

/-- The graphs that additions lead through, from the one before the first to the one after the last. -/
def Graph.passed (g : Graph) (run : List Addition) : List Graph := run.scanl Addition.after g

theorem Graph.extends_of_mem_passed {g g' : Graph} {run : List Addition} (h : g' ∈ g.passed run) :
    g.Extends g' := by
  induction run generalizing g with
  | nil => exact List.mem_singleton.1 h ▸ .refl g
  | cons a rest ih =>
    rw [passed, List.scanl_cons] at h
    rcases List.mem_cons.1 h with rfl | h
    · exact .refl g'
    · exact (g.extends_after a).trans (ih h)

/-- Whatever is added to a graph, in any order and with calls that fail: each graph on the way extends all
graphs before it, so every step keeps the node ids and edge ids in their places and puts new ones behind them,
and every node keeps its id, its birth and all edges that it lists. -/
theorem Graph.passed_extend (g : Graph) (run : List Addition) :
    (g.passed run).Pairwise Graph.Extends := by
  induction run generalizing g with
  | nil => exact List.pairwise_singleton _ _
  | cons a rest ih =>
    rw [passed, List.scanl_cons]
    refine List.pairwise_cons.2 ⟨fun g' hg' => ?_, ih (a.after g)⟩
    exact (g.extends_after a).trans (extends_of_mem_passed hg')

end CodeAtlas
