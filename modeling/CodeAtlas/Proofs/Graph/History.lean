import CodeAtlas.Proofs.Discovery.Writes
import CodeAtlas.Proofs.Graph.Import

/-! Runs of the calls that change a graph, failing ones included. Next to the graph a history keeps the edges
that were stored since the graph was last replaced, so that statements about past writes can be made. -/

namespace CodeAtlas

/-- A change that is asked for, with the time at which it is made. -/
inductive Call where
  | addNode (now : String) (id data : Value)
  | addRelationship (now : String) (source target kind properties : Value)
  | ingest (now : String) (records : List Value)
  | discover (now : String) (threshold : Value)
  | importExport (now : String) (data : Value)

def Value.isText : Value → Bool
  | .text _ => true
  | _ => false

theorem Value.isText_iff {v : Value} : v.isText = true ↔ ∃ s, v = .text s := by
  unfold isText
  split <;> simp_all

/-- Whether every id in a table of an export is a text. -/
def textKeyed (name : String) (data : Value) : Bool :=
  match exportTable name data with
  | .error _ => true
  | .ok items =>
    items.all fun item =>
      match item.pair with
      | .ok (id, _) => id.isText
      | .error _ => true

theorem isText_of_textKeyed {name : String} {data : Value} {items : List Value}
    (h : textKeyed name data = true) (hitems : exportTable name data = .ok items) {item : Value}
    (hitem : item ∈ items) {id record : Value} (hpair : item.pair = .ok (id, record)) :
    id.isText = true := by
  rw [textKeyed, hitems] at h
  have := List.all_eq_true.1 h item hitem
  rwa [hpair] at this

namespace Call

/-- The graph after a call, whether it succeeds or fails. -/
def after (g : Graph) : Call → Graph
  | addNode now id data => (Graph.addNode now id data).after g
  | addRelationship now source target kind properties =>
    (Graph.addRelationship now source target kind properties).after g
  | ingest now records => (Ingestion.ingest now records).after g
  | discover now threshold => (Discovery.discover now threshold).after g
  | importExport now data => (Graph.importExport now data).after g

def replaces : Call → Bool
  | importExport now data =>
    match Graph.ofExport now data with
    | .ok _ => true
    | .error _ => false
  | _ => false

/-- The edges that a call stores in order. -/
def stored (g : Graph) : Call → List Edge
  | addNode .. => []
  | addRelationship now source target kind properties =>
    match (Graph.addRelationship now source target kind properties).run g with
    | .ok e _ => [e]
    | .error .. => []
  | ingest now records => Write.storedAll now (Ingestion.writes records) g
  | discover now threshold => Write.storedAll now (Discovery.writes threshold g) g
  | importExport now data =>
    match Graph.ofExport now data with
    | .error _ => []
    | .ok _ =>
      match Graph.importedNodes now data >>= Graph.importedEdges now data with
      | .ok edges => edges
      | .error _ => []

/-- The time at which a call is made. -/
def now : Call → String
  | addNode now .. => now
  | addRelationship now .. => now
  | ingest now _ => now
  | discover now _ => now
  | importExport now _ => now

/-- Whether a call, apart from an import, writes nodes only under ids and with drafts that are allowed. -/
def Drafts (allowed : Scalar → NodeDraft → Prop) : Call → Prop
  | addNode _ id data => ∀ k d, id.key = .ok k → NodeDraft.read data = .ok d → allowed k d
  | addRelationship .. => True
  | ingest _ records => ∀ w ∈ Ingestion.writes records, w.Drafts allowed
  | discover _ threshold => ∀ g, ∀ w ∈ Discovery.writes threshold g, w.Drafts allowed
  | importExport .. => True

theorem drafts_of_forall {allowed : Scalar → NodeDraft → Prop} (h : ∀ id d, allowed id d) (c : Call) :
    c.Drafts allowed := by
  cases c with
  | addNode now id data => exact fun k d _ _ => h k d
  | addRelationship now source target kind properties => trivial
  | ingest now records => exact fun w _ => w.drafts_of_forall h
  | discover now threshold => exact fun _ w _ => w.drafts_of_forall h
  | importExport now data => trivial

/-- Whether the ids that a call gives are texts. -/
def hasTextIds : Call → Bool
  | addNode _ id _ => id.isText
  | addRelationship _ source target _ _ => source.isText && target.isText
  | ingest .. => true
  | discover .. => true
  | importExport _ data => textKeyed "nodes" data && textKeyed "edges" data

end Call

/-- The graph after the calls, starting from the empty one. -/
def Graph.ofCalls (calls : List Call) : Graph := calls.foldl Call.after .empty

/-- A graph with the edges stored in it since it was last replaced. -/
structure History where
  graph : Graph
  stored : List Edge

namespace History

def start : History := ⟨.empty, []⟩

/-- The history after one more call; a call that replaces the graph starts the list of edges anew. -/
def next (h : History) (c : Call) : History where
  graph := c.after h.graph
  stored := if c.replaces then c.stored h.graph else h.stored ++ c.stored h.graph

def ofCalls (calls : List Call) : History := calls.foldl next start

theorem graph_ofCalls (calls : List Call) : (ofCalls calls).graph = Graph.ofCalls calls := by
  have h : ∀ (h : History), (calls.foldl next h).graph = calls.foldl Call.after h.graph := by
    induction calls with
    | nil => exact fun h => rfl
    | cons c rest ih => exact fun h => ih (h.next c)
  exact h start

theorem ofCalls_induction {P : History → Prop} {calls : List Call} (hstart : P start)
    (hnext : ∀ h, ∀ c ∈ calls, P h → P (h.next c)) : P (ofCalls calls) := by
  have h : ∀ (cs : List Call) (h : History), (∀ c ∈ cs, c ∈ calls) → P h → P (cs.foldl next h) := by
    intro cs
    induction cs with
    | nil => exact fun h _ hh => hh
    | cons c rest ih =>
      intro h hcs hh
      exact ih (h.next c) (fun c hc => hcs c (List.mem_cons_of_mem _ hc))
        (hnext h c (hcs c List.mem_cons_self) hh)
  exact h calls start (fun _ hc => hc) hstart

end History

namespace Ingestion

variable {allowed : Scalar → NodeDraft → Prop}

theorem drafts_of_mem_factWrites {file : Scalar} {id : String → String}
    {draft : String → Value → NodeDraft} (h : ∀ name fact, allowed (.text (id name)) (draft name fact))
    {fact : Value} : ∀ w ∈ factWrites file id draft fact, w.Drafts allowed := by
  intro w hw
  unfold factWrites at hw
  split at hw
  · exact absurd hw List.not_mem_nil
  · simp only [List.mem_cons, List.not_mem_nil, or_false] at hw
    rcases hw with rfl | rfl
    · exact h _ _
    · trivial

theorem drafts_of_mem_importWrites {file : Scalar} {language : Value}
    (h : ∀ importPath, allowed (.text (dependencyId importPath)) (dependencyDraft language importPath))
    {entry : Value} : ∀ w ∈ importWrites file language entry, w.Drafts allowed := by
  intro w hw
  unfold importWrites at hw
  split at hw
  · exact absurd hw List.not_mem_nil
  · simp only [List.mem_cons, List.not_mem_nil, or_false] at hw
    rcases hw with rfl | rfl
    · exact h _
    · trivial

/-- A node that ingestion writes is a file, a function, a class or a dependency. -/
theorem drafts_of_each {records : List Value}
    (hfile : ∀ v ∈ records, ∀ r, Record.read? v = .ok (some r) →
      allowed (.text (fileId r.path)) (fileDraft r))
    (hfunction : ∀ path name fact, allowed (.text (functionId path name)) (functionDraft path name fact))
    (hclass : ∀ path name fact, allowed (.text (classId path name)) (classDraft path name fact))
    (hdependency : ∀ language importPath,
      allowed (.text (dependencyId importPath)) (dependencyDraft language importPath)) :
    ∀ w ∈ writes records, w.Drafts allowed := by
  intro w hw
  obtain ⟨v, hv, hw⟩ := List.mem_flatMap.1 hw
  unfold valueWrites at hw
  split at hw
  · rename_i r hr
    rcases List.mem_cons.1 hw with rfl | hw
    · exact hfile v hv r hr
    · rcases List.mem_append.1 hw with hw | hw
      · rcases List.mem_append.1 hw with hw | hw
        · obtain ⟨fact, -, hw⟩ := List.mem_flatMap.1 hw
          exact drafts_of_mem_factWrites (hfunction r.path) w hw
        · obtain ⟨fact, -, hw⟩ := List.mem_flatMap.1 hw
          exact drafts_of_mem_factWrites (hclass r.path) w hw
      · obtain ⟨entry, -, hw⟩ := List.mem_flatMap.1 hw
        exact drafts_of_mem_importWrites (hdependency r.language) w hw
  · exact absurd hw List.not_mem_nil
  · rw [List.mem_singleton.1 hw]
    trivial

/-- All nodes that ingestion writes stand under texts; all but the files are named by texts, and a file is
named by its path. -/
theorem drafts_of_mem_writes {records : List Value}
    (hfile : ∀ v ∈ records, ∀ r, Record.read? v = .ok (some r) →
      allowed (.text (fileId r.path)) (fileDraft r))
    (hnamed : ∀ id d name, d.kind ≠ .concept → d.name = some (.text name) → allowed (.text id) d) :
    ∀ w ∈ writes records, w.Drafts allowed :=
  drafts_of_each hfile (fun _ name _ => hnamed _ _ name NodeKind.noConfusion rfl)
    (fun _ name _ => hnamed _ _ name NodeKind.noConfusion rfl)
    fun _ importPath => hnamed _ _ importPath NodeKind.noConfusion rfl

end Ingestion

/-- All nodes that discovery writes are concepts that stand under texts. -/
theorem Discovery.drafts_of_mem_writes {allowed : Scalar → NodeDraft → Prop} {threshold : Value}
    {g : Graph} (h : ∀ id (p : Pattern), allowed (.text id) p.draft) :
    ∀ w ∈ writes threshold g, w.Drafts allowed := by
  intro w hw
  unfold writes at hw
  split at hw
  · obtain ⟨p, -, hw⟩ := List.mem_flatMap.1 hw
    rcases List.mem_cons.1 hw with rfl | hw
    · exact h _ p
    · obtain ⟨r, -, rfl⟩ := List.mem_map.1 hw
      trivial
  · rw [List.mem_singleton.1 hw]
    trivial

namespace Kept

variable {now : String} {allowed : Scalar → NodeDraft → Prop} {Inv : Graph → List Edge → Prop}
  {g : Graph} {stored : List Edge}

theorem addNode (h : Kept now allowed Inv) {id data : Value}
    (hd : ∀ k d, id.key = .ok k → NodeDraft.read data = .ok d → allowed k d) (hg : Inv g stored) :
    Inv ((Call.addNode now id data).after g) (stored ++ (Call.addNode now id data).stored g) := by
  rw [Call.stored, List.append_nil, Call.after]
  unfold Graph.addNode Change.after
  simp only [EStateM.run_bind]
  cases hread : NodeDraft.read data with
  | error e => exact hg
  | ok d =>
    cases hk : id.key with
    | error e => exact hg
    | ok k => exact h.node g stored k d (hd k d hk hread) hg

theorem addRelationship (h : Kept now allowed Inv) {source target kind properties : Value}
    (hg : Inv g stored) :
    Inv ((Call.addRelationship now source target kind properties).after g)
      (stored ++ (Call.addRelationship now source target kind properties).stored g) := by
  simp only [Call.stored, Call.after, Graph.addRelationship, Change.after, EStateM.run_bind,
    EStateM.run_get]
  cases RelationKind.read kind with
  | error e => simpa using hg
  | ok k =>
    cases source.key with
    | error e => simpa using hg
    | ok s =>
      cases target.key with
      | error e => simpa using hg
      | ok t =>
        simp only [Change.run_check_ok]
        cases g.checkEnds s t with
        | error e => simpa using hg
        | ok u =>
          cases properties.toTable with
          | error e => simpa using hg
          | ok p =>
            simp only [Change.run_check_ok]
            cases hrel : (Graph.relate now s t k p).run g with
            | error e g' =>
              cases Graph.relate_error hrel
              simpa using hg
            | ok e g' =>
              obtain ⟨-, -, -, rfl⟩ := Graph.relate_ok hrel
              exact h.edge g stored s t k p e hrel hg

theorem ingest (h : Kept now allowed Inv) (hkeyed : g.NodesKeyed) {records : List Value}
    (hd : ∀ w ∈ Ingestion.writes records, w.Drafts allowed) (hg : Inv g stored) :
    Inv ((Call.ingest now records).after g) (stored ++ (Call.ingest now records).stored g) := by
  have hafter : (Ingestion.ingest now records).after g =
      (Write.runAll now (Ingestion.writes records)).after g :=
    Change.after_eq_of_effect_eq (by rw [Ingestion.ingest_effect hkeyed, Change.effect_eq_run])
  rw [Call.after, hafter]
  exact h.runAll hd hg

theorem discover (h : Kept now allowed Inv) (hkeyed : g.NodesKeyed) {threshold : Value}
    (hd : ∀ w ∈ Discovery.writes threshold g, w.Drafts allowed) (hg : Inv g stored) :
    Inv ((Call.discover now threshold).after g) (stored ++ (Call.discover now threshold).stored g) := by
  have hafter : (Discovery.discover now threshold).after g =
      (Write.runAll now (Discovery.writes threshold g)).after g :=
    Change.after_eq_of_effect_eq (by rw [Discovery.discover_effect hkeyed, Change.effect_eq_run])
  rw [Call.after, hafter]
  exact h.runAll hd hg

end Kept

theorem Graph.after_importExport {now : String} {data : Value} {g : Graph} :
    (importExport now data).after g =
      match ofExport now data with
      | .ok g' => g'
      | .error _ => g := by
  simp only [importExport, Change.after, EStateM.run_bind]
  cases ofExport now data <;> rfl

namespace History

variable {h : History} {now : String} {data : Value}

theorem next_import_ok {g : Graph} {edges : List Edge} (hg : Graph.ofExport now data = .ok g)
    (hedges : Graph.importedNodes now data >>= Graph.importedEdges now data = .ok edges) :
    h.next (.importExport now data) = ⟨g, edges⟩ := by
  simp [next, Call.after, Graph.after_importExport, Call.replaces, Call.stored, hg, hedges]

theorem next_import_error {e : Fault} (hg : Graph.ofExport now data = .error e) :
    h.next (.importExport now data) = h := by
  simp [next, Call.after, Graph.after_importExport, Call.replaces, Call.stored, hg]

/-- What holds of the empty graph and of every import, and is kept by every elementary change, holds after
all calls. -/
theorem ofCalls_kept {allowed : Scalar → NodeDraft → Prop} {Inv : Graph → List Edge → Prop}
    {calls : List Call} (hstart : Inv .empty [])
    (hkeyed : ∀ g stored, Inv g stored → g.NodesKeyed)
    (hkept : ∀ c ∈ calls, Kept c.now allowed Inv) (hdrafts : ∀ c ∈ calls, c.Drafts allowed)
    (himport : ∀ now data g edges, .importExport now data ∈ calls →
      Graph.ofExport now data = .ok g →
      Graph.importedNodes now data >>= Graph.importedEdges now data = .ok edges → Inv g edges) :
    Inv (ofCalls calls).graph (ofCalls calls).stored := by
  refine ofCalls_induction (P := fun h => Inv h.graph h.stored) hstart ?_
  intro h c hc hh
  have hd := hdrafts c hc
  have hk := hkept c hc
  cases c with
  | addNode now id data => exact hk.addNode hd hh
  | addRelationship now source target kind properties => exact hk.addRelationship hh
  | ingest now records => exact hk.ingest (hkeyed _ _ hh) hd hh
  | discover now threshold => exact hk.discover (hkeyed _ _ hh) (hd h.graph) hh
  | importExport now data =>
    cases hg : Graph.ofExport now data with
    | error e => rwa [next_import_error hg]
    | ok g =>
      obtain ⟨edges, hedges⟩ := Graph.exists_imported hg
      rw [next_import_ok hg hedges]
      exact himport now data g edges hc hg hedges

end History

end CodeAtlas
