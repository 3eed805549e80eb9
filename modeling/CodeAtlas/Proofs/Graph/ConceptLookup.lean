import CodeAtlas.Proofs.Graph.ConceptIndex
import Mathlib.Data.List.Induction

/-! Looking concepts up by name after whole runs. An import completes the index but takes over the entries it
is given, so the index is sound after a run if the imports were given sound entries and no concept was
renamed, and it lacks no concept if none was stranded. Both conditions are needed. -/

namespace CodeAtlas

namespace Graph

variable {now : String} {data : Value} {nodes nodes' : Table Node} {g : Graph} {c c' : Table Scalar}

section Import

theorem importedConcepts_congr (h : ∀ k, nodes.contains k = nodes'.contains k) :
    importedConcepts data nodes = importedConcepts data nodes' := by
  have hstep : importConcept nodes = importConcept nodes' := by
    funext c item
    simp only [importConcept, h]
  rw [importedConcepts, importedConcepts, hstep]

theorem sameNames_foldl_putEdge {edges : List Edge} :
    SameNames g.nodes (edges.foldl putEdge g).nodes := by
  induction edges generalizing g with
  | nil => exact fun _ => rfl
  | cons e rest ih => exact fun k => (ih k).trans (sameNames_putEdge k)

/-- What completing an index with one node does: a concept's name goes into it unless it is there. -/
theorem completeConcept_ok {n : Node} (h : completeConcept c n = .ok c') :
    n.kind ≠ .concept ∧ c' = c ∨
      n.kind = .concept ∧ ∃ name, n.name.lowered = .ok name ∧ c' = c.insertNew (.text name) n.id := by
  unfold completeConcept at h
  split at h
  · rename_i hkind
    obtain ⟨name, hname, h⟩ := Except.bind_eq_ok.1 h
    cases h
    exact Or.inr ⟨hkind, name, hname, rfl⟩
  · rename_i hkind
    cases h
    exact Or.inl ⟨hkind, rfl⟩

theorem contains_insertNew_self {k : Scalar} {x : Scalar} : (c.insertNew k x).contains k = true := by
  rw [Table.insertNew]
  split
  · assumption
  · exact Table.contains_insert_self

theorem contains_insertNew_of_contains {k key : Scalar} {x : Scalar} (h : c.contains k = true) :
    (c.insertNew key x).contains k = true := by
  rw [Table.insertNew]
  split
  · exact h
  · exact Table.contains_insert_of_contains h

/-- Completing an index puts the name of every concept into it, so all these names are texts. -/
theorem contains_of_foldlM_completeConcept {ns : List Node} (h : ns.foldlM completeConcept c = .ok c') :
    (∀ k, c.contains k = true → c'.contains k = true) ∧
      ∀ n ∈ ns, n.kind = .concept → ∃ name, n.name.lowered = .ok name ∧
        c'.contains (.text name) = true := by
  induction ns generalizing c with
  | nil =>
    cases h
    exact ⟨fun _ hk => hk, fun n hn => absurd hn List.not_mem_nil⟩
  | cons n rest ih =>
    rw [List.foldlM_cons] at h
    obtain ⟨c₁, hstep, hrest⟩ := Except.bind_eq_ok.1 h
    obtain ⟨hkept, hall⟩ := ih hrest
    rcases completeConcept_ok hstep with ⟨hne, rfl⟩ | ⟨-, name, hname, rfl⟩
    · refine ⟨hkept, fun m hm hkind => ?_⟩
      rcases List.mem_cons.1 hm with rfl | hm
      · exact absurd hkind hne
      · exact hall m hm hkind
    · refine ⟨fun k hk => hkept k (contains_insertNew_of_contains hk), fun m hm hkind => ?_⟩
      rcases List.mem_cons.1 hm with rfl | hm
      · exact ⟨name, hname, hkept _ contains_insertNew_self⟩
      · exact hall m hm hkind

/-- Completing an index adds only entries that lead to concepts of their names. -/
theorem IndexSound.completed (hc : IndexSound nodes c)
    (hkeyed : ∀ k n, nodes.get? k = some n → n.id.canon = k.canon)
    (h : nodes.values.foldlM completeConcept c = .ok c') : IndexSound nodes c' := by
  refine foldlM_invariant (P := IndexSound nodes) ?_ h hc
  intro n hn c c' hstep hc
  rcases completeConcept_ok hstep with ⟨-, rfl⟩ | ⟨hkind, name, hname, rfl⟩
  · exact hc
  · intro k x hk
    rw [Table.get?_insertNew] at hk
    split at hk
    · rename_i hnew
      cases hk
      obtain ⟨j, hj⟩ := Table.mem_values_iff.1 hn
      exact ⟨n, name, (Table.get?_congr (hkeyed j n hj)).trans hj, hkind, hname,
        Scalar.canon_eq_text_iff.1 hnew.2.symm⟩
    · exact hc k x hk

end Import

end Graph

/-- Whether the index entries that a call brings along lead to concepts of their names. -/
def Call.GivesSoundIndex : Call → Prop
  | importExport now data => ∀ nodes taken, Graph.importedNodes now data = .ok nodes →
      Graph.importedConcepts data nodes = .ok taken → Graph.IndexSound nodes taken
  | _ => True

theorem Call.givesSoundIndex_iff {now : String} {data : Value} {nodes : Table Node} {taken : Table Scalar}
    (hnodes : Graph.importedNodes now data = .ok nodes)
    (htaken : Graph.importedConcepts data nodes = .ok taken) :
    (importExport now data).GivesSoundIndex ↔ Graph.IndexSound nodes taken := by
  refine ⟨fun h => h nodes taken hnodes htaken, fun h nodes' taken' hnodes' htaken' => ?_⟩
  cases hnodes.symm.trans hnodes'
  cases htaken.symm.trans htaken'
  exact h

instance instDecidableGivesSoundIndex : (c : Call) → Decidable c.GivesSoundIndex
  | .importExport now data =>
    match hnodes : Graph.importedNodes now data with
    | .error e => .isTrue fun _ _ h => by
      rw [hnodes] at h
      cases h
    | .ok nodes =>
      match htaken : Graph.importedConcepts data nodes with
      | .error e => .isTrue fun _ _ h h' => by
        rw [hnodes] at h
        cases h
        rw [htaken] at h'
        cases h'
      | .ok taken => decidable_of_iff _ (Call.givesSoundIndex_iff hnodes htaken).symm
  | .addNode .. => .isTrue trivial
  | .addRelationship .. => .isTrue trivial
  | .ingest .. => .isTrue trivial
  | .discover .. => .isTrue trivial

namespace Graph

variable {now : String} {data : Value} {g : Graph} {calls : List Call}

/-- What an import makes of the index: it leads to nodes, it lacks no concept, and it is sound if what was
taken over is. -/
theorem index_ofExport (h : ofExport now data = .ok g) :
    (∀ k x, g.concepts.get? k = some x → g.hasNode x = true) ∧
      (∀ k n, g.nodes.get? k = some n → n.kind = .concept → ∃ s, n.name = .text s) ∧
      IndexComplete g.nodes g.concepts ∧
      ((Call.importExport now data).GivesSoundIndex → IndexSound g.nodes g.concepts) := by
  obtain ⟨edges, hedges⟩ := exists_imported h
  have hkeyed := (accounted_ofExport h hedges).linked.nodes_keyed
  obtain ⟨nodes, taken, c, hnodes, -, htaken, hcompleted, rfl⟩ := ofExport_ok h hedges
  have hsame : SameNames nodes (edges.foldl putEdge (ofNodes nodes)).nodes := sameNames_foldl_putEdge
  obtain ⟨-, hall⟩ := contains_of_foldlM_completeConcept hcompleted
  have hthere : ∀ k x, c.get? k = some x → (edges.foldl putEdge (ofNodes nodes)).hasNode x = true :=
    contains_of_completed hcompleted hkeyed (contains_of_importedConcepts htaken)
  refine ⟨hthere, ?_, ?_, ?_⟩
  · intro k n hn hkind
    obtain ⟨name, hname, -⟩ := hall n (Table.mem_values_of_get? hn) hkind
    obtain ⟨s, hs, -⟩ := Value.lowered_eq_ok.1 hname
    exact ⟨s, hs⟩
  · intro k n hn hkind name hname
    obtain ⟨name', hname', hc⟩ := hall n (Table.mem_values_of_get? hn) hkind
    cases hname.symm.trans hname'
    exact hc
  · intro hsound
    have hcontains : ∀ k, (edges.foldl putEdge (ofNodes nodes)).nodes.contains k = nodes.contains k := by
      intro k
      rw [Bool.eq_iff_iff, Table.contains_iff_mem, Table.contains_iff_mem, keys_nodes_foldl_putEdge]
      rfl
    rw [importedConcepts_congr hcontains] at htaken
    exact (hsame.indexSound (hsound nodes taken hnodes htaken)).completed hkeyed hcompleted

theorem hasNode_after_of_mem_steps {s : Step} (hs : s ∈ steps calls)
    (h : ∀ k x, s.before.concepts.get? k = some x → s.before.hasNode x = true) :
    ∀ k x, s.after.concepts.get? k = some x → s.after.hasNode x = true := by
  rcases step_cases hs with hsame | ⟨now, id, d, hwrite⟩ | ⟨e, -, -, hedge⟩
  · rwa [hsame]
  · rw [hwrite]
    rcases after_writeNode s.before now id d with hsame | ⟨c, hwritten, hc⟩
    · rwa [hsame]
    · rw [hwritten]
      intro k x hx
      rw [hasNode, withNode, Table.contains_insert, Bool.or_eq_true, decide_eq_true_eq]
      rcases hc k x hx with hold | rfl
      · exact Or.inr (h k x hold)
      · exact Or.inl rfl
  · rw [hedge]
    exact fun k x hx => hasNode_putEdge.trans (h k x hx)

theorem hasNode_of_concepts (calls : List Call) :
    ∀ k x, (ofCalls calls).concepts.get? k = some x → (ofCalls calls).hasNode x = true :=
  (steps_induction (fun g => ∀ k x, g.concepts.get? k = some x → g.hasNode x = true)
    (fun _ _ h => nomatch h) (fun _ hs => hasNode_after_of_mem_steps hs)
    fun _ _ _ _ hg => (index_ofExport hg).1).2

theorem indexSound_ofCalls (himports : ∀ c ∈ calls, c.GivesSoundIndex)
    (hrenames : ∀ s ∈ steps calls, ¬ s.Renames) :
    IndexSound (ofCalls calls).nodes (ofCalls calls).concepts :=
  (steps_induction (fun g => IndexSound g.nodes g.concepts) (fun _ _ h => nomatch h)
    (fun s hs h => (indexSound_after_iff hs h).2 (hrenames s hs))
    fun _ _ _ hc hg => (index_ofExport hg).2.2.2 (himports _ hc)).2

theorem indexComplete_ofCalls (hstrands : ∀ s ∈ steps calls, ¬ s.Strands) :
    IndexComplete (ofCalls calls).nodes (ofCalls calls).concepts :=
  (steps_induction (fun g => IndexComplete g.nodes g.concepts) (fun _ _ h => nomatch h)
    (fun s hs h => (indexComplete_after_iff hs h).2 (hstrands s hs))
    fun _ _ _ _ hg => (index_ofExport hg).2.2.1).2

def TextConcepts (g : Graph) : Prop :=
  ∀ k n, g.nodes.get? k = some n → n.kind = .concept → ∃ s, n.name = .text s

theorem TextConcepts.writeNode (h : g.TextConcepts) {id : Scalar} {d : NodeDraft}
    (hname : d.kind = .concept → ∃ s, (g.written now id d).name = .text s) :
    ((Graph.writeNode now id d).after g).TextConcepts := by
  rcases after_writeNode g now id d with hsame | ⟨c, hwritten, -⟩
  · rwa [hsame]
  · rw [hwritten]
    intro k n hn hkind
    rw [get?_nodes_withNode] at hn
    split at hn
    · cases hn
      exact hname (written_kind.symm.trans hkind)
    · exact h k n hn hkind

theorem textConcepts_kept (now : String) :
    Kept now (fun _ d => d.kind = .concept → ∃ s, d.name = some (.text s))
      fun g _ => g.TextConcepts where
  node g _ id d hd h := h.writeNode fun hkind => by
    obtain ⟨s, hs⟩ := hd hkind
    exact ⟨s, written_name hs⟩
  edge g _ _ _ _ _ e _ h k n hn hkind := by
    obtain ⟨n', hn', hkind', hname'⟩ := (sameNames_putEdge (e := e)).symm.exists_of_get? hn
    obtain ⟨s, hs⟩ := h k n' hn' (hkind'.trans hkind)
    exact ⟨s, hname' ▸ hs⟩

end Graph

/-- Whether a call that adds a node to this graph leaves it with a text for its name. -/
def Call.NamesText (g : Graph) : Call → Prop
  | addNode now id data => ∀ k d, id.key = .ok k → NodeDraft.read data = .ok d →
      ∃ s, (g.written now k d).name = .text s
  | _ => True

namespace Graph

variable {g : Graph} {calls : List Call}

theorem TextConcepts.after (h : g.TextConcepts) (hkeyed : g.NodesKeyed) {c : Call}
    (hc : c.NamesText g) : (c.after g).TextConcepts := by
  cases c with
  | addNode now id data =>
    simp only [Call.after, addNode, Change.after, EStateM.run_bind]
    cases hread : NodeDraft.read data with
    | error e => exact h
    | ok d =>
      cases hk : id.key with
      | error e => exact h
      | ok k => exact h.writeNode fun _ => hc k d hk hread
  | addRelationship now source target kind properties =>
    exact @Kept.addRelationship _ _ _ g [] (textConcepts_kept now) source target kind properties h
  | ingest now records =>
    refine @Kept.ingest _ _ _ g [] (textConcepts_kept now) hkeyed records ?_ h
    refine Ingestion.drafts_of_mem_writes (fun _ _ _ _ hkind => NodeKind.noConfusion hkind) ?_
    exact fun _ _ _ hne _ hkind => absurd hkind hne
  | discover now threshold =>
    refine @Kept.discover _ _ _ g [] (textConcepts_kept now) hkeyed threshold ?_ h
    exact Discovery.drafts_of_mem_writes fun _ p _ => ⟨p.name, rfl⟩
  | importExport now data =>
    rw [Call.after, after_importExport]
    cases hg : ofExport now data with
    | error e => exact h
    | ok g' => exact (index_ofExport hg).2.1

/-- If nodes are added with textual names, concepts have textual names after all calls. -/
theorem textConcepts_ofCalls
    (h : ∀ before c after, calls = before ++ c :: after → c.NamesText (ofCalls before)) :
    (ofCalls calls).TextConcepts := by
  induction calls using List.reverseRecOn with
  | nil => exact fun _ _ hn => nomatch hn
  | append_singleton before c ih =>
    have hafter : ofCalls (before ++ [c]) = c.after (ofCalls before) := by
      rw [ofCalls, List.foldl_append]
      rfl
    rw [hafter]
    refine (ih fun before' c' after' heq => ?_).after (nodesKeyed_ofCalls before) (h before c [] rfl)
    exact h before' c' (after' ++ [c]) (by rw [heq, List.append_assoc, List.cons_append])

end Graph

/-- After any calls at all the index leads to nodes. If the imports were given entries that lead to concepts
of their names, and no concept that the index leads to was given another name, then every entry leads to
a concept of its name. -/
theorem conceptIndex_of_calls (calls : List Call) :
    let g := Graph.ofCalls calls
    (∀ k x, g.concepts.get? k = some x → g.hasNode x = true) ∧
      ((∀ c ∈ calls, c.GivesSoundIndex) → (∀ s ∈ Graph.steps calls, ¬ s.Renames) →
        Graph.IndexSound g.nodes g.concepts) :=
  ⟨Graph.hasNode_of_concepts calls, Graph.indexSound_ofCalls⟩

/-- An import with a sound index, a file that becomes a concept, and a concept that becomes a file. -/
def soundCalls : List Call := [
  .importExport "t0" (.fields [
    ("nodes", .list [
      .list [.text "c", .fields [("type", .text "concept"), ("name", .text "Cache")]],
      .list [.text "f", .fields [("type", .text "file"), ("name", .text "store.py")]]]),
    ("conceptIndex", .list [.list [.text "cache", .text "c"]])]),
  .addNode "t1" (.text "f") (.fields [("type", .text "concept"), ("name", .text "Store")]),
  .addRelationship "t2" (.text "c") (.text "f") (.text "USES") .null,
  .addNode "t3" (.text "c") (.fields [("type", .text "file"), ("name", .text "cache.py")])]

theorem soundCalls_conditions :
    (∀ c ∈ soundCalls, c.GivesSoundIndex) ∧
      ∀ s ∈ Graph.steps soundCalls, ¬ s.Renames ∧ ¬ s.Strands := by
  decide +kernel

theorem conceptIndex_of_soundCalls :
    (∀ c ∈ soundCalls, c.GivesSoundIndex) ∧ (∀ s ∈ Graph.steps soundCalls, ¬ s.Renames) ∧
      Graph.IndexSound (Graph.ofCalls soundCalls).nodes (Graph.ofCalls soundCalls).concepts := by
  obtain ⟨himports, hsteps⟩ := soundCalls_conditions
  have hrenames : ∀ s ∈ Graph.steps soundCalls, ¬ s.Renames := fun s hs => (hsteps s hs).1
  exact ⟨himports, hrenames, (conceptIndex_of_calls soundCalls).2 himports hrenames⟩

def renamedCalls : List Call := [
  .addNode "t0" (.text "c") (.fields [("type", .text "concept"), ("name", .text "Cache")]),
  .addNode "t1" (.text "c") (.fields [("type", .text "concept"), ("name", .text "Store")])]

def misledCalls : List Call := [
  .importExport "t0" (.fields [
    ("nodes", .list [.list [.text "f", .fields [("type", .text "file"), ("name", .text "Cache")]]]),
    ("conceptIndex", .list [.list [.text "cache", .text "f"]])])]

/-- Without either condition an entry may lead to a concept of another name, or to no concept. -/
theorem not_indexSound_of_calls :
    (∀ c ∈ renamedCalls, c.GivesSoundIndex) ∧
      ¬ Graph.IndexSound (Graph.ofCalls renamedCalls).nodes (Graph.ofCalls renamedCalls).concepts ∧
      (∀ s ∈ Graph.steps misledCalls, ¬ s.Renames) ∧
      ¬ Graph.IndexSound (Graph.ofCalls misledCalls).nodes (Graph.ofCalls misledCalls).concepts := by
  decide +kernel

/-- After calls that add nodes with textual names and strand no concept, the name of every concept is looked
up with success, and a query for its pattern asks for the uses of the node that is found, unless the id
of that node counts as absent; as long as the index is sound, that node is a concept. -/
theorem conceptId_of_calls (calls : List Call)
    (hnames : ∀ before c after, calls = before ++ c :: after → c.NamesText (Graph.ofCalls before))
    (hstrands : ∀ s ∈ Graph.steps calls, ¬ s.Strands) :
    let g := Graph.ofCalls calls
    ∀ n ∈ g.nodes.values, n.kind = .concept → ∃ s id, n.name = .text s ∧ g.conceptId? s = some id ∧
      g.hasNode id = true ∧
      (∀ limit, (Value.scalar id).isFalsy = false →
        Query.patterns g limit n.name = Query.usage g limit id) ∧
      ((∀ c ∈ calls, c.GivesSoundIndex) → (∀ s ∈ Graph.steps calls, ¬ s.Renames) →
        ∃ m, g.nodes.get? id = some m ∧ m.kind = .concept) := by
  intro g n hn hkind
  obtain ⟨k, hk⟩ := Table.mem_values_iff.1 hn
  obtain ⟨s, hs⟩ := Graph.textConcepts_ofCalls hnames k n hk hkind
  have hlowered : n.name.lowered = .ok (Text.lowerText s) := Value.lowered_eq_ok.2 ⟨s, hs, rfl⟩
  obtain ⟨id, hid⟩ := Table.contains_iff.1 (Graph.indexComplete_ofCalls hstrands k n hk hkind _ hlowered)
  have hfound : g.conceptId? s = some id := hid
  refine ⟨s, id, hs, hfound, Graph.hasNode_of_concepts calls _ id hid, ?_, ?_⟩
  · intro limit hfalsy
    rw [hs]
    simp [Query.patterns, hfound, hfalsy]
  · intro himports hrenames
    obtain ⟨m, name, hm, hmkind, -, -⟩ := Graph.indexSound_ofCalls himports hrenames _ id hid
    exact ⟨m, hm, hmkind⟩

theorem Call.namesText_of_field {now : String} {id data : Value} {g : Graph} (s : String)
    (h : data.field? "name" = .ok (some (.text s))) : (addNode now id data).NamesText g := by
  intro k d _ hd
  have hname := NodeDraft.name_of_read hd
  rw [h] at hname
  exact ⟨s, Graph.written_name (Except.ok.inj hname).symm⟩

theorem conceptId_of_soundCalls :
    (∀ s ∈ Graph.steps soundCalls, ¬ s.Strands) ∧
      ∃ n ∈ (Graph.ofCalls soundCalls).nodes.values, n.kind = .concept ∧
        ∃ s id, n.name = .text s ∧ (Graph.ofCalls soundCalls).conceptId? s = some id := by
  obtain ⟨himports, hsteps⟩ := soundCalls_conditions
  have hstrands : ∀ s ∈ Graph.steps soundCalls, ¬ s.Strands := fun s hs => (hsteps s hs).2
  have hnames : ∀ c ∈ soundCalls, ∀ g, c.NamesText g := by
    intro c hc g
    simp only [soundCalls, List.mem_cons, List.not_mem_nil, or_false] at hc
    rcases hc with rfl | rfl | rfl | rfl
    · trivial
    · exact Call.namesText_of_field "Store" rfl
    · trivial
    · exact Call.namesText_of_field "cache.py" rfl
  have hconcept : ∃ n ∈ (Graph.ofCalls soundCalls).nodes.values, n.kind = .concept := by
    decide +kernel
  obtain ⟨n, hn, hkind⟩ := hconcept
  obtain ⟨s, id, hs, hid, -⟩ := conceptId_of_calls soundCalls
    (fun before c after heq => hnames c (by rw [heq]; simp) _) hstrands n hn hkind
  exact ⟨hstrands, n, hn, hkind, s, id, hs, hid⟩

def strandedCalls : List Call := [
  .addNode "t0" (.text "a") (.fields [("type", .text "concept"), ("name", .text "Cache")]),
  .addNode "t1" (.text "b") (.fields [("type", .text "concept"), ("name", .text "cache")]),
  .addNode "t2" (.text "b") (.fields [("type", .text "file"), ("name", .text "cache.py")])]

/-- The entry of a name is taken along by any concept of that name, whichever it leads to. -/
theorem conceptId_strandedCalls :
    (∃ n, (Graph.ofCalls strandedCalls).nodes.get? (.text "a") = some n ∧ n.kind = .concept ∧
      n.name = .text "Cache") ∧
      (Graph.ofCalls strandedCalls).conceptId? "Cache" = none :=
  ⟨⟨_, rfl, rfl, rfl⟩, rfl⟩

end CodeAtlas
