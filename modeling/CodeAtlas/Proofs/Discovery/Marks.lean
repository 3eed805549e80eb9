import CodeAtlas.Proofs.Discovery.Writes
import CodeAtlas.Proofs.Graph.ConceptIndex
import CodeAtlas.Proofs.Graph.Repeat

/-! Discovery as marks: a pattern becomes a concept under its name, and nodes are made to implement it. Where
the nodes are there, marks cannot fail. What they leave in the index, in the edges and in the data of the
nodes depends on nothing but the marks and what was there before, so making them once more changes
times only. -/

namespace CodeAtlas

/-- One write of a discovery. -/
inductive Mark where
  /-- A pattern becomes a concept. -/
  | concept (p : Pattern)
  /-- A node is made to implement the concept of a pattern. -/
  | implement (p : Pattern) (related : Scalar)

namespace Pattern

/-- The id of the concept of a pattern. -/
def key (p : Pattern) : Scalar := conceptId (.text p.name)

def edge (now : String) (p : Pattern) (related : Scalar) : Edge :=
  Graph.relationship now related p.key .implements (.ofFields [("confidence", .float p.confidence)]) 1.0

def marks (p : Pattern) : List Mark := .concept p :: p.related.map (.implement p)

end Pattern

namespace Mark

def write : Mark → Write
  | concept p => .node p.key p.draft
  | implement p related =>
    .link related p.key .implements (.ofFields [("confidence", .float p.confidence)])

def apply (now : String) (g : Graph) : Mark → Graph
  | concept p =>
    g.withNode now p.key p.draft (g.concepts.insert (.text (Text.lowerText p.name)) p.key)
  | implement p related => g.putEdge (p.edge now related)

def Ready (g : Graph) : Mark → Prop
  | concept _ => True
  | implement p related => g.hasNode related = true ∧ g.hasNode p.key = true

/-- What a mark leaves behind: a concept under its id, or an edge that is listed at its ends. -/
def Made (g : Graph) : Mark → Prop
  | concept p => ∃ n, g.nodes.get? p.key = some n ∧ n.kind = .concept
  | implement p related => ∀ j, (p.edge "" related).Touches j →
      ∃ n, g.nodes.get? j = some n ∧ n.connections.contains (p.edge "" related).id = true

variable {g : Graph} {now : String} {m m' : Mark} {k : Scalar}

theorem hasNode_apply (h : g.hasNode k = true) : (m.apply now g).hasNode k = true := by
  cases m with
  | concept p => exact Graph.hasNode_withNode h
  | implement p related => exact Graph.hasNode_putEdge.trans h

theorem Ready.apply (h : m.Ready g) : m.Ready (m'.apply now g) := by
  cases m with
  | concept p => trivial
  | implement p related => exact ⟨hasNode_apply h.1, hasNode_apply h.2⟩

/-- A mark whose nodes are there is made. -/
theorem run_of_ready (h : m.Ready g) : (m.write.run now).run g = .ok () (m.apply now g) := by
  cases m with
  | concept p =>
    have hkind : (g.written now p.key p.draft).kind = .concept := Graph.written_kind
    have hlowered : (g.written now p.key p.draft).name.lowered = .ok (Text.lowerText p.name) := by
      rw [Graph.written_name rfl]
      rfl
    have hindex : (g.withNode now p.key p.draft g.concepts).indexNode p.key
        (g.written now p.key p.draft) = .ok ((concept p).apply now g) := by
      rw [Graph.indexNode, if_pos hkind, hlowered]
      rfl
    rw [write, Write.run_node, Change.effect, Graph.writeNode_run, Graph.freedConcepts_of_concept rfl]
    simp only [hindex]
  | implement p related =>
    have hstrength : Graph.strengthOf (.ofFields [("confidence", .float p.confidence)]) = .ok 1.0 := rfl
    rw [write, Write.run, run_tryCatch, EStateM.run_bind, Graph.relate_run,
      Graph.checkEnds_eq_ok.2 h, hstrength]
    rfl

theorem Ready.made (h : m.Ready g) : m.Made (m.apply now g) := by
  cases m with
  | concept p =>
    refine ⟨g.written now p.key p.draft, ?_, Graph.written_kind⟩
    exact Graph.get?_nodes_withNode.trans (if_pos rfl)
  | implement p related =>
    intro j htouch
    have hj : g.hasNode j = true := by
      rcases htouch with hj | hj
      · exact (Table.contains_congr hj).symm.trans h.1
      · exact (Table.contains_congr hj).symm.trans h.2
    obtain ⟨n, hn⟩ := Graph.hasNode_iff.1 hj
    refine ⟨n.meet (p.edge now related) j, ?_, Node.contains_meet.2 (Or.inr ⟨rfl, htouch⟩)⟩
    rw [Mark.apply, Graph.get?_nodes_putEdge, hn, Option.map_some]

/-- No mark undoes what another one has left behind. -/
theorem Made.apply (h : m.Made g) : m.Made (m'.apply now g) := by
  cases m with
  | concept p =>
    obtain ⟨n, hn, hkind⟩ := h
    cases m' with
    | concept q =>
      by_cases hk : q.key.canon = p.key.canon
      · exact ⟨_, Graph.get?_nodes_withNode.trans (if_pos hk), Graph.written_kind⟩
      · exact ⟨n, Graph.get?_nodes_withNode.trans ((if_neg hk).trans hn), hkind⟩
    | implement q related =>
      refine ⟨_, Graph.get?_nodes_putEdge.trans (congrArg (Option.map _) hn), ?_⟩
      rw [Node.meet_kind, hkind]
  | implement p related =>
    intro j htouch
    obtain ⟨n, hn, hlisted⟩ := h j htouch
    cases m' with
    | concept q =>
      by_cases hk : q.key.canon = j.canon
      · refine ⟨_, Graph.get?_nodes_withNode.trans (if_pos hk), Graph.contains_written.2 ?_⟩
        exact ⟨n, (Table.get?_congr hk).trans hn, hlisted⟩
      · exact ⟨n, Graph.get?_nodes_withNode.trans ((if_neg hk).trans hn), hlisted⟩
    | implement q other =>
      refine ⟨_, Graph.get?_nodes_putEdge.trans (congrArg (Option.map _) hn), ?_⟩
      exact Node.contains_meet.2 (Or.inl hlisted)

end Mark

def Graph.mark (now : String) (ms : List Mark) (g : Graph) : Graph :=
  ms.foldl (fun g m => m.apply now g) g

namespace Mark

variable {g : Graph} {now : String} {m : Mark} {ms ms' : List Mark} {k : Scalar}

theorem hasNode_mark (h : g.hasNode k = true) : (g.mark now ms).hasNode k = true := by
  induction ms generalizing g with
  | nil => exact h
  | cons m rest ih => exact ih (hasNode_apply h)

theorem Made.mark (h : m.Made g) : m.Made (g.mark now ms) := by
  induction ms generalizing g with
  | nil => exact h
  | cons m' rest ih => exact ih h.apply

def AllReady (now : String) : List Mark → Graph → Prop
  | [], _ => True
  | m :: rest, g => m.Ready g ∧ AllReady now rest (m.apply now g)

theorem allReady_of_ready (h : ∀ m ∈ ms, m.Ready g) : AllReady now ms g := by
  induction ms generalizing g with
  | nil => trivial
  | cons m rest ih =>
    refine ⟨h m List.mem_cons_self, ih fun m' hm' => ?_⟩
    exact (h m' (List.mem_cons_of_mem _ hm')).apply

theorem AllReady.append (h : AllReady now ms g) (h' : AllReady now ms' (g.mark now ms)) :
    AllReady now (ms ++ ms') g := by
  induction ms generalizing g with
  | nil => exact h'
  | cons m rest ih => exact ⟨h.1, ih h.2 h'⟩

theorem allReady_marks {p : Pattern} (h : ∀ r ∈ p.related, g.hasNode r = true) : AllReady now p.marks g := by
  refine ⟨trivial, allReady_of_ready fun m hm => ?_⟩
  obtain ⟨r, hr, rfl⟩ := List.mem_map.1 hm
  exact ⟨hasNode_apply (h r hr), Graph.hasNode_withNode_self⟩

theorem allReady_patterns {ps : List Pattern} (h : ∀ p ∈ ps, ∀ r ∈ p.related, g.hasNode r = true) :
    AllReady now (ps.flatMap Pattern.marks) g := by
  induction ps generalizing g with
  | nil => trivial
  | cons p rest ih =>
    rw [List.flatMap_cons]
    refine (allReady_marks (h p List.mem_cons_self)).append (ih fun q hq r hr => ?_)
    exact hasNode_mark (h q (List.mem_cons_of_mem _ hq) r hr)

namespace AllReady

theorem run (h : AllReady now ms g) :
    (Write.runAll now (ms.map write)).run g = .ok () (g.mark now ms) := by
  induction ms generalizing g with
  | nil => rfl
  | cons m rest ih =>
    rw [List.map_cons, Write.runAll_cons, run_of_ready h.1]
    exact ih h.2

theorem made (h : AllReady now ms g) : ∀ m ∈ ms, m.Made (g.mark now ms) := by
  induction ms generalizing g with
  | nil => exact fun m hm => absurd hm List.not_mem_nil
  | cons m rest ih =>
    intro m' hm'
    rcases List.mem_cons.1 hm' with rfl | hm'
    · exact h.1.made.mark
    · exact ih h.2 m' hm'

theorem keeps (Inv : Graph → Prop) (h : AllReady now ms g) (hg : Inv g)
    (hm : ∀ m ∈ ms, ∀ g, m.Ready g → Inv g → Inv (m.apply now g)) : Inv (g.mark now ms) := by
  induction ms generalizing g with
  | nil => exact hg
  | cons m rest ih =>
    exact ih h.2 (hm m List.mem_cons_self g h.1 hg) fun m' hm' => hm m' (List.mem_cons_of_mem _ hm')

end AllReady

section View

variable {α : Type} (view : Graph → Table α) (entries : Mark → List (Scalar × α))

theorem view_mark (h : ∀ now g m, view (m.apply now g) = (view g).writeAll (entries m)) (now : String) :
    view (g.mark now ms) = (view g).writeAll (ms.flatMap entries) := by
  induction ms generalizing g with
  | nil => rfl
  | cons m rest ih =>
    refine (@ih (m.apply now g)).trans ?_
    rw [h, List.flatMap_cons]
    exact List.foldl_append.symm

theorem view_mark_again (h : ∀ now g m, view (m.apply now g) = (view g).writeAll (entries m))
    (now now' : String) : view ((g.mark now ms).mark now' ms) = view (g.mark now ms) := by
  rw [view_mark view entries h now', view_mark view entries h now, Table.writeAll_again]

end View

end Mark

theorem Graph.mapValues_nodes_putEdge {α : Type} {g : Graph} {e : Edge} {f : Node → α}
    (h : ∀ n k, f (n.meet e k) = f n) : (g.putEdge e).nodes.mapValues f = g.nodes.mapValues f := by
  refine Table.mapValues_eq_of_get? keys_nodes_putEdge fun k n hn => ?_
  exact ⟨n.meet e k, get?_nodes_putEdge.trans (congrArg (Option.map _) hn), h n k⟩

namespace Mark

def indexEntries : Mark → List (Scalar × Scalar)
  | concept p => [(.text (Text.lowerText p.name), p.key)]
  | implement .. => []

def draftEntries : Mark → List (Scalar × NodeDraft)
  | concept p => [(p.key, p.draft)]
  | implement .. => []

def edgeEntries : Mark → List (Scalar × Edge)
  | concept _ => []
  | implement p related => [((p.edge "" related).id, (p.edge "" related).untimed)]

theorem concepts_apply (now : String) (g : Graph) (m : Mark) :
    (m.apply now g).concepts = g.concepts.writeAll m.indexEntries := by
  cases m <;> rfl

theorem edges_apply (now : String) (g : Graph) (m : Mark) :
    (m.apply now g).edges.mapValues Edge.untimed = (g.edges.mapValues Edge.untimed).writeAll m.edgeEntries := by
  cases m with
  | concept p => rfl
  | implement p related => exact Table.mapValues_insert

theorem drafts_apply (now : String) (g : Graph) (m : Mark) :
    (m.apply now g).nodes.mapValues Node.draft = (g.nodes.mapValues Node.draft).writeAll m.draftEntries := by
  cases m with
  | concept p =>
    have hdraft : (g.written now p.key p.draft).draft = p.draft :=
      Graph.draft_written (Option.some_ne_none _)
    refine Table.mapValues_insert.trans ?_
    rw [hdraft]
    rfl
  | implement p related => exact Graph.mapValues_nodes_putEdge fun _ _ => Node.draft_meet

end Mark

/-- What is left of a node when it is written over by marks that were made before: a node that is no concept
is not touched, and of a concept at least its id, its birth and its connections stay. -/
structure Node.Stays (n m : Node) : Prop where
  id : m.id = n.id
  created : m.metadata.created = n.metadata.created
  connections : m.connections = n.connections
  same : n.kind ≠ .concept → m = n
  concept : n.kind = .concept → m.kind = .concept

def Graph.Stays (g g' : Graph) : Prop :=
  ∀ k n, g.nodes.get? k = some n → ∃ m, g'.nodes.get? k = some m ∧ n.Stays m

theorem Node.Stays.refl (n : Node) : n.Stays n := ⟨rfl, rfl, rfl, fun _ => rfl, fun h => h⟩

theorem Node.Stays.trans {n m l : Node} (h : n.Stays m) (h' : m.Stays l) : n.Stays l where
  id := h'.id.trans h.id
  created := h'.created.trans h.created
  connections := h'.connections.trans h.connections
  same hkind := by
    have hm := h.same hkind
    rw [h'.same (hm ▸ hkind), hm]
  concept hkind := h'.concept (h.concept hkind)

def Node.restamped (n : Node) : Node := if n.kind = .concept then n.untimed else n

/-- A graph apart from the times at which its concepts were last written and its edges were stored. -/
def Graph.restamped (g : Graph) : Graph where
  nodes := g.nodes.mapValues Node.restamped
  edges := g.edges.mapValues Edge.untimed
  concepts := g.concepts

namespace Graph.Stays

variable {g g' g'' : Graph}

theorem refl (g : Graph) : g.Stays g := fun _ n hn => ⟨n, hn, .refl n⟩

theorem trans (h : g.Stays g') (h' : g'.Stays g'') : g.Stays g'' := by
  intro k n hn
  obtain ⟨m, hm, hsame⟩ := h k n hn
  obtain ⟨l, hl, hsame'⟩ := h' k m hm
  exact ⟨l, hl, hsame.trans hsame'⟩

end Graph.Stays

theorem Node.Stays.restamped_eq {n m : Node} (h : n.Stays m) (hdraft : m.draft = n.draft) :
    m.restamped = n.restamped := by
  by_cases hkind : n.kind = .concept
  · rw [restamped, restamped, if_pos (h.concept hkind), if_pos hkind]
    exact untimed_eq h.id h.connections h.created hdraft
  · rw [h.same hkind]

theorem Graph.Stays.restamped_nodes {g g' : Graph} (h : g.Stays g')
    (hdrafts : g'.nodes.mapValues Node.draft = g.nodes.mapValues Node.draft) :
    g'.nodes.mapValues Node.restamped = g.nodes.mapValues Node.restamped := by
  have hkeys := congrArg Table.keys hdrafts
  rw [Table.keys_mapValues, Table.keys_mapValues] at hkeys
  refine Table.mapValues_eq_of_get? hkeys fun k n hn => ?_
  obtain ⟨m, hm, hsame⟩ := h k n hn
  have hdraft := congrArg (Table.get? · k) hdrafts
  simp only [Table.get?_mapValues, hn, hm, Option.map_some, Option.some.injEq] at hdraft
  exact ⟨m, hm, hsame.restamped_eq hdraft⟩

namespace Mark

variable {g : Graph} {now now' : String} {m : Mark} {ms : List Mark}

/-- A mark that was made before leaves all nodes but its concept as they are, and of that its data. -/
theorem Made.stays (h : m.Made g) : g.Stays (m.apply now g) := by
  intro k n hn
  cases m with
  | concept p =>
    obtain ⟨old, hold, hkind⟩ := h
    rw [Mark.apply, Graph.get?_nodes_withNode]
    by_cases hk : p.key.canon = k.canon
    · rw [if_pos hk]
      rw [← Table.get?_congr hk] at hn
      cases hn.symm.trans hold
      rw [Graph.written_of_some hn]
      exact ⟨_, rfl, rfl, rfl, rfl, fun hne => absurd hkind hne, fun _ => rfl⟩
    · rw [if_neg hk]
      exact ⟨n, hn, .refl n⟩
  | implement p related =>
    have hlisted : (p.edge now related).Touches k → n.connections.contains (p.edge now related).id = true := by
      intro htouch
      obtain ⟨n', hn', hlisted⟩ := h k htouch
      cases hn.symm.trans hn'
      exact hlisted
    refine ⟨n, ?_, .refl n⟩
    rw [Mark.apply, Graph.get?_nodes_putEdge, hn, Option.map_some, Node.meet_eq_self hlisted]

theorem stays_mark (h : ∀ m ∈ ms, m.Made g) : g.Stays (g.mark now ms) := by
  induction ms generalizing g with
  | nil => exact .refl g
  | cons m rest ih =>
    exact (h m List.mem_cons_self).stays.trans
      (ih fun m' hm' => (h m' (List.mem_cons_of_mem _ hm')).apply)

/-- Marks that were made once can be made again, and change nothing but times. -/
theorem AllReady.again (h : AllReady now ms g) :
    ((g.mark now ms).mark now' ms).restamped = (g.mark now ms).restamped := by
  have hstays : (g.mark now ms).Stays ((g.mark now ms).mark now' ms) := stays_mark h.made
  have hdrafts : ((g.mark now ms).mark now' ms).nodes.mapValues Node.draft =
      (g.mark now ms).nodes.mapValues Node.draft :=
    view_mark_again (fun g => g.nodes.mapValues Node.draft) draftEntries drafts_apply now now'
  have hedges : ((g.mark now ms).mark now' ms).edges.mapValues Edge.untimed =
      (g.mark now ms).edges.mapValues Edge.untimed :=
    view_mark_again (fun g => g.edges.mapValues Edge.untimed) edgeEntries edges_apply now now'
  have hconcepts : ((g.mark now ms).mark now' ms).concepts = (g.mark now ms).concepts :=
    view_mark_again Graph.concepts indexEntries concepts_apply now now'
  rw [Graph.restamped, Graph.restamped, hstays.restamped_nodes hdrafts, hedges, hconcepts]

end Mark

namespace Discovery

open Mark (AllReady allReady_patterns)

variable {g : Graph} {threshold : Value} {found : Found}

def Found.marks (found : Found) : List Mark := found.all.flatMap Pattern.marks

theorem Pattern.writes_eq (p : Pattern) : p.writes = p.marks.map Mark.write := by
  rw [Pattern.writes, Pattern.marks, List.map_cons, List.map_map]
  rfl

theorem discover_run_of_error (now : String) {e : Fault} (hfound : detect threshold g = .error e) :
    (discover now threshold).run g = .error e g := by
  simp only [discover, EStateM.run_bind, EStateM.run_get, hfound]
  rfl

/-- A discovery that succeeds answers with what is found. -/
theorem detect_of_run {now : String} {g' : Graph} (hrun : (discover now threshold).run g = .ok found g') :
    detect threshold g = .ok found := by
  obtain ⟨_, _, hget, hrun⟩ := Change.run_bind_ok hrun
  cases hget
  obtain ⟨found', _, hcheck, hrun⟩ := Change.run_bind_ok hrun
  obtain ⟨_, _, -, hrun⟩ := Change.run_bind_ok hrun
  cases hrun
  cases hdetect : detect threshold g with
  | error e =>
    rw [hdetect] at hcheck
    cases hcheck
  | ok found'' =>
    rw [hdetect] at hcheck
    cases hcheck
    rfl

theorem discover_run (now : String) (hkeyed : g.NodesKeyed) (hfound : detect threshold g = .ok found)
    (hthere : ∀ p ∈ found.all, ∀ r ∈ p.related, g.hasNode r = true) :
    (discover now threshold).run g = .ok found (g.mark now found.marks) := by
  have hready : AllReady now found.marks g := allReady_patterns hthere
  have hwrites : found.all.flatMap Pattern.writes = found.marks.map Mark.write := by
    rw [Found.marks, List.map_flatMap]
    exact congrArg (List.flatMap · found.all) (funext Pattern.writes_eq)
  have heffect := @materializeAll_effect now g found.all hkeyed
  rw [hwrites, hready.run, Change.effect_eq_run] at heffect
  simp only [discover, EStateM.run_bind, EStateM.run_get, hfound, Change.run_check_ok, heffect]
  rfl

end Discovery

end CodeAtlas
