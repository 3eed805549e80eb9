import CodeAtlas.Proofs.Graph.ConceptLookup

/-! What a call that fails leaves behind. Relating nodes and importing do all that can fail before they touch
the graph, so a failure leaves it as it was. Adding a node does so too, but for one case: the node is in
its place before its name goes into the index, so a concept whose name is no text stays behind. -/

namespace CodeAtlas

namespace Change

variable {α β : Type} {c : Change α}

/-- Whether a change leaves the graph as it was, whatever it answers. -/
def Reads (c : Change α) : Prop := ∀ g, c.after g = g

def Atomic (c : Change α) : Prop := ∀ g e g', c.run g = .error e g' → g' = g

theorem reads_check (a : Checked α) : (check a).Reads := fun _ => by cases a <;> rfl

theorem reads_get : (get : Change Graph).Reads := fun _ => rfl

theorem atomic_set (g : Graph) : (set g : Change PUnit).Atomic := fun _ _ _ h => by cases h

/-- A change may read as much as it likes before it does what is atomic. -/
theorem Reads.bind {f : α → Change β} (hc : c.Reads) (hf : ∀ a, (f a).Atomic) : (c >>= f).Atomic := by
  intro g e g' h
  have hg := hc g
  rw [EStateM.run_bind] at h
  cases hrun : c.run g with
  | ok a g₁ =>
    rw [after_of_ok hrun] at hg
    rw [hrun, hg] at h
    exact hf a g e g' h
  | error e₁ g₁ =>
    rw [after_of_error hrun] at hg
    rw [hrun] at h
    cases h
    exact hg

end Change

theorem Value.lowered_eq_error {v : Value} {e : Fault} :
    v.lowered = .error e ↔ e = .notOffered ∧ ∀ s, v ≠ .text s := by
  unfold Value.lowered
  split
  · simp
  · rename_i h
    simpa [eq_comm] using fun _ => h

def Fault.IsOfValue : Fault → Prop
  | .notOffered | .wrongSort | .malformed | .outOfRange => True
  | _ => False

namespace Value

variable {v : Value} {e : Fault}

theorem isOfValue_of_elements (h : v.elements = .error e) : e.IsOfValue := by
  unfold elements at h
  split at h <;> cases h
  trivial

theorem isOfValue_of_key (h : v.key = .error e) : e.IsOfValue := by
  unfold key at h
  split at h <;> cases h
  trivial

theorem isOfValue_of_toFloat (h : v.toFloat = .error e) : e.IsOfValue := by
  unfold toFloat at h
  split at h
  · cases h
  · cases h
  · simp only at h
    split at h <;> cases h
    trivial
  · split at h <;> cases h
    trivial
  · cases h
    trivial

theorem isOfValue_of_pair (h : v.pair = .error e) : e.IsOfValue := by
  rcases Except.bind_eq_error.1 h with h | ⟨parts, -, h⟩
  · exact isOfValue_of_elements h
  · split at h <;> cases h
    trivial

theorem isOfValue_of_toTable (h : v.toTable = .error e) : e.IsOfValue := by
  unfold toTable at h
  split at h
  · cases h
  · split at h
    · cases h
    · rcases Except.bind_eq_error.1 h with h | ⟨items, -, h⟩
      · exact isOfValue_of_elements h
      · rcases Except.bind_eq_error.1 h with h | ⟨entries, -, h⟩
        · obtain ⟨item, -, h⟩ := exists_of_mapM_error h
          rcases Except.bind_eq_error.1 h with h | ⟨⟨k, w⟩, -, h⟩
          · exact isOfValue_of_pair h
          · rcases Except.bind_eq_error.1 h with h | ⟨key, -, h⟩
            · exact isOfValue_of_key h
            · cases h
        · cases h

end Value

namespace Graph

variable {g g' : Graph} {now : String} {id : Scalar} {d : NodeDraft} {e : Fault}

theorem isOfValue_of_strengthOf {p : Properties} (h : strengthOf p = .error e) : e.IsOfValue := by
  unfold strengthOf at h
  split at h
  · cases h
  · rcases Except.bind_eq_error.1 h with h | ⟨x, -, h⟩
    · exact Value.isOfValue_of_toFloat h
    · cases h

theorem atomic_relate (now : String) (source target : Scalar) (kind : RelationKind) (p : Properties) :
    (relate now source target kind p).Atomic := fun _ _ _ h => relate_error h

theorem atomic_addRelationship (now : String) (source target kind properties : Value) :
    (addRelationship now source target kind properties).Atomic :=
  (Change.reads_check _).bind fun k => (Change.reads_check _).bind fun s =>
    (Change.reads_check _).bind fun t => Change.reads_get.bind fun _ =>
      (Change.reads_check _).bind fun _ => (Change.reads_check _).bind fun p => atomic_relate now s t k p

theorem atomic_importExport (now : String) (data : Value) : (importExport now data).Atomic :=
  (Change.reads_check _).bind fun g => Change.atomic_set g

def absentEnds (g : Graph) (s t : String) : List String :=
  (if s = t then [s] else [s, t]).filter fun x => !g.hasNode (.text x)

theorem mem_absentEnds {s t x : String} :
    x ∈ g.absentEnds s t ↔ (x = s ∨ x = t) ∧ g.hasNode (.text x) = false := by
  unfold absentEnds
  by_cases h : s = t <;> simp [h]

theorem nodup_absentEnds (g : Graph) (s t : String) : (g.absentEnds s t).Nodup := by
  unfold absentEnds
  refine List.Nodup.filter _ ?_
  by_cases h : s = t <;> simp [h]

theorem absentEnds_sublist (g : Graph) (s t : String) : (g.absentEnds s t).Sublist [s, t] := by
  unfold absentEnds
  refine List.filter_sublist.trans ?_
  by_cases h : s = t <;> simp [h]

theorem missing_map_text (ids : List String) :
    g.missing (ids.map .text) = (ids.filter fun x => !g.hasNode (.text x)).map .text := by
  rw [missing, List.filter_map]
  rfl

theorem missingFault_map_text (ids : List String) : missingFault (ids.map .text) = .missingNodes ids := by
  have hread : ∀ f : Scalar → Option String, (∀ x, f (.text x) = some x) →
      (ids.map Scalar.text).mapM f = some ids := by
    intro f hf
    induction ids with
    | nil => rfl
    | cons x rest ih => simp [hf, ih]
  rw [missingFault, hread _ fun _ => rfl]

theorem checkEnds_text (g : Graph) (s t : String) :
    g.checkEnds (.text s) (.text t) =
      if g.absentEnds s t = [] then .ok () else .error (.missingNodes (g.absentEnds s t)) := by
  have hends : (if (Scalar.text s).same (.text t) then [Scalar.text s] else [.text s, .text t]) =
      (if s = t then [s] else [s, t]).map .text := by
    by_cases h : s = t <;> simp [Scalar.same, h]
  have hmissing : g.missing ((if s = t then [s] else [s, t]).map .text) =
      (g.absentEnds s t).map .text := missing_map_text _
  rw [checkEnds, hends, hmissing]
  cases g.absentEnds s t with
  | nil => rfl
  | cons x rest =>
    rw [if_neg (List.cons_ne_nil x rest)]
    exact congrArg Except.error (missingFault_map_text (x :: rest))

theorem absentEnds_eq_nil {s t : String} :
    g.absentEnds s t = [] ↔ g.hasNode (.text s) = true ∧ g.hasNode (.text t) = true := by
  rw [List.eq_nil_iff_forall_not_mem]
  simp only [mem_absentEnds]
  constructor
  · intro h
    exact ⟨by simpa using h s, by simpa using h t⟩
  · rintro ⟨hs, ht⟩ x ⟨rfl | rfl, hx⟩
    · rw [hs] at hx
      cases hx
    · rw [ht] at hx
      cases hx

theorem absentEnds_ne_nil {s t : String} :
    g.absentEnds s t ≠ [] ↔ g.hasNode (.text s) = false ∨ g.hasNode (.text t) = false := by
  rw [ne_eq, absentEnds_eq_nil, not_and_or, Bool.not_eq_true, Bool.not_eq_true]

theorem addRelationship_text_run (g : Graph) (now s t : String) (kind : RelationKind) (properties : Value) :
    (addRelationship now (.text s) (.text t) (.text kind.name) properties).run g =
      if g.absentEnds s t = [] then
        match properties.toTable with
        | .error e => .error e g
        | .ok p => (relate now (.text s) (.text t) kind p).run g
      else .error (.missingNodes (g.absentEnds s t)) g := by
  have hs : (Value.text s).key = .ok (.text s) := rfl
  have ht : (Value.text t).key = .ok (.text t) := rfl
  simp only [addRelationship, RelationKind.read_name, hs, ht, EStateM.run_bind, EStateM.run_get,
    Change.run_check_ok, checkEnds_text]
  by_cases hnone : g.absentEnds s t = []
  · simp only [if_pos hnone]
    cases properties.toTable <;> rfl
  · simp only [if_neg hnone]
    rfl

/-- Relating nodes that are there may fail, but never for missing ends. -/
theorem isOfValue_of_relate {source target : Scalar} {kind : RelationKind} {p : Properties}
    (hs : g.hasNode source = true) (ht : g.hasNode target = true)
    (h : (relate now source target kind p).run g = .error e g') : e.IsOfValue := by
  rw [relate_run, checkEnds_eq_ok.2 ⟨hs, ht⟩] at h
  cases hx : strengthOf p with
  | error e' =>
    simp only [hx, EStateM.Result.error.injEq] at h
    exact h.1 ▸ isOfValue_of_strengthOf hx
  | ok x => simp [hx] at h

theorem addRelationship_missingNodes_iff {s t : String} {kind : RelationKind} {properties : Value}
    {ids : List String} :
    (addRelationship now (.text s) (.text t) (.text kind.name) properties).run g =
        .error (.missingNodes ids) g' ↔ ids = g.absentEnds s t ∧ ids ≠ [] ∧ g' = g := by
  rw [addRelationship_text_run]
  by_cases hnone : g.absentEnds s t = []
  · obtain ⟨hs, ht⟩ := absentEnds_eq_nil.1 hnone
    rw [if_pos hnone, hnone]
    refine ⟨fun h => ?_, fun h => absurd h.1 h.2.1⟩
    cases hp : properties.toTable with
    | error e =>
      simp only [hp, EStateM.Result.error.injEq] at h
      exact absurd (Value.isOfValue_of_toTable hp) (by simp [h.1, Fault.IsOfValue])
    | ok p =>
      simp only [hp] at h
      exact absurd (isOfValue_of_relate hs ht h) (by simp [Fault.IsOfValue])
  · simp only [if_neg hnone, EStateM.Result.error.injEq, Fault.missingNodes.injEq]
    constructor
    · rintro ⟨rfl, rfl⟩
      exact ⟨rfl, hnone, rfl⟩
    · rintro ⟨rfl, -, rfl⟩
      exact ⟨rfl, rfl⟩

/-- A relationship or an import that fails leaves the graph as it was. A relationship between textual ids
fails for missing nodes exactly if an end is no node, and lists each such end once, source before target. -/
theorem failed_calls_leave_graph (g : Graph) (now : String) :
    (∀ source target kind properties e g',
      (addRelationship now source target kind properties).run g = .error e g' → g' = g) ∧
    (∀ data e g', (importExport now data).run g = .error e g' → g' = g) ∧
    ∀ (s t : String) (kind : RelationKind) (properties : Value),
      let run := (addRelationship now (.text s) (.text t) (.text kind.name) properties).run g
      ((∃ ids g', run = .error (.missingNodes ids) g') ↔
        g.hasNode (.text s) = false ∨ g.hasNode (.text t) = false) ∧
      ∀ ids g', run = .error (.missingNodes ids) g' → ids.Nodup ∧ ids.Sublist [s, t] ∧
        ∀ x, x ∈ ids ↔ (x = s ∨ x = t) ∧ g.hasNode (.text x) = false := by
  refine ⟨fun _ _ _ _ e g' => atomic_addRelationship _ _ _ _ _ g e g',
    fun _ e g' => atomic_importExport _ _ g e g', fun s t kind properties => ⟨?_, ?_⟩⟩
  · rw [← absentEnds_ne_nil]
    constructor
    · rintro ⟨ids, g', h⟩
      obtain ⟨rfl, hne, -⟩ := addRelationship_missingNodes_iff.1 h
      exact hne
    · exact fun hne => ⟨_, g, addRelationship_missingNodes_iff.2 ⟨rfl, hne, rfl⟩⟩
  · intro ids g' h
    obtain ⟨rfl, -, -⟩ := addRelationship_missingNodes_iff.1 h
    exact ⟨g.nodup_absentEnds s t, g.absentEnds_sublist s t, fun x => mem_absentEnds⟩

def cacheGraph : Graph := ofCalls [
  .addNode "t0" (.text "a") (.fields [("type", .text "file"), ("name", .text "a.py")]),
  .addNode "t1" (.text "c") (.fields [("type", .text "concept"), ("name", .text "Cache")])]

def brokenExport : Value := .fields [
  ("nodes", .list [
    .list [.text "b", .fields [("type", .text "file"), ("name", .text "b.py")]],
    .list [.text "d", .fields [("type", .text "ghost")]]])]

theorem failed_calls_leave_cacheGraph :
    (∃ ids, (addRelationship "t2" (.text "a") (.text "ghost") (.text "USES") .null).run cacheGraph =
        .error (.missingNodes ids) cacheGraph ∧ ∀ x, x ∈ ids ↔ x = "ghost") ∧
      ∃ e, (importExport "t2" brokenExport).run cacheGraph = .error e cacheGraph := by
  obtain ⟨hrelated, himported, hends⟩ := failed_calls_leave_graph cacheGraph "t2"
  have ha : cacheGraph.hasNode (.text "a") = true := rfl
  have hghost : cacheGraph.hasNode (.text "ghost") = false := rfl
  obtain ⟨hmissing, hids⟩ := hends "a" "ghost" .uses .null
  obtain ⟨ids, g, hrun⟩ := hmissing.2 (Or.inr hghost)
  obtain ⟨-, -, hmem⟩ := hids ids g hrun
  obtain ⟨e, g', hbroken⟩ : ∃ e g', (importExport "t2" brokenExport).run cacheGraph = .error e g' :=
    ⟨_, _, rfl⟩
  refine ⟨⟨ids, hrelated _ _ _ _ _ _ hrun ▸ hrun, fun x => ?_⟩, e, himported _ _ _ hbroken ▸ hbroken⟩
  rw [hmem]
  constructor
  · rintro ⟨rfl | rfl, hx⟩
    · rw [ha] at hx
      cases hx
    · rfl
  · rintro rfl
    exact ⟨Or.inr rfl, hghost⟩

/-- How adding a node can fail, and the graph that is left then. -/
inductive NodeRefused (g : Graph) (now : String) (id data : Value) : Fault → Graph → Prop where
  | unread {e : Fault} (h : NodeDraft.read data = .error e) : NodeRefused g now id data e g
  | unkeyed {d : NodeDraft} {e : Fault} (hd : NodeDraft.read data = .ok d) (h : id.key = .error e) :
      NodeRefused g now id data e g
  /-- The old node is a concept whose name cannot be looked up. -/
  | unfreed {d : NodeDraft} {key : Scalar} {e : Fault} (hd : NodeDraft.read data = .ok d)
      (hkey : id.key = .ok key) (h : g.freedConcepts key d.kind = .error e) :
      NodeRefused g now id data e g
  /-- A concept is written whose name cannot go into the index. -/
  | unnamed {d : NodeDraft} {key : Scalar} {e : Fault} (hd : NodeDraft.read data = .ok d)
      (hkey : id.key = .ok key) (hkind : d.kind = .concept)
      (h : (g.written now key d).name.lowered = .error e) :
      NodeRefused g now id data e (g.withNode now key d g.concepts)

theorem indexNode_eq_error {n : Node} :
    g.indexNode id n = .error e ↔ n.kind = .concept ∧ n.name.lowered = .error e := by
  unfold indexNode
  split
  · rename_i hkind
    cases n.name.lowered <;> simp [hkind, bind, Except.bind, pure, Except.pure]
  · rename_i hkind
    simp [hkind, pure, Except.pure]

/-- Writing a node fails before it has done anything, or once the node is in its place. -/
theorem writeNode_eq_error :
    (writeNode now id d).run g = .error e g' ↔
      g.freedConcepts id d.kind = .error e ∧ g' = g ∨
        d.kind = .concept ∧ (g.written now id d).name.lowered = .error e ∧
          g' = g.withNode now id d g.concepts := by
  rw [writeNode_run]
  -- a concept frees no entry of the index and nothing else goes into it, so only one of the two can fail
  by_cases hd : d.kind = .concept
  · rw [freedConcepts_of_concept hd]
    simp only [reduceCtorEq, false_and, false_or]
    cases hindex : (g.withNode now id d g.concepts).indexNode id (g.written now id d) with
    | error e' =>
      obtain ⟨-, hname⟩ := indexNode_eq_error.1 hindex
      simp [hd, hname, eq_comm]
    | ok g₁ =>
      rcases indexNode_eq_ok hindex with ⟨hne, -⟩ | ⟨-, name, hname, -⟩
      · exact absurd (written_kind.trans hd) hne
      · simp [hname]
  · cases hc : g.freedConcepts id d.kind with
    | error e' => simp [hd, eq_comm]
    | ok c =>
      cases hindex : (g.withNode now id d c).indexNode id (g.written now id d) with
      | error e' => exact absurd (written_kind.symm.trans (indexNode_eq_error.1 hindex).1) hd
      | ok g₁ => simp [hd, hindex]

theorem addNode_eq_error {data : Value} {id : Value} :
    (addNode now id data).run g = .error e g' ↔ NodeRefused g now id data e g' := by
  simp only [addNode, EStateM.run_bind]
  constructor
  · intro h
    cases hd : NodeDraft.read data with
    | error e' =>
      simp only [hd, Change.run_check_error, EStateM.Result.error.injEq] at h
      obtain ⟨rfl, rfl⟩ := h
      exact .unread hd
    | ok d =>
      cases hkey : id.key with
      | error e' =>
        simp only [hd, hkey, Change.run_check_ok, Change.run_check_error, EStateM.Result.error.injEq] at h
        obtain ⟨rfl, rfl⟩ := h
        exact .unkeyed hd hkey
      | ok key =>
        simp only [hd, hkey, Change.run_check_ok] at h
        rcases writeNode_eq_error.1 h with ⟨hfreed, rfl⟩ | ⟨hkind, hname, rfl⟩
        · exact .unfreed hd hkey hfreed
        · exact .unnamed hd hkey hkind hname
  · intro h
    cases h with
    | unread hd => simp [hd]
    | unkeyed hd hkey => simp [hd, hkey]
    | unfreed hd hkey hfreed => simp [hd, hkey, writeNode_eq_error, hfreed]
    | unnamed hd hkey hkind hname => simp [hd, hkey, writeNode_eq_error, hkind, hname]

/-- Whether what is added under `id` has a text for its name if it is a concept. -/
def NamesConcept (g : Graph) (now : String) (id data : Value) : Prop :=
  ∀ key d, id.key = .ok key → NodeDraft.read data = .ok d → d.kind = .concept →
    ∃ s, (g.written now key d).name = .text s

theorem namesConcept_of_field {id data : Value} (s : String)
    (h : data.field? "name" = .ok (some (.text s))) : g.NamesConcept now id data :=
  fun key d hkey hd _ => Call.namesText_of_field s h key d hkey hd

/-- A node that cannot be added leaves the graph as it was, unless it is a concept whose name is no text.
Such a concept is refused once it is in its place, and only the index stays as it was. -/
theorem failed_addNode (g : Graph) (now : String) (id data : Value) :
    (g.NamesConcept now id data →
      ∀ e g', (addNode now id data).run g = .error e g' → g' = g) ∧
    (¬ g.NamesConcept now id data →
      ∃ key d, id.key = .ok key ∧ NodeDraft.read data = .ok d ∧ d.kind = .concept ∧
        (addNode now id data).run g = .error .notOffered (g.withNode now key d g.concepts)) := by
  constructor
  · intro hnames e g' h
    cases addNode_eq_error.1 h with
    | unread => rfl
    | unkeyed => rfl
    | unfreed => rfl
    | unnamed hd hkey hkind hname =>
      obtain ⟨s, hs⟩ := hnames _ _ hkey hd hkind
      exact absurd hs ((Value.lowered_eq_error.1 hname).2 s)
  · intro hnames
    simp only [NamesConcept, not_forall, not_exists] at hnames
    obtain ⟨key, d, hkey, hd, hkind, hname⟩ := hnames
    exact ⟨key, d, hkey, hd, hkind,
      addNode_eq_error.2 (.unnamed hd hkey hkind (Value.lowered_eq_error.2 ⟨rfl, hname⟩))⟩

def heavyConcept : Value :=
  .fields [("type", .text "concept"), ("name", .text "Store"), ("weight", .text "heavy")]

def namelessConcept : Value := .fields [("type", .text "concept"), ("name", .null)]

theorem failed_addNode_cacheGraph :
    (∃ e, (addNode "t2" (.text "c") heavyConcept).run cacheGraph = .error e cacheGraph) ∧
      ∃ d, (addNode "t2" (.text "c") namelessConcept).run cacheGraph =
        .error .notOffered (cacheGraph.withNode "t2" (.text "c") d cacheGraph.concepts) := by
  constructor
  · obtain ⟨e, g, hrun⟩ : ∃ e g, (addNode "t2" (.text "c") heavyConcept).run cacheGraph = .error e g :=
      ⟨_, _, rfl⟩
    have hsame := (failed_addNode cacheGraph "t2" (.text "c") heavyConcept).1
      (namesConcept_of_field "Store" rfl) e g hrun
    exact ⟨e, hsame ▸ hrun⟩
  · have hnames : ¬ cacheGraph.NamesConcept "t2" (.text "c") namelessConcept := by
      intro h
      obtain ⟨s, hs⟩ := h (.text "c") ⟨.concept, some .null, ∅, 1.0⟩ rfl rfl rfl
      cases hs
    obtain ⟨key, d, hkey, -, -, hrun⟩ :=
      (failed_addNode cacheGraph "t2" (.text "c") namelessConcept).2 hnames
    cases hkey
    exact ⟨d, hrun⟩

/-- A concept without a name is refused and stays all the same, and then it cannot become anything else. -/
theorem namelessConcept_stays :
    ∃ g, (addNode "t0" (.text "x") namelessConcept).run .empty = .error .notOffered g ∧
      g.hasNode (.text "x") = true ∧ Graph.empty.hasNode (.text "x") = false ∧
      (addNode "t1" (.text "x") (.fields [("type", .text "file"), ("name", .text "x.py")])).run g =
        .error .notOffered g :=
  ⟨_, rfl, rfl, rfl, rfl⟩

end Graph

end CodeAtlas
