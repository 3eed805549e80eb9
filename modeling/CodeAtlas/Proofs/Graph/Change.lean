import CodeAtlas.Graph.Change
import CodeAtlas.Proofs.Table

/-! Running the two elementary changes. Writing a node replaces one entry of the node table and may touch
the concept index; relating two nodes either changes nothing or stores one edge between nodes that are
there. Nothing else ever happens to a graph that is not imported. -/

namespace CodeAtlas

theorem Except.bind_eq_ok {ε α β : Type} {x : Except ε α} {f : α → Except ε β} {b : β} :
    (x >>= f) = .ok b ↔ ∃ a, x = .ok a ∧ f a = .ok b := by
  cases x with
  | ok a => simp [bind, Except.bind]
  | error e => simp [bind, Except.bind]

theorem Except.bind_eq_error {ε α β : Type} {x : Except ε α} {f : α → Except ε β} {e : ε} :
    (x >>= f) = .error e ↔ x = .error e ∨ ∃ a, x = .ok a ∧ f a = .error e := by
  cases x with
  | ok a => simp [bind, Except.bind]
  | error e' => simp [bind, Except.bind]

theorem Except.toOption_eq_some {ε α : Type} {x : Except ε α} {a : α} : x.toOption = some a ↔ x = .ok a := by
  cases x <;> simp [Except.toOption]

theorem run_bind_eq_ok {ε σ α β : Type} {x : EStateM ε σ α} {f : α → EStateM ε σ β} {s s' : σ} {b : β}
    (h : (x >>= f).run s = .ok b s') : ∃ a s₁, x.run s = .ok a s₁ ∧ (f a).run s₁ = .ok b s' := by
  rw [EStateM.run_bind] at h
  cases hx : x.run s with
  | ok a s₁ =>
    rw [hx] at h
    exact ⟨a, s₁, rfl, h⟩
  | error e s₁ =>
    rw [hx] at h
    cases h

theorem run_tryCatch {ε σ α : Type} (x : EStateM ε σ α) (handle : ε → EStateM ε σ α) (s : σ) :
    (tryCatch x handle).run s =
      match x.run s with
      | .ok a s' => .ok a s'
      | .error e s' => (handle e).run s' := by
  change EStateM.tryCatch x handle s = _
  unfold EStateM.tryCatch EStateM.run
  cases x s <;> rfl

namespace Change

variable {α : Type} {g : Graph}

@[simp] theorem run_check_ok {a : α} : (check (.ok a)).run g = .ok a g := rfl

@[simp] theorem run_check_error {e : Fault} : (check (α := α) (.error e)).run g = .error e g := rfl

theorem run_bind_ok {β : Type} {c : Change α} {f : α → Change β} {b : β} {g' : Graph}
    (h : (c >>= f).run g = .ok b g') : ∃ a g₁, c.run g = .ok a g₁ ∧ (f a).run g₁ = .ok b g' :=
  run_bind_eq_ok h

def succeeds (c : Change α) (g : Graph) : Bool :=
  match c.run g with
  | .ok .. => true
  | .error .. => false

theorem exists_run_of_succeeds {c : Change α} (h : c.succeeds g = true) : ∃ a g', c.run g = .ok a g' := by
  rw [succeeds] at h
  cases hrun : c.run g with
  | ok a g' => exact ⟨a, g', rfl⟩
  | error e g' =>
    rw [hrun] at h
    cases h

/-- The graph that a change leaves behind, whether it succeeds or fails. -/
def after (c : Change α) (g : Graph) : Graph :=
  match c.run g with
  | .ok _ g' => g'
  | .error _ g' => g'

theorem after_of_ok {c : Change α} {a : α} {g' : Graph} (h : c.run g = .ok a g') : c.after g = g' := by
  rw [after, h]

theorem after_of_error {c : Change α} {e : Fault} {g' : Graph} (h : c.run g = .error e g') :
    c.after g = g' := by
  rw [after, h]

end Change

namespace Graph

/-- The node that stands under `id` once a draft is written there. -/
def written (g : Graph) (now : String) (id : Scalar) (d : NodeDraft) : Node :=
  match g.nodes.get? id with
  | none => .fresh now id d
  | some old => .overwritten now old d

def freedConcepts (g : Graph) (id : Scalar) (kind : NodeKind) : Checked (Table Scalar) :=
  match g.nodes.get? id with
  | none => .ok g.concepts
  | some old => g.conceptsWithout old kind

/-- The graph with a draft written under `id` and this concept index. -/
def withNode (g : Graph) (now : String) (id : Scalar) (d : NodeDraft) (concepts : Table Scalar) :
    Graph where
  nodes := g.nodes.insert id (g.written now id d)
  edges := g.edges
  concepts := concepts

variable {g g' : Graph} {now : String} {id source target : Scalar} {d : NodeDraft}

theorem written_of_none (h : g.nodes.get? id = none) : g.written now id d = .fresh now id d := by
  rw [written, h]

theorem written_of_some {old : Node} (h : g.nodes.get? id = some old) :
    g.written now id d = .overwritten now old d := by
  rw [written, h]

@[simp] theorem written_kind : (g.written now id d).kind = d.kind := by
  unfold written
  split <;> rfl

@[simp] theorem written_properties : (g.written now id d).properties = d.properties := by
  unfold written
  split <;> rfl

theorem written_name {v : Value} (h : d.name = some v) : (g.written now id d).name = v := by
  unfold written
  split
  · exact congrArg (Option.getD · _) h
  · exact congrArg (Option.getD · _) h

theorem putNode_eq :
    g.putNode now id d =
      (g.freedConcepts id d.kind).map fun c => (g.withNode now id d c, g.written now id d) := by
  unfold putNode freedConcepts withNode written
  cases g.nodes.get? id with
  | none => rfl
  | some old =>
    simp only
    cases g.conceptsWithout old d.kind <;> rfl

theorem indexNode_eq_ok {n : Node} (h : g.indexNode id n = .ok g') :
    (n.kind ≠ .concept ∧ g' = g) ∨
      (n.kind = .concept ∧ ∃ name, n.name.lowered = .ok name ∧
        g' = { g with concepts := g.concepts.insert (.text name) id }) := by
  rw [indexNode] at h
  split at h
  · rename_i hk
    obtain ⟨name, hname, h⟩ := Except.bind_eq_ok.1 h
    cases h
    exact Or.inr ⟨hk, name, hname, rfl⟩
  · rename_i hk
    cases h
    exact Or.inl ⟨hk, rfl⟩

theorem writeNode_run :
    (writeNode now id d).run g =
      match g.freedConcepts id d.kind with
      | .error e => .error e g
      | .ok c =>
        match (g.withNode now id d c).indexNode id (g.written now id d) with
        | .error e => .error e (g.withNode now id d c)
        | .ok g' => .ok (g.written now id d) g' := by
  simp only [writeNode, EStateM.run_bind, EStateM.run_get, putNode_eq]
  cases g.freedConcepts id d.kind with
  | error e => rfl
  | ok c =>
    simp only [Except.map, Change.run_check_ok, EStateM.run_set]
    cases (g.withNode now id d c).indexNode id (g.written now id d) <;> rfl

/-- Freeing a name takes nothing into the index. -/
theorem get?_of_freedConcepts {kind : NodeKind} {c : Table Scalar} {k x : Scalar}
    (hc : g.freedConcepts id kind = .ok c) (hx : c.get? k = some x) : g.concepts.get? k = some x := by
  unfold freedConcepts at hc
  split at hc
  · cases hc
    exact hx
  · rw [conceptsWithout] at hc
    split at hc
    · obtain ⟨name, -, hc⟩ := Except.bind_eq_ok.1 hc
      cases hc
      rw [Table.get?_erase] at hx
      split at hx
      · cases hx
      · exact hx
    · cases hc
      exact hx

/-- Writing a node leaves the graph alone or has its draft under its id; every entry of the index then is
an old one or leads to the node. -/
theorem after_writeNode (g : Graph) (now : String) (id : Scalar) (d : NodeDraft) :
    (writeNode now id d).after g = g ∨
      ∃ c, (writeNode now id d).after g = g.withNode now id d c ∧
        ∀ k x, c.get? k = some x → g.concepts.get? k = some x ∨ x = id := by
  rw [Change.after, writeNode_run]
  cases hc : g.freedConcepts id d.kind with
  | error e => exact Or.inl rfl
  | ok c =>
    have hfreed : ∀ k x, c.get? k = some x → g.concepts.get? k = some x ∨ x = id :=
      fun k x hx => Or.inl (get?_of_freedConcepts hc hx)
    refine Or.inr ?_
    cases hi : (g.withNode now id d c).indexNode id (g.written now id d) with
    | error e => exact ⟨c, by simp only [hi], hfreed⟩
    | ok g' =>
      simp only [hi]
      rcases indexNode_eq_ok hi with ⟨-, rfl⟩ | ⟨-, name, -, rfl⟩
      · exact ⟨c, rfl, hfreed⟩
      · refine ⟨_, rfl, fun k x hx => ?_⟩
        rw [withNode, Table.get?_insert] at hx
        split at hx
        · exact Or.inr (Option.some.inj hx).symm
        · exact hfreed k x hx

theorem writeNode_ok {n : Node} (h : (writeNode now id d).run g = .ok n g') :
    n = g.written now id d ∧ ∃ c, g' = g.withNode now id d c := by
  rw [writeNode_run] at h
  cases hc : g.freedConcepts id d.kind with
  | error e => simp [hc] at h
  | ok c =>
    simp only [hc] at h
    cases hi : (g.withNode now id d c).indexNode id (g.written now id d) with
    | error e => simp [hi] at h
    | ok g'' =>
      simp only [hi, EStateM.Result.ok.injEq] at h
      obtain ⟨rfl, rfl⟩ := h
      rcases indexNode_eq_ok hi with ⟨-, rfl⟩ | ⟨-, name, -, rfl⟩
      · exact ⟨rfl, c, rfl⟩
      · exact ⟨rfl, _, rfl⟩

/-- Where no concept is involved, writing a node cannot fail and leaves the index alone. -/
theorem writeNode_run_of_ne_concept (hd : d.kind ≠ .concept)
    (hold : ∀ old, g.nodes.get? id = some old → old.kind ≠ .concept) :
    (writeNode now id d).run g = .ok (g.written now id d) (g.withNode now id d g.concepts) := by
  have hfreed : g.freedConcepts id d.kind = .ok g.concepts := by
    unfold freedConcepts
    cases hn : g.nodes.get? id with
    | none => rfl
    | some old =>
      simp only [conceptsWithout]
      rw [if_neg fun h => hold old hn h.1]
      rfl
  have hindex : (g.withNode now id d g.concepts).indexNode id (g.written now id d) =
      .ok (g.withNode now id d g.concepts) := by
    unfold indexNode
    rw [written_kind, if_neg hd]
    rfl
  rw [writeNode_run, hfreed]
  simp only [hindex]

theorem hasNode_iff : g.hasNode id = true ↔ ∃ n, g.nodes.get? id = some n := Table.contains_iff

theorem checkEnds_eq_ok :
    g.checkEnds source target = .ok () ↔ g.hasNode source = true ∧ g.hasNode target = true := by
  unfold checkEnds missing
  by_cases h : source.same target = true
  · have ht : g.hasNode target = g.hasNode source :=
      (Table.contains_congr (Scalar.same_iff.1 h)).symm
    rw [if_pos h, ht]
    cases hs : g.hasNode source <;> simp [hs]
  · rw [if_neg h]
    cases hs : g.hasNode source <;> cases ht : g.hasNode target <;> simp [hs, ht]

/-- The edge that relating two nodes stores. -/
def relationship (now : String) (source target : Scalar) (kind : RelationKind)
    (properties : Properties) (strength : Float) : Edge where
  id := .text (edgeId source.shown target.shown kind.name)
  source := source
  target := target
  kind := kind
  strength := strength
  properties := properties
  created := .text now

variable {kind : RelationKind} {properties : Properties}

theorem relate_run :
    (relate now source target kind properties).run g =
      match g.checkEnds source target with
      | .error e => .error e g
      | .ok _ =>
        match strengthOf properties with
        | .error e => .error e g
        | .ok x =>
          .ok (relationship now source target kind properties x)
            (g.putEdge (relationship now source target kind properties x)) := by
  simp only [relate, EStateM.run_bind, EStateM.run_get]
  cases g.checkEnds source target with
  | error e => rfl
  | ok u =>
    cases strengthOf properties <;> rfl

theorem relate_run_of_hasNode (hs : g.hasNode source = true) (ht : g.hasNode target = true) :
    (relate now source target kind ∅).run g =
      .ok (relationship now source target kind ∅ 1.0)
        (g.putEdge (relationship now source target kind ∅ 1.0)) := by
  have hstrength : strengthOf ∅ = .ok 1.0 := rfl
  rw [relate_run, checkEnds_eq_ok.2 ⟨hs, ht⟩, hstrength]

/-- Relating two nodes stores one edge between nodes that are there. -/
theorem relate_ok {e : Edge} (h : (relate now source target kind properties).run g = .ok e g') :
    g.hasNode source = true ∧ g.hasNode target = true ∧
      (∃ x, strengthOf properties = .ok x ∧
        e = relationship now source target kind properties x) ∧ g' = g.putEdge e := by
  rw [relate_run] at h
  cases hc : g.checkEnds source target with
  | error e' => simp [hc] at h
  | ok u =>
    cases hx : strengthOf properties with
    | error e' => simp [hc, hx] at h
    | ok x =>
      simp only [hc, hx, EStateM.Result.ok.injEq] at h
      obtain ⟨rfl, rfl⟩ := h
      obtain ⟨hs, ht⟩ := checkEnds_eq_ok.1 hc
      exact ⟨hs, ht, ⟨x, rfl, rfl⟩, rfl⟩

/-- A relationship that is refused leaves the graph as it was. -/
theorem relate_error {e : Fault} (h : (relate now source target kind properties).run g = .error e g') :
    g' = g := by
  rw [relate_run] at h
  cases hc : g.checkEnds source target with
  | error e' =>
    simp only [hc, EStateM.Result.error.injEq] at h
    exact h.2.symm
  | ok u =>
    cases hx : strengthOf properties with
    | error e' =>
      simp only [hc, hx, EStateM.Result.error.injEq] at h
      exact h.2.symm
    | ok x => simp [hc, hx] at h

end Graph

end CodeAtlas
