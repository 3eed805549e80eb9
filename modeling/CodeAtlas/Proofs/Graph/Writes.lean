import CodeAtlas.Proofs.Graph.Linked

/-! Writes as data. A composite change is described by the list of writes it makes; what it keeps and which
edges it stores is then read off the list, one write at a time. -/

namespace CodeAtlas

/-- One write of a composite change. -/
inductive Write where
  /-- A node is written, new or over an old one. -/
  | node (id : Scalar) (draft : NodeDraft)
  /-- A node is written unless its id is taken. -/
  | newNode (id : Scalar) (draft : NodeDraft)
  /-- Two nodes are related, unless one of them is missing. -/
  | link (source target : Scalar) (kind : RelationKind) (properties : Properties)
  /-- The change breaks off. -/
  | stop (fault : Fault)

namespace Change

variable {α β : Type} {g : Graph}

/-- What a change does, whatever it answers. -/
def effect (c : Change α) (g : Graph) : EStateM.Result Fault Graph Unit :=
  match c.run g with
  | .ok _ g' => .ok () g'
  | .error e g' => .error e g'

theorem effect_eq_run (c : Change Unit) : c.effect g = c.run g := by
  unfold effect
  cases c.run g <;> rfl

theorem effect_of_ok {c : Change α} {a : α} {g' : Graph} (h : c.run g = .ok a g') :
    c.effect g = .ok () g' := by
  rw [effect, h]

theorem exists_run_of_effect {c : Change α} {g' : Graph} (h : c.effect g = .ok () g') :
    ∃ a, c.run g = .ok a g' := by
  unfold effect at h
  cases hrun : c.run g with
  | ok a g'' =>
    rw [hrun] at h
    cases h
    exact ⟨a, rfl⟩
  | error e g'' =>
    rw [hrun] at h
    cases h

theorem effect_bind (c : Change α) (f : α → Change β) :
    (c >>= f).effect g =
      match c.run g with
      | .ok a g' => (f a).effect g'
      | .error e g' => .error e g' := by
  unfold effect
  rw [EStateM.run_bind]
  cases c.run g <;> rfl

theorem after_eq_of_effect_eq {c : Change α} {c' : Change β} (h : c.effect g = c'.effect g) :
    c.after g = c'.after g := by
  unfold effect at h
  unfold after
  cases hc : c.run g <;> cases hc' : c'.run g <;> simp_all

end Change

namespace Write

/-- Carries out one write. -/
def run (now : String) : Write → Change Unit
  | node id d => do
    let _ ← Graph.writeNode now id d
  | newNode id d => do
    if (← get).hasNode id then return ()
    let _ ← Graph.writeNode now id d
  | link source target kind properties =>
    tryCatch
      (do
        let _ ← Graph.relate now source target kind properties)
      fun
      | .missingNodes _ => return ()
      | e => throw e
  | stop e => throw e

/-- Carries out writes in order, up to the first that fails. -/
def runAll (now : String) : List Write → Change Unit
  | [] => return ()
  | w :: rest => do
    w.run now
    runAll now rest

/-- The edge that a write stores in a graph, if it stores one. -/
def stored? (now : String) (g : Graph) : Write → Option Edge
  | link source target kind properties =>
    match (Graph.relate now source target kind properties).run g with
    | .ok e _ => some e
    | .error .. => none
  | _ => none

/-- The edges that writes store in order, up to the first write that fails. -/
def storedAll (now : String) : List Write → Graph → List Edge
  | [], _ => []
  | w :: rest, g =>
    (w.stored? now g).toList ++
      match (w.run now).run g with
      | .ok _ g' => storedAll now rest g'
      | .error .. => []

/-- Whether a write writes a node only under an id and with a draft that are allowed. -/
def Drafts (allowed : Scalar → NodeDraft → Prop) : Write → Prop
  | node id d => allowed id d
  | newNode id d => allowed id d
  | link .. => True
  | stop _ => True

theorem drafts_of_forall {allowed : Scalar → NodeDraft → Prop} (h : ∀ id d, allowed id d) (w : Write) :
    w.Drafts allowed := by
  cases w with
  | node id d => exact h id d
  | newNode id d => exact h id d
  | link source target kind properties => trivial
  | stop e => trivial

variable {now : String} {g : Graph} {w : Write} {ws ws' : List Write}

@[simp] theorem runAll_nil : (runAll now []).run g = .ok () g := rfl

theorem runAll_cons :
    (runAll now (w :: ws)).run g =
      match (w.run now).run g with
      | .ok _ g' => (runAll now ws).run g'
      | .error e g' => .error e g' := by
  rw [runAll, EStateM.run_bind]
  cases (w.run now).run g <;> rfl

theorem runAll_cons_ok {g' : Graph} (h : (runAll now (w :: ws)).run g = .ok () g') :
    ∃ g₁, (w.run now).run g = .ok () g₁ ∧ (runAll now ws).run g₁ = .ok () g' := by
  rw [runAll_cons] at h
  cases hw : (w.run now).run g with
  | ok u g₁ =>
    rw [hw] at h
    exact ⟨g₁, rfl, h⟩
  | error e g₁ =>
    rw [hw] at h
    cases h

theorem runAll_append :
    (runAll now (ws ++ ws')).run g =
      match (runAll now ws).run g with
      | .ok _ g' => (runAll now ws').run g'
      | .error e g' => .error e g' := by
  induction ws generalizing g with
  | nil => rfl
  | cons w rest ih =>
    rw [List.cons_append, runAll_cons, runAll_cons]
    cases (w.run now).run g with
    | ok _ g' => exact ih
    | error e g' => rfl

section Effect

variable {α β : Type} {c : Change α} {f : α → Change β}

/-- A change does what a list of writes does if it begins as the first write and, where that succeeds,
goes on as the others. -/
theorem effect_cons (hc : c.effect g = (w.run now).run g)
    (hf : ∀ a g', c.run g = .ok a g' → (w.run now).run g = .ok () g' →
      (f a).effect g' = (runAll now ws).run g') :
    (c >>= f).effect g = (runAll now (w :: ws)).run g := by
  rw [Change.effect_bind, runAll_cons, ← hc, Change.effect]
  cases hrun : c.run g with
  | ok a g' => exact hf a g' hrun (hc ▸ Change.effect_of_ok hrun)
  | error e g' => rfl

theorem effect_append (hc : c.effect g = (runAll now ws).run g)
    (hf : ∀ a g', c.run g = .ok a g' → (runAll now ws).run g = .ok () g' →
      (f a).effect g' = (runAll now ws').run g') :
    (c >>= f).effect g = (runAll now (ws ++ ws')).run g := by
  rw [Change.effect_bind, runAll_append, ← hc, Change.effect]
  cases hrun : c.run g with
  | ok a g' => exact hf a g' hrun (hc ▸ Change.effect_of_ok hrun)
  | error e g' => rfl

end Effect

theorem stop_notMem_of_run {g' : Graph} {e : Fault} (h : (runAll now ws).run g = .ok () g') :
    stop e ∉ ws := by
  induction ws generalizing g with
  | nil => exact List.not_mem_nil
  | cons w rest ih =>
    obtain ⟨g₁, hw, hrest⟩ := runAll_cons_ok h
    intro hmem
    rcases List.mem_cons.1 hmem with rfl | hmem
    · cases hw
    · exact ih hrest hmem

theorem run_node {id : Scalar} {d : NodeDraft} :
    ((node id d).run now).run g = (Graph.writeNode now id d).effect g := by
  rw [run, EStateM.run_bind, Change.effect]
  cases (Graph.writeNode now id d).run g <;> rfl

theorem run_newNode {id : Scalar} {d : NodeDraft} :
    ((newNode id d).run now).run g =
      if g.hasNode id then .ok () g else (Graph.writeNode now id d).effect g := by
  simp only [run, EStateM.run_bind, EStateM.run_get]
  cases g.hasNode id with
  | true => rfl
  | false =>
    simp only [Bool.false_eq_true, if_false, EStateM.run_bind, Change.effect]
    cases (Graph.writeNode now id d).run g <;> rfl

/-- A link either stores one edge or leaves the graph as it was. -/
theorem link_cases (now : String) (g : Graph) (source target : Scalar) (kind : RelationKind)
    (properties : Properties) :
    (∃ e, (Graph.relate now source target kind properties).run g = .ok e (g.putEdge e) ∧
      (link source target kind properties).stored? now g = some e ∧
      ((link source target kind properties).run now).run g = .ok () (g.putEdge e)) ∨
    (link source target kind properties).stored? now g = none ∧
      ((link source target kind properties).run now).after g = g := by
  have hrun : ((link source target kind properties).run now).run g = _ := run_tryCatch _ _ g
  rw [EStateM.run_bind] at hrun
  unfold stored?
  cases h : (Graph.relate now source target kind properties).run g with
  | ok e g' =>
    obtain ⟨-, -, -, rfl⟩ := Graph.relate_ok h
    rw [h] at hrun
    exact Or.inl ⟨e, rfl, by simp only [h], hrun⟩
  | error e g' =>
    cases Graph.relate_error h
    refine Or.inr ⟨by simp only [h], ?_⟩
    rw [h] at hrun
    rw [Change.after, hrun]
    cases e <;> rfl

/-- Every edge that is stored is stored by one of the writes. -/
theorem exists_of_mem_storedAll {e : Edge} (h : e ∈ storedAll now ws g) :
    ∃ w ∈ ws, ∃ g', w.stored? now g' = some e := by
  induction ws generalizing g with
  | nil => exact absurd h List.not_mem_nil
  | cons w rest ih =>
    rcases List.mem_append.1 h with h | h
    · exact ⟨w, List.mem_cons_self, g, Option.mem_toList.1 h⟩
    · cases hw : (w.run now).run g with
      | ok u g' =>
        rw [hw] at h
        obtain ⟨w', hw', hstored⟩ := ih h
        exact ⟨w', List.mem_cons_of_mem _ hw', hstored⟩
      | error e' g' =>
        rw [hw] at h
        exact absurd h List.not_mem_nil

/-- A link stores the relationship that it asks for. -/
theorem stored?_link_eq_some {source target : Scalar} {kind : RelationKind} {properties : Properties}
    {e : Edge} (h : (link source target kind properties).stored? now g = some e) :
    ∃ x, Graph.strengthOf properties = .ok x ∧
      e = Graph.relationship now source target kind properties x := by
  unfold stored? at h
  cases hrel : (Graph.relate now source target kind properties).run g with
  | error e' g' =>
    simp only [hrel] at h
    cases h
  | ok e' g' =>
    simp only [hrel] at h
    cases h
    exact (Graph.relate_ok hrel).2.2.1

end Write

/-- A statement about a graph and the edges stored so far that every elementary change keeps, as long as
nodes are written under ids and with drafts that are allowed. -/
structure Kept (now : String) (allowed : Scalar → NodeDraft → Prop)
    (Inv : Graph → List Edge → Prop) : Prop where
  node : ∀ g stored id d, allowed id d → Inv g stored →
    Inv ((Graph.writeNode now id d).after g) stored
  edge : ∀ g stored source target kind properties e,
    (Graph.relate now source target kind properties).run g = .ok e (g.putEdge e) →
    Inv g stored → Inv (g.putEdge e) (stored ++ [e])

namespace Kept

variable {now : String} {allowed : Scalar → NodeDraft → Prop} {Inv : Graph → List Edge → Prop}
  {g : Graph} {stored : List Edge}

theorem run (h : Kept now allowed Inv) {w : Write} (hw : w.Drafts allowed) (hg : Inv g stored) :
    Inv ((w.run now).after g) (stored ++ (w.stored? now g).toList) := by
  cases w with
  | node id d =>
    have hrun : ((Write.node id d).run now).after g = (Graph.writeNode now id d).after g :=
      Change.after_eq_of_effect_eq (by rw [Change.effect_eq_run, Write.run_node])
    rw [hrun]
    simpa [Write.stored?] using h.node g stored id d hw hg
  | newNode id d =>
    by_cases hid : g.hasNode id = true
    · have hrun : ((Write.newNode id d).run now).after g = g := by
        rw [Change.after, Write.run_newNode, if_pos hid]
      rw [hrun]
      simpa [Write.stored?] using hg
    · have hrun : ((Write.newNode id d).run now).after g = (Graph.writeNode now id d).after g :=
        Change.after_eq_of_effect_eq (by rw [Change.effect_eq_run, Write.run_newNode, if_neg hid])
      rw [hrun]
      simpa [Write.stored?] using h.node g stored id d hw hg
  | link source target kind properties =>
    rcases Write.link_cases now g source target kind properties with
      ⟨e, hrel, hst, hrun⟩ | ⟨hst, hrun⟩
    · rw [Change.after_of_ok hrun, hst]
      exact h.edge g stored source target kind properties e hrel hg
    · rw [hrun, hst]
      simpa using hg
  | stop e =>
    have hrun : ((Write.stop e).run now).after g = g := rfl
    rw [hrun]
    simpa [Write.stored?] using hg

/-- What every write keeps is kept by a list of writes, also by one that breaks off. -/
theorem runAll (h : Kept now allowed Inv) {ws : List Write} (hws : ∀ w ∈ ws, w.Drafts allowed)
    (hg : Inv g stored) :
    Inv ((Write.runAll now ws).after g) (stored ++ Write.storedAll now ws g) := by
  induction ws generalizing g stored with
  | nil =>
    rw [Change.after_of_ok Write.runAll_nil]
    simpa [Write.storedAll] using hg
  | cons w rest ih =>
    have hw := h.run (hws w List.mem_cons_self) hg
    rw [Change.after, Write.runAll_cons, Write.storedAll, ← List.append_assoc]
    cases hrun : (w.run now).run g with
    | ok u g' =>
      rw [Change.after_of_ok hrun] at hw
      exact ih (fun w hw => hws w (List.mem_cons_of_mem _ hw)) hw
    | error e g' =>
      rw [Change.after_of_error hrun] at hw
      simpa using hw

end Kept

theorem Graph.nodesKeyed_kept (now : String) :
    Kept now (fun _ _ => True) fun g _ => g.NodesKeyed where
  node g _ id d _ h := by
    rcases after_writeNode g now id d with hg | ⟨c, hg, -⟩
    · rw [hg]
      exact h
    · rw [hg]
      exact h.withNode c
  edge g _ _ _ _ _ e _ h := h.putEdge

end CodeAtlas
