import CodeAtlas.Proofs.Graph.Failure

/-! Writes that cannot fail. Writing a node fails only over the name of a concept, and a link with texts for its
ends is at worst left out; so where all concepts are named by texts, writes that name their concepts so
all succeed. -/

namespace CodeAtlas

/-- Whether a write cannot fail as long as all concepts are named by texts. -/
def Write.Safe : Write → Prop
  | node _ d | newNode _ d => d.kind = .concept → ∃ s, d.name = some (.text s)
  | link source target _ properties =>
    source.IsText ∧ target.IsText ∧ ∃ x, Graph.strengthOf properties = .ok x
  | stop _ => False

variable {now : String} {g : Graph} {w : Write} {ws : List Write}

theorem Write.Safe.drafts (hw : w.Safe) :
    w.Drafts fun _ d => d.kind = .concept → ∃ s, d.name = some (.text s) := by
  cases w with
  | node id d | newNode id d => exact hw
  | link source target kind properties => trivial
  | stop e => trivial

namespace Graph

theorem exists_writeNode (now : String) (id : Scalar) {d : NodeDraft} (h : g.TextConcepts)
    (hd : d.kind = .concept → ∃ s, d.name = some (.text s)) :
    ∃ n g', (writeNode now id d).run g = .ok n g' := by
  have hfreed : ∃ c, g.freedConcepts id d.kind = .ok c := by
    by_cases hkind : d.kind = .concept
    · exact ⟨_, freedConcepts_of_concept hkind⟩
    · by_cases hold : ∃ old, g.nodes.get? id = some old ∧ old.kind = .concept
      · -- the old name is taken out of the index, so it has to be a text
        obtain ⟨old, hget, hconcept⟩ := hold
        obtain ⟨s, hs⟩ := h id old hget hconcept
        rw [freedConcepts_of_freed hkind hget hconcept, hs]
        exact ⟨_, rfl⟩
      · exact ⟨_, freedConcepts_of_plain fun old hget hconcept => hold ⟨old, hget, hconcept⟩⟩
  cases hrun : (writeNode now id d).run g with
  | ok n g' => exact ⟨n, g', rfl⟩
  | error e g' =>
    rcases writeNode_eq_error.1 hrun with ⟨hunfreed, -⟩ | ⟨hkind, hname, -⟩
    · obtain ⟨c, hc⟩ := hfreed
      cases hc.symm.trans hunfreed
    · obtain ⟨s, hs⟩ := hd hkind
      rw [written_name hs] at hname
      cases hname

end Graph

namespace Write

theorem exists_run_link {source target : Scalar} {kind : RelationKind} {properties : Properties}
    (hsource : source.IsText) (htarget : target.IsText)
    (hstrength : ∃ x, Graph.strengthOf properties = .ok x) :
    ∃ g', ((link source target kind properties).run now).run g = .ok () g' := by
  obtain ⟨s, rfl⟩ := hsource
  obtain ⟨t, rfl⟩ := htarget
  obtain ⟨x, hx⟩ := hstrength
  rw [run, run_tryCatch, EStateM.run_bind, Graph.relate_run, Graph.checkEnds_text, hx]
  by_cases hends : g.absentEnds s t = []
  · rw [if_pos hends]
    exact ⟨_, rfl⟩
  · rw [if_neg hends]
    exact ⟨g, rfl⟩

theorem exists_run_of_safe (now : String) (h : g.TextConcepts) (hw : w.Safe) :
    ∃ g', (w.run now).run g = .ok () g' ∧ g'.TextConcepts := by
  have hok : ∃ g', (w.run now).run g = .ok () g' := by
    cases w with
    | node id d =>
      obtain ⟨n, g', hrun⟩ := Graph.exists_writeNode now id h hw
      exact ⟨g', by rw [run_node, Change.effect_of_ok hrun]⟩
    | newNode id d =>
      by_cases hid : g.hasNode id = true
      · exact ⟨g, by rw [run_newNode, if_pos hid]⟩
      · obtain ⟨n, g', hrun⟩ := Graph.exists_writeNode now id h hw
        exact ⟨g', by rw [run_newNode, if_neg hid, Change.effect_of_ok hrun]⟩
    | link source target kind properties => exact exists_run_link hw.1 hw.2.1 hw.2.2
    | stop e => exact hw.elim
  obtain ⟨g', hrun⟩ := hok
  have hkept := @Kept.run _ _ _ g [] (Graph.textConcepts_kept now) w hw.drafts h
  rw [Change.after_of_ok hrun] at hkept
  exact ⟨g', hrun, hkept⟩

theorem exists_runAll_of_safe (now : String) (h : g.TextConcepts) (hws : ∀ w ∈ ws, w.Safe) :
    ∃ g', (runAll now ws).run g = .ok () g' ∧ g'.TextConcepts := by
  induction ws generalizing g with
  | nil => exact ⟨g, rfl, h⟩
  | cons w rest ih =>
    obtain ⟨g₁, hrun, htexts⟩ := exists_run_of_safe now h (hws w List.mem_cons_self)
    obtain ⟨g', hrest, htexts'⟩ := ih htexts fun w hw => hws w (List.mem_cons_of_mem _ hw)
    exact ⟨g', by rw [runAll_cons, hrun]; exact hrest, htexts'⟩

end Write

end CodeAtlas
