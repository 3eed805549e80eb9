import CodeAtlas.Proofs.Graph.RoundTrip
import CodeAtlas.Proofs.Graph.Steps
import CodeAtlas.Query.Search

/-! The concept index over whole runs. It is sound if its entries lead to concepts of their names, and
complete if every concept's name is in it. Writing a node keeps both but in one case each: a concept that
is given another name leaves its old entry behind, and a concept that becomes something else takes the
entry of its name along, even if another concept needs it. An import keeps whatever entries it is given. -/

namespace CodeAtlas

theorem Value.lowered_eq_ok {v : Value} {name : String} :
    v.lowered = .ok name ↔ ∃ s, v = .text s ∧ name = Text.lowerText s := by
  unfold Value.lowered
  split
  · rename_i s
    constructor
    · intro h
      exact ⟨s, rfl, (Except.ok.inj h).symm⟩
    · rintro ⟨s', h, rfl⟩
      cases h
      rfl
  · rename_i h
    constructor
    · intro h'
      cases h'
    · rintro ⟨s, rfl, -⟩
      exact absurd rfl (h s)

namespace Graph

/-- Whether every entry of an index leads to a concept of its name. -/
def IndexSound (nodes : Table Node) (concepts : Table Scalar) : Prop :=
  ∀ k x, concepts.get? k = some x → ∃ n name, nodes.get? x = some n ∧ n.kind = .concept ∧
    n.name.lowered = .ok name ∧ k = .text name

def IndexComplete (nodes : Table Node) (concepts : Table Scalar) : Prop :=
  ∀ k n, nodes.get? k = some n → n.kind = .concept → ∀ name, n.name.lowered = .ok name →
    concepts.contains (.text name) = true

/-- What writing a node can make of a graph. -/
inductive NodeWritten (g : Graph) (now : String) (id : Scalar) (d : NodeDraft) : Graph → Prop where
  /-- The old node is a concept whose name cannot be looked up. -/
  | refused : NodeWritten g now id d g
  /-- No concept is involved. -/
  | plain (hd : d.kind ≠ .concept)
      (hold : ∀ old, g.nodes.get? id = some old → old.kind ≠ .concept) :
      NodeWritten g now id d (g.withNode now id d g.concepts)
  /-- A concept becomes something else and takes the entry of its name along. -/
  | freed (hd : d.kind ≠ .concept) {old : Node} {name : String}
      (hold : g.nodes.get? id = some old) (hkind : old.kind = .concept)
      (hname : old.name.lowered = .ok name) :
      NodeWritten g now id d (g.withNode now id d (g.concepts.erase (.text name)))
  /-- A concept is written whose name cannot go into the index. -/
  | unnamed (hd : d.kind = .concept)
      (hname : ∀ name, (g.written now id d).name.lowered ≠ .ok name) :
      NodeWritten g now id d (g.withNode now id d g.concepts)
  /-- A concept is written, and its name leads to it from now on. -/
  | indexed (hd : d.kind = .concept) {name : String}
      (hname : (g.written now id d).name.lowered = .ok name) :
      NodeWritten g now id d (g.withNode now id d (g.concepts.insert (.text name) id))

variable {g : Graph} {now : String} {id : Scalar} {d : NodeDraft} {e : Edge}

theorem freedConcepts_of_concept (hd : d.kind = .concept) :
    g.freedConcepts id d.kind = .ok g.concepts := by
  unfold freedConcepts
  split
  · rfl
  · rw [conceptsWithout, if_neg fun h => h.2 hd]
    rfl

theorem freedConcepts_of_plain (hold : ∀ old, g.nodes.get? id = some old → old.kind ≠ .concept) :
    g.freedConcepts id d.kind = .ok g.concepts := by
  unfold freedConcepts
  split
  · rfl
  · rename_i old hget
    rw [conceptsWithout, if_neg fun h => hold old hget h.1]
    rfl

theorem freedConcepts_of_freed {old : Node} (hd : d.kind ≠ .concept)
    (hold : g.nodes.get? id = some old) (hkind : old.kind = .concept) :
    g.freedConcepts id d.kind =
      old.name.lowered.map fun name => g.concepts.erase (.text name) := by
  rw [freedConcepts, hold]
  simp only [conceptsWithout, if_pos (And.intro hkind hd)]
  cases old.name.lowered <;> rfl

theorem after_writeNode_of_ne_concept (hd : d.kind ≠ .concept) {c : Table Scalar}
    (hc : g.freedConcepts id d.kind = .ok c) :
    (writeNode now id d).after g = g.withNode now id d c := by
  have hindex : (g.withNode now id d c).indexNode id (g.written now id d) =
      .ok (g.withNode now id d c) := by
    rw [indexNode, if_neg fun h => hd (written_kind.symm.trans h)]
    rfl
  rw [Change.after, writeNode_run, hc]
  simp only [hindex]

theorem nodeWritten (g : Graph) (now : String) (id : Scalar) (d : NodeDraft) :
    NodeWritten g now id d ((writeNode now id d).after g) := by
  by_cases hd : d.kind = .concept
  · rw [Change.after, writeNode_run, freedConcepts_of_concept hd]
    have hindex : (g.withNode now id d g.concepts).indexNode id (g.written now id d) =
        (g.written now id d).name.lowered.map fun name =>
          g.withNode now id d (g.concepts.insert (.text name) id) := by
      rw [indexNode, if_pos (written_kind.trans hd)]
      cases (g.written now id d).name.lowered <;> rfl
    simp only [hindex]
    cases hname : (g.written now id d).name.lowered with
    | error e => exact .unnamed hd fun name h => by rw [hname] at h; cases h
    | ok name => exact .indexed hd hname
  · by_cases hold : ∃ old, g.nodes.get? id = some old ∧ old.kind = .concept
    · obtain ⟨old, hget, hkind⟩ := hold
      have hfreed := freedConcepts_of_freed hd hget hkind
      cases hname : old.name.lowered with
      | error e =>
        rw [hname] at hfreed
        rw [Change.after, writeNode_run, hfreed]
        exact .refused
      | ok name =>
        rw [hname] at hfreed
        rw [after_writeNode_of_ne_concept hd hfreed]
        exact .freed hd hget hkind hname
    · have hplain : ∀ old, g.nodes.get? id = some old → old.kind ≠ .concept :=
        fun old hget hkind => hold ⟨old, hget, hkind⟩
      rw [after_writeNode_of_ne_concept hd (freedConcepts_of_plain hplain)]
      exact .plain hd hplain

theorem get?_nodes_withNode {c : Table Scalar} {k : Scalar} :
    (g.withNode now id d c).nodes.get? k =
      if id.canon = k.canon then some (g.written now id d) else g.nodes.get? k :=
  Table.get?_insert

end Graph

def Node.loweredName? (n : Node) : Option String := n.name.lowered.toOption

theorem Node.loweredName?_eq_some {n : Node} {name : String} :
    n.loweredName? = some name ↔ n.name.lowered = .ok name := Except.toOption_eq_some

namespace Step

/-- Whether a step gives a concept that the index leads to another name, apart from case. -/
def Renames (s : Step) : Prop :=
  ∃ k n n' name, s.before.nodes.get? k = some n ∧ n.kind = .concept ∧ n.name.lowered = .ok name ∧
    (∃ x, s.before.concepts.get? (.text name) = some x ∧ x.canon = k.canon) ∧
    s.after.nodes.get? k = some n' ∧ n'.kind = .concept ∧ n'.name.lowered ≠ .ok name

/-- Whether a step makes a concept something else while another concept of its name stays. -/
def Strands (s : Step) : Prop :=
  ∃ k n n' name, s.before.nodes.get? k = some n ∧ n.kind = .concept ∧ n.name.lowered = .ok name ∧
    s.after.nodes.get? k = some n' ∧ n'.kind ≠ .concept ∧
    ∃ j m, s.after.nodes.get? j = some m ∧ m.kind = .concept ∧ m.name.lowered = .ok name

theorem renames_iff {s : Step} :
    s.Renames ↔ ∃ p ∈ s.before.nodes.entries, ∃ q ∈ s.after.nodes.entries,
      ∃ c ∈ s.before.concepts.entries, q.1.canon = p.1.canon ∧ c.2.canon = p.1.canon ∧
        p.2.kind = .concept ∧ q.2.kind = .concept ∧ p.2.loweredName?.map .text = some c.1 ∧
        q.2.loweredName? ≠ p.2.loweredName? := by
  constructor
  · rintro ⟨k, n, n', name, hn, hkind, hname, ⟨x, hx, hxk⟩, hn', hkind', hname'⟩
    obtain ⟨p, hp, hpk, rfl⟩ := Table.mem_of_get? hn
    obtain ⟨q, hq, hqk, rfl⟩ := Table.mem_of_get? hn'
    obtain ⟨c, hc, hck, rfl⟩ := Table.mem_of_get? hx
    have hlowered := Node.loweredName?_eq_some.2 hname
    refine ⟨p, hp, q, hq, c, hc, hqk.trans hpk.symm, hxk.trans hpk.symm, hkind, hkind', ?_, ?_⟩
    · rw [hlowered, Option.map_some, Scalar.canon_eq_text_iff.1 hck]
    · rw [hlowered]
      exact fun h => hname' (Node.loweredName?_eq_some.1 h)
  · rintro ⟨p, hp, q, hq, c, hc, hqk, hck, hkind, hkind', hentry, hname'⟩
    obtain ⟨name, hlowered, htext⟩ := Option.map_eq_some_iff.1 hentry
    refine ⟨p.1, p.2, q.2, name, Table.get?_of_mem hp, hkind, Node.loweredName?_eq_some.1 hlowered,
      ⟨c.2, htext ▸ Table.get?_of_mem hc, hck⟩, (Table.get?_congr hqk).symm.trans (Table.get?_of_mem hq),
      hkind', fun h => hname' ?_⟩
    rw [hlowered, Node.loweredName?_eq_some.2 h]

theorem strands_iff {s : Step} :
    s.Strands ↔ ∃ p ∈ s.before.nodes.entries, ∃ q ∈ s.after.nodes.entries, ∃ r ∈ s.after.nodes.entries,
      q.1.canon = p.1.canon ∧ p.2.kind = .concept ∧ q.2.kind ≠ .concept ∧ r.2.kind = .concept ∧
        p.2.loweredName? ≠ none ∧ r.2.loweredName? = p.2.loweredName? := by
  constructor
  · rintro ⟨k, n, n', name, hn, hkind, hname, hn', hkind', j, m, hm, hmkind, hmname⟩
    obtain ⟨p, hp, hpk, rfl⟩ := Table.mem_of_get? hn
    obtain ⟨q, hq, hqk, rfl⟩ := Table.mem_of_get? hn'
    obtain ⟨r, hr, -, rfl⟩ := Table.mem_of_get? hm
    have hlowered := Node.loweredName?_eq_some.2 hname
    refine ⟨p, hp, q, hq, r, hr, hqk.trans hpk.symm, hkind, hkind', hmkind, ?_, ?_⟩
    · rw [hlowered]
      exact Option.some_ne_none name
    · rw [hlowered, Node.loweredName?_eq_some.2 hmname]
  · rintro ⟨p, hp, q, hq, r, hr, hqk, hkind, hkind', hrkind, hsome, hname⟩
    obtain ⟨name, hlowered⟩ := Option.ne_none_iff_exists'.1 hsome
    rw [hlowered] at hname
    exact ⟨p.1, p.2, q.2, name, Table.get?_of_mem hp, hkind, Node.loweredName?_eq_some.1 hlowered,
      (Table.get?_congr hqk).symm.trans (Table.get?_of_mem hq), hkind', r.1, r.2, Table.get?_of_mem hr,
      hrkind, Node.loweredName?_eq_some.1 hname⟩

instance (s : Step) : Decidable s.Renames := decidable_of_iff _ renames_iff.symm

instance (s : Step) : Decidable s.Strands := decidable_of_iff _ strands_iff.symm

end Step

namespace Graph

variable {g g' : Graph} {now : String} {id : Scalar} {d : NodeDraft} {e : Edge}

theorem IndexSound.of_nodeWritten (h : IndexSound g.nodes g.concepts) (hwritten : NodeWritten g now id d g')
    (hstep : ¬ Step.Renames ⟨g, g'⟩) : IndexSound g'.nodes g'.concepts := by
  -- an entry that does not lead to the written node leads where it led before
  have hother : ∀ {c : Table Scalar} {k x : Scalar}, id.canon ≠ x.canon →
      g.concepts.get? k = some x → ∃ n name, (g.withNode now id d c).nodes.get? x = some n ∧
        n.kind = .concept ∧ n.name.lowered = .ok name ∧ k = .text name := by
    intro c k x hx hk
    obtain ⟨n, name, hn, hrest⟩ := h k x hk
    exact ⟨n, name, by rw [get?_nodes_withNode, if_neg hx, hn], hrest⟩
  cases hwritten with
  | refused => exact h
  | plain hd hold =>
    intro k x hk
    by_cases hx : id.canon = x.canon
    · obtain ⟨n, name, hn, hkind, -⟩ := h k x hk
      rw [← Table.get?_congr hx] at hn
      exact absurd hkind (hold n hn)
    · exact hother hx hk
  | @freed hd old name hold hkind hname =>
    intro k x hk
    rw [withNode, Table.get?_erase] at hk
    split at hk
    · cases hk
    · rename_i hne
      by_cases hx : id.canon = x.canon
      · obtain ⟨n, name', hn, -, hname', rfl⟩ := h k x hk
        rw [← Table.get?_congr hx] at hn
        cases hold.symm.trans hn
        cases hname.symm.trans hname'
        exact absurd rfl hne
      · exact hother hx hk
  | unnamed hd hname =>
    intro k x hk
    by_cases hx : id.canon = x.canon
    · obtain ⟨n, name, hn, hkind, hlowered, rfl⟩ := h k x hk
      rw [← Table.get?_congr hx] at hn
      refine absurd ⟨id, n, _, name, hn, hkind, hlowered, ⟨x, hk, hx.symm⟩, ?_,
        written_kind.trans hd, hname name⟩ hstep
      exact get?_nodes_withNode.trans (if_pos rfl)
    · exact hother hx hk
  | @indexed hd name hname =>
    have hself : (g.withNode now id d (g.concepts.insert (.text name) id)).nodes.get? id =
        some (g.written now id d) := get?_nodes_withNode.trans (if_pos rfl)
    intro k x hk
    rw [withNode, Table.get?_insert] at hk
    split at hk
    · rename_i hkey
      cases hk
      exact ⟨_, name, hself, written_kind.trans hd, hname, Scalar.canon_eq_text_iff.1 hkey.symm⟩
    · rename_i hkey
      by_cases hx : id.canon = x.canon
      · obtain ⟨n, name', hn, hkind, hlowered, rfl⟩ := h k x hk
        rw [← Table.get?_congr hx] at hn
        refine absurd ⟨id, n, _, name', hn, hkind, hlowered, ⟨x, hk, hx.symm⟩, hself,
          written_kind.trans hd, ?_⟩ hstep
        rw [hname]
        rintro ⟨⟩
        exact hkey rfl
      · exact hother hx hk

/-- The old name of a concept leads to it also after it is given another one. -/
theorem not_indexSound_of_renames (hwritten : NodeWritten g now id d g')
    (hstep : Step.Renames ⟨g, g'⟩) : ¬ IndexSound g'.nodes g'.concepts := by
  obtain ⟨k, n, n', name, hn, hkind, hname, ⟨x, hx, hxk⟩, hn', hkind', hname'⟩ := hstep
  -- the step changes the name of the node under `k`, so it writes that node, and it writes a concept
  have hstays : g'.concepts.get? (.text name) = some x → ¬ IndexSound g'.nodes g'.concepts := by
    intro hentry h
    obtain ⟨m, name', hm, -, hlowered, hkey⟩ := h _ x hentry
    rw [Table.get?_congr hxk, hn'] at hm
    cases hm
    cases hkey
    exact hname' hlowered
  have hself : ∀ {c : Table Scalar}, (g.withNode now id d c).nodes.get? k = some n' →
      id.canon = k.canon ∧ n' = g.written now id d := by
    intro c hget
    rw [get?_nodes_withNode] at hget
    split at hget
    · rename_i hk
      exact ⟨hk, (Option.some.inj hget).symm⟩
    · cases hn.symm.trans hget
      exact absurd hname hname'
  cases hwritten with
  | refused => exact hstays hx
  | plain hd hold => exact hstays hx
  | freed hd hold hkindOld hnameOld =>
    obtain ⟨-, rfl⟩ := hself hn'
    exact absurd (written_kind.symm.trans hkind') hd
  | unnamed hd hnone => exact hstays hx
  | @indexed hd name' hnew =>
    obtain ⟨-, rfl⟩ := hself hn'
    refine hstays ?_
    rw [withNode, Table.get?_insert, if_neg]
    · exact hx
    · rintro hkey
      cases hkey
      exact hname' hnew

theorem IndexComplete.of_nodeWritten (h : IndexComplete g.nodes g.concepts)
    (hwritten : NodeWritten g now id d g') (hstep : ¬ Step.Strands ⟨g, g'⟩) :
    IndexComplete g'.nodes g'.concepts := by
  cases hwritten with
  | refused => exact h
  | plain hd hold =>
    intro k n hn hkind name hname
    rw [get?_nodes_withNode] at hn
    split at hn
    · cases hn
      exact absurd (written_kind.symm.trans hkind) hd
    · exact h k n hn hkind name hname
  | @freed hd old name hold hkindOld hnameOld =>
    intro k n hn hkind name' hname
    rw [withNode, Table.contains, Table.get?_erase]
    split
    · rename_i hkey
      cases hkey
      exact absurd ⟨id, old, _, name, hold, hkindOld, hnameOld,
        get?_nodes_withNode.trans (if_pos rfl), fun hc => hd (written_kind.symm.trans hc),
        k, n, hn, hkind, hname⟩ hstep
    · rw [get?_nodes_withNode] at hn
      split at hn
      · cases hn
        exact absurd (written_kind.symm.trans hkind) hd
      · exact h k n hn hkind name' hname
  | unnamed hd hnone =>
    intro k n hn hkind name hname
    rw [get?_nodes_withNode] at hn
    split at hn
    · cases hn
      exact absurd hname (hnone name)
    · exact h k n hn hkind name hname
  | @indexed hd name hnew =>
    intro k n hn hkind name' hname
    rw [get?_nodes_withNode] at hn
    split at hn
    · cases hn
      cases hnew.symm.trans hname
      exact Table.contains_insert_self
    · exact Table.contains_insert_of_contains (h k n hn hkind name' hname)

/-- A name that is taken along is missing from the index for the concepts that still have it. -/
theorem not_indexComplete_of_strands (hwritten : NodeWritten g now id d g')
    (hstep : Step.Strands ⟨g, g'⟩) : ¬ IndexComplete g'.nodes g'.concepts := by
  obtain ⟨k, n, n', name, hn, hkind, hname, hn', hkind', j, m, hm, hmkind, hmname⟩ := hstep
  intro h
  have hthere := h j m hm hmkind name hmname
  -- the step makes the node under `k` another kind of node, so it is the node that it writes
  have hself : ∀ {c : Table Scalar}, (g.withNode now id d c).nodes.get? k = some n' →
      g.nodes.get? id = some n ∧ n'.kind = d.kind := by
    intro c hget
    rw [get?_nodes_withNode] at hget
    split at hget
    · rename_i hk
      cases hget
      exact ⟨(Table.get?_congr hk).trans hn, written_kind⟩
    · cases hn.symm.trans hget
      exact absurd hkind hkind'
  cases hwritten with
  | refused =>
    cases hn.symm.trans hn'
    exact hkind' hkind
  | plain hd hold => exact hold n (hself hn').1 hkind
  | freed hd hold hkindOld hnameOld =>
    cases hold.symm.trans (hself hn').1
    cases hnameOld.symm.trans hname
    rw [withNode, Table.contains, Table.get?_erase, if_pos rfl] at hthere
    cases hthere
  | unnamed hd hnone => exact hkind' ((hself hn').2.trans hd)
  | indexed hd hnew => exact hkind' ((hself hn').2.trans hd)

theorem indexSound_iff {nodes : Table Node} {concepts : Table Scalar} :
    IndexSound nodes concepts ↔ ∀ c ∈ concepts.entries, ∃ p ∈ nodes.entries, p.1.canon = c.2.canon ∧
      p.2.kind = .concept ∧ p.2.loweredName?.map .text = some c.1 := by
  constructor
  · intro h c hc
    obtain ⟨n, name, hn, hkind, hname, hkey⟩ := h c.1 c.2 (Table.get?_of_mem hc)
    obtain ⟨p, hp, hpk, rfl⟩ := Table.mem_of_get? hn
    exact ⟨p, hp, hpk, hkind, by rw [Node.loweredName?_eq_some.2 hname, hkey, Option.map_some]⟩
  · intro h k x hk
    obtain ⟨c, hc, hck, rfl⟩ := Table.mem_of_get? hk
    obtain ⟨p, hp, hpk, hkind, hname⟩ := h c hc
    obtain ⟨name, hlowered, htext⟩ := Option.map_eq_some_iff.1 hname
    rw [← htext] at hck
    exact ⟨p.2, name, (Table.get?_congr hpk).symm.trans (Table.get?_of_mem hp), hkind,
      Node.loweredName?_eq_some.1 hlowered, Scalar.canon_eq_text_iff.1 hck.symm⟩

instance (nodes : Table Node) (concepts : Table Scalar) : Decidable (IndexSound nodes concepts) :=
  decidable_of_iff _ indexSound_iff.symm

def SameNames (nodes nodes' : Table Node) : Prop :=
  ∀ k, (nodes'.get? k).map (fun n => (n.kind, n.name)) = (nodes.get? k).map fun n => (n.kind, n.name)

section SameNames

variable {nodes nodes' : Table Node} {c : Table Scalar}

theorem SameNames.symm (h : SameNames nodes nodes') : SameNames nodes' nodes := fun k => (h k).symm

theorem SameNames.exists_of_get? (h : SameNames nodes nodes') {k : Scalar} {n : Node}
    (hn : nodes.get? k = some n) : ∃ n', nodes'.get? k = some n' ∧ n'.kind = n.kind ∧ n'.name = n.name := by
  have hk := h k
  rw [hn] at hk
  obtain ⟨n', hn', heq⟩ := Option.map_eq_some_iff.1 hk
  exact ⟨n', hn', (Prod.mk.inj heq).1, (Prod.mk.inj heq).2⟩

theorem SameNames.indexSound (h : SameNames nodes nodes') (hsound : IndexSound nodes c) :
    IndexSound nodes' c := by
  intro k x hk
  obtain ⟨n, name, hn, hkind, hname, hkey⟩ := hsound k x hk
  obtain ⟨n', hn', hkind', hname'⟩ := h.exists_of_get? hn
  exact ⟨n', name, hn', hkind'.trans hkind, hname' ▸ hname, hkey⟩

theorem SameNames.indexComplete (h : SameNames nodes nodes') (hcomplete : IndexComplete nodes c) :
    IndexComplete nodes' c := by
  intro k n hn hkind name hname
  obtain ⟨n', hn', hkind', hname'⟩ := h.symm.exists_of_get? hn
  exact hcomplete k n' hn' (hkind'.trans hkind) name (hname' ▸ hname)

theorem sameNames_putEdge : SameNames g.nodes (g.putEdge e).nodes := by
  intro k
  rw [get?_nodes_putEdge]
  cases g.nodes.get? k with
  | none => rfl
  | some n => simp

end SameNames

/-- What a step of a run can do to names: nothing, or what writing a node does. -/
theorem names_of_mem_steps {calls : List Call} {s : Step} (hs : s ∈ steps calls) :
    (SameNames s.before.nodes s.after.nodes ∧ s.after.concepts = s.before.concepts) ∨
      ∃ now id d, NodeWritten s.before now id d s.after := by
  rcases step_cases hs with hsame | ⟨now, id, d, hwrite⟩ | ⟨e, -, -, hedge⟩
  · rw [hsame]
    exact Or.inl ⟨fun _ => rfl, rfl⟩
  · rw [hwrite]
    exact Or.inr ⟨now, id, d, nodeWritten s.before now id d⟩
  · rw [hedge]
    exact Or.inl ⟨sameNames_putEdge, rfl⟩

/-- A step keeps a sound index sound exactly if it gives no indexed concept another name. -/
theorem indexSound_after_iff {calls : List Call} {s : Step} (hs : s ∈ steps calls)
    (h : IndexSound s.before.nodes s.before.concepts) :
    IndexSound s.after.nodes s.after.concepts ↔ ¬ s.Renames := by
  rcases names_of_mem_steps hs with ⟨hsame, hconcepts⟩ | ⟨now, id, d, hwritten⟩
  · rw [hconcepts]
    refine iff_of_true (hsame.indexSound h) ?_
    rintro ⟨k, n, n', name, hn, -, hname, -, hn', -, hname'⟩
    obtain ⟨n'', hn'', -, hname''⟩ := hsame.exists_of_get? hn
    cases hn'.symm.trans hn''
    exact hname' (hname'' ▸ hname)
  · exact ⟨fun hafter hren => not_indexSound_of_renames hwritten hren hafter,
      fun hren => h.of_nodeWritten hwritten hren⟩

/-- A step keeps a complete index complete exactly if it strands no concept. -/
theorem indexComplete_after_iff {calls : List Call} {s : Step} (hs : s ∈ steps calls)
    (h : IndexComplete s.before.nodes s.before.concepts) :
    IndexComplete s.after.nodes s.after.concepts ↔ ¬ s.Strands := by
  rcases names_of_mem_steps hs with ⟨hsame, hconcepts⟩ | ⟨now, id, d, hwritten⟩
  · rw [hconcepts]
    refine iff_of_true (hsame.indexComplete h) ?_
    rintro ⟨k, n, n', name, hn, hkind, -, hn', hkind', -⟩
    obtain ⟨n'', hn'', hkind'', -⟩ := hsame.exists_of_get? hn
    cases hn'.symm.trans hn''
    exact hkind' (hkind''.trans hkind)
  · exact ⟨fun hafter hstrands => not_indexComplete_of_strands hwritten hstrands hafter,
      fun hstrands => h.of_nodeWritten hwritten hstrands⟩

end Graph

end CodeAtlas
