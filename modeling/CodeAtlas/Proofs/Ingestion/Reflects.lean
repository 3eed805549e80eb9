import CodeAtlas.Proofs.Graph.Linked
import CodeAtlas.Proofs.Ingestion.Statements

/-! Writing statements into a graph. The invariant ties the graph to the statements written so far, and each
further statement carries it on, as long as different entities have different ids and facts come after the
mentions of what they relate. -/

namespace CodeAtlas

namespace Ingestion

def Distinguished (ss : List Statement) : Prop :=
  ∀ x p y q, .mention x p ∈ ss → .mention y q ∈ ss → x.id = y.id → x = y

/-- Whether every fact is about entities that are mentioned before it. -/
def Grounded : List Entity → List Statement → Prop
  | _, [] => True
  | seen, .mention x _ :: rest => Grounded (x :: seen) rest
  | seen, .fact f :: rest => f.source ∈ seen ∧ f.target ∈ seen ∧ Grounded seen rest

section Grounded

variable {seen seen' : List Entity} {ss ss' : List Statement}

theorem Grounded.mono (h : Grounded seen ss) (hsub : ∀ x ∈ seen, x ∈ seen') : Grounded seen' ss := by
  induction ss generalizing seen seen' with
  | nil => trivial
  | cons s rest ih =>
    cases s with
    | mention x p =>
      have hrest : Grounded (x :: seen) rest := h
      refine ih hrest fun y hy => ?_
      rcases List.mem_cons.1 hy with rfl | hy
      · exact List.mem_cons_self
      · exact List.mem_cons_of_mem _ (hsub y hy)
    | fact f =>
      obtain ⟨hs, ht, hrest⟩ := h
      exact ⟨hsub _ hs, hsub _ ht, ih hrest hsub⟩

theorem Grounded.append (h : Grounded seen ss) (h' : Grounded seen ss') :
    Grounded seen (ss ++ ss') := by
  induction ss generalizing seen with
  | nil => exact h'
  | cons s rest ih =>
    cases s with
    | mention x p =>
      have hrest : Grounded (x :: seen) rest := h
      exact ih hrest (h'.mono fun y hy => List.mem_cons_of_mem _ hy)
    | fact f => exact ⟨h.1, h.2.1, ih h.2.2 h'⟩

theorem Grounded.flatMap {α : Type} {as : List α} {f : α → List Statement}
    (h : ∀ a ∈ as, Grounded seen (f a)) : Grounded seen (as.flatMap f) := by
  induction as with
  | nil => trivial
  | cons a rest ih =>
    rw [List.flatMap_cons]
    exact (h a List.mem_cons_self).append (ih fun b hb => h b (List.mem_cons_of_mem _ hb))

theorem grounded_factStatements {entity : String → Entity} {path : String}
    {draft : String → Value → NodeDraft} {fact : Value} (h : .file path ∈ seen) :
    Grounded seen (factStatements entity path draft fact) := by
  unfold factStatements
  cases factName? fact with
  | none => trivial
  | some name => exact ⟨List.mem_cons_self, List.mem_cons_of_mem _ h, trivial⟩

theorem grounded_importStatements {path : String} {language entry : Value}
    (h : .file path ∈ seen) : Grounded seen (importStatements path language entry) := by
  unfold importStatements
  cases importName? entry with
  | none => trivial
  | some importPath => exact ⟨List.mem_cons_of_mem _ h, List.mem_cons_self, trivial⟩

theorem grounded_recordStatements {r : Record} : Grounded seen (recordStatements r) := by
  have hfile : Entity.file r.path.shown ∈ Entity.file r.path.shown :: seen := List.mem_cons_self
  refine Grounded.append (Grounded.append ?_ ?_) ?_
  · exact Grounded.flatMap fun fact _ => grounded_factStatements hfile
  · exact Grounded.flatMap fun fact _ => grounded_factStatements hfile
  · exact Grounded.flatMap fun entry _ => grounded_importStatements hfile

theorem grounded_statements (seen : List Entity) (records : List Value) :
    Grounded seen (statements records) :=
  Grounded.flatMap fun _ _ => grounded_recordStatements

end Grounded

section Append

variable {ss : List Statement} {x y : Entity} {p q : Properties} {f : Fact}

theorem fact_mem_append_mention : .fact f ∈ ss ++ [.mention x p] ↔ .fact f ∈ ss := by simp

theorem mention_mem_append_fact : .mention x p ∈ ss ++ [.fact f] ↔ .mention x p ∈ ss := by simp

theorem mention_mem_append_mention :
    .mention y q ∈ ss ++ [.mention x p] ↔ .mention y q ∈ ss ∨ y = x ∧ q = p := by simp

theorem fact_mem_append_fact {f' : Fact} :
    .fact f' ∈ ss ++ [.fact f] ↔ .fact f' ∈ ss ∨ f' = f := by simp

end Append

section Decisive

variable {ss : List Statement} {x y : Entity} {p : Properties} {f : Fact}

theorem given_append_mention :
    given (ss ++ [.mention x p]) y = if x = y then given ss y ++ [p] else given ss y := by
  unfold given
  rw [List.filterMap_append]
  by_cases h : x = y
  · simp [Statement.given?, h]
  · simp [Statement.given?, h]

theorem given_append_fact : given (ss ++ [.fact f]) y = given ss y := by
  unfold given
  rw [List.filterMap_append]
  simp [Statement.given?]

theorem given_ne_nil_iff : given ss x ≠ [] ↔ ∃ p, .mention x p ∈ ss := by
  unfold given
  rw [Ne, List.filterMap_eq_nil_iff]
  constructor
  · intro h
    by_contra hnone
    refine h fun s hs => ?_
    cases s with
    | fact f => rfl
    | mention y p =>
      have hne : y ≠ x := by
        rintro rfl
        exact hnone ⟨p, hs⟩
      simp [Statement.given?, hne]
  · rintro ⟨p, hp⟩ h
    have := h _ hp
    simp [Statement.given?] at this

theorem decisive_append_mention (ss : List Statement) (x : Entity) (p : Properties) :
    decisive (ss ++ [.mention x p]) x =
      if x.keepsFirst then (decisive ss x).or (some p) else some p := by
  unfold decisive
  rw [given_append_mention, if_pos rfl]
  cases x.keepsFirst with
  | true => simp [List.head?_append]
  | false => simp

theorem decisive_append_of_ne (h : x ≠ y) : decisive (ss ++ [.mention x p]) y = decisive ss y := by
  unfold decisive
  rw [given_append_mention, if_neg h]

theorem decisive_append_fact : decisive (ss ++ [.fact f]) y = decisive ss y := by
  unfold decisive
  rw [given_append_fact]

end Decisive

/-- Whether a graph holds what statements say and nothing else: every node shows an entity that is mentioned
with what was decisive about it, every edge is a fact that is stated, and none is missing. -/
structure Reflects (now : String) (ss : List Statement) (g : Graph) : Prop where
  keyed : g.NodesKeyed
  shown : ∀ k n, g.nodes.get? k = some n → ∃ x p, .mention x p ∈ ss ∧ k = .text x.id ∧
    n.kind = x.kind ∧ n.name = .text x.name ∧ decisive ss x = some n.properties
  mentioned : ∀ x p, .mention x p ∈ ss → g.hasNode (.text x.id) = true
  stated : ∀ k e, g.edges.get? k = some e → ∃ f, .fact f ∈ ss ∧ k = .text f.id ∧ e = f.edge now
  stored : ∀ f, .fact f ∈ ss → g.hasEdge (.text f.id) = true

theorem reflects_empty (now : String) : Reflects now [] .empty where
  keyed _ _ h := nomatch h
  shown _ _ h := nomatch h
  mentioned _ _ h := absurd h List.not_mem_nil
  stated _ _ h := nomatch h
  stored _ h := absurd h List.not_mem_nil

namespace Reflects

variable {now : String} {ss : List Statement} {g : Graph} {x : Entity} {p : Properties} {f : Fact}

theorem shown_of_id (h : Reflects now ss g)
    (hd : Distinguished (ss ++ [.mention x p])) {n : Node} (hn : g.nodes.get? (.text x.id) = some n) :
    n.kind = x.kind ∧ n.name = .text x.name ∧ decisive ss x = some n.properties := by
  obtain ⟨y, q, hy, hk, hkind, hname, hprops⟩ := h.shown _ n hn
  have hid : x.id = y.id := Scalar.text.inj hk
  have hxy := hd x p y q (by simp) (List.mem_append_left _ hy) hid
  subst hxy
  exact ⟨hkind, hname, hprops⟩

/-- Writing the node of a mention; `hp` says that its properties are the decisive ones now. -/
theorem withNode (h : Reflects now ss g)
    (hp : decisive (ss ++ [.mention x p]) x = some p) :
    Reflects now (ss ++ [.mention x p]) (g.withNode now (.text x.id) (x.draft p) g.concepts) where
  keyed := h.keyed.withNode g.concepts
  shown k n hn := by
    rw [Graph.withNode, Table.get?_insert] at hn
    split at hn
    · rename_i hk
      cases hn
      have hkey : k = .text x.id := Scalar.canon_eq_text_iff.1 hk.symm
      refine ⟨x, p, by simp, hkey, Graph.written_kind, Graph.written_name rfl, ?_⟩
      rw [hp, Graph.written_properties]
      rfl
    · rename_i hk
      obtain ⟨y, q, hy, hkey, hkind, hname, hprops⟩ := h.shown k n hn
      have hne : x ≠ y := by
        rintro rfl
        exact hk (congrArg Scalar.canon hkey.symm)
      refine ⟨y, q, List.mem_append_left _ hy, hkey, hkind, hname, ?_⟩
      rw [decisive_append_of_ne hne, hprops]
  mentioned y q hy := by
    rw [Graph.hasNode, Graph.withNode, Table.contains_insert, Bool.or_eq_true]
    rcases mention_mem_append_mention.1 hy with hy | ⟨rfl, -⟩
    · exact Or.inr (h.mentioned y q hy)
    · exact Or.inl (decide_eq_true rfl)
  stated k e he := by
    obtain ⟨f, hf, hk, hedge⟩ := h.stated k e he
    exact ⟨f, fact_mem_append_mention.2 hf, hk, hedge⟩
  stored f hf := h.stored f (fact_mem_append_mention.1 hf)

/-- A mention that does not count changes nothing. -/
theorem append_mention (h : Reflects now ss g) (hx : g.hasNode (.text x.id) = true)
    (hp : decisive (ss ++ [.mention x p]) x = decisive ss x) :
    Reflects now (ss ++ [.mention x p]) g where
  keyed := h.keyed
  shown k n hn := by
    obtain ⟨y, q, hy, hkey, hkind, hname, hprops⟩ := h.shown k n hn
    refine ⟨y, q, List.mem_append_left _ hy, hkey, hkind, hname, ?_⟩
    by_cases hxy : x = y
    · rw [← hxy, hp, hxy, hprops]
    · rw [decisive_append_of_ne hxy, hprops]
  mentioned y q hy := by
    rcases mention_mem_append_mention.1 hy with hy | ⟨rfl, -⟩
    · exact h.mentioned y q hy
    · exact hx
  stated k e he := by
    obtain ⟨f, hf, hk, hedge⟩ := h.stated k e he
    exact ⟨f, fact_mem_append_mention.2 hf, hk, hedge⟩
  stored f hf := h.stored f (fact_mem_append_mention.1 hf)

theorem putEdge (h : Reflects now ss g) : Reflects now (ss ++ [.fact f]) (g.putEdge (f.edge now)) where
  keyed := h.keyed.putEdge
  shown k n hn := by
    rw [Graph.get?_nodes_putEdge] at hn
    obtain ⟨m, hm, rfl⟩ := Option.map_eq_some_iff.1 hn
    obtain ⟨y, q, hy, hkey, hkind, hname, hprops⟩ := h.shown k m hm
    refine ⟨y, q, mention_mem_append_fact.2 hy, hkey, ?_, ?_, ?_⟩
    · rw [Node.meet_kind, hkind]
    · rw [Node.meet_name, hname]
    · rw [Node.meet_properties, decisive_append_fact, hprops]
  mentioned y q hy := by
    rw [Graph.hasNode_putEdge]
    exact h.mentioned y q (mention_mem_append_fact.1 hy)
  stated k e he := by
    rw [Graph.get?_edges_putEdge] at he
    split at he
    · rename_i hk
      cases he
      exact ⟨f, fact_mem_append_fact.2 (Or.inr rfl), Scalar.canon_eq_text_iff.1 hk.symm, rfl⟩
    · obtain ⟨f', hf', hk, hedge⟩ := h.stated k e he
      exact ⟨f', fact_mem_append_fact.2 (Or.inl hf'), hk, hedge⟩
  stored f' hf' := by
    rw [Graph.hasEdge, Table.contains_iff]
    rcases fact_mem_append_fact.1 hf' with hf' | rfl
    · obtain ⟨e, he⟩ := Table.contains_iff.1 (h.stored f' hf')
      rw [Graph.get?_edges_putEdge]
      split
      · exact ⟨_, rfl⟩
      · exact ⟨e, he⟩
    · exact ⟨f'.edge now, by rw [Graph.get?_edges_putEdge, Fact.edge_id, if_pos rfl]⟩

/-- A further mention is written, and the graph still holds what was said. -/
theorem run_mention (h : Reflects now ss g) (hd : Distinguished (ss ++ [.mention x p])) :
    ∃ g', ((Statement.mention x p).write.run now).run g = .ok () g' ∧
      Reflects now (ss ++ [.mention x p]) g' := by
  have hold : ∀ old, g.nodes.get? (.text x.id) = some old → old.kind ≠ .concept := by
    intro old hn
    rw [(h.shown_of_id hd hn).1]
    exact x.kind_ne_concept
  have hwrite : (Graph.writeNode now (.text x.id) (x.draft p)).run g = _ :=
    Graph.writeNode_run_of_ne_concept x.kind_ne_concept hold
  have hdec := decisive_append_mention ss x p
  cases hfirst : x.keepsFirst with
  | false =>
    rw [hfirst] at hdec
    refine ⟨_, ?_, h.withNode hdec⟩
    rw [Statement.write, hfirst]
    simp only [Bool.false_eq_true, if_false]
    rw [Write.run_node, Change.effect, hwrite]
  | true =>
    rw [hfirst, if_pos rfl] at hdec
    rw [Statement.write, hfirst, if_pos rfl, Write.run_newNode]
    cases hn : g.nodes.get? (.text x.id) with
    | some old =>
      have hhas : g.hasNode (.text x.id) = true := Table.contains_of_get? hn
      refine ⟨g, by rw [if_pos hhas], h.append_mention hhas ?_⟩
      rw [hdec, (h.shown_of_id hd hn).2.2]
      rfl
    | none =>
      have hhas : g.hasNode (.text x.id) = false := Table.contains_eq_false_iff.2 hn
      have hnone : decisive ss x = none := by
        cases hq : decisive ss x with
        | none => rfl
        | some q =>
          have hne : given ss x ≠ [] := by
            intro hnil
            rw [decisive, hfirst, hnil] at hq
            cases hq
          obtain ⟨q', hq'⟩ := given_ne_nil_iff.1 hne
          rw [h.mentioned x q' hq'] at hhas
          cases hhas
      rw [hnone] at hdec
      refine ⟨_, ?_, h.withNode hdec⟩
      rw [hhas, if_neg Bool.false_ne_true, Change.effect, hwrite]

/-- A further fact about entities that are mentioned is written, and the graph still holds what was said. -/
theorem run_fact (h : Reflects now ss g) (hs : ∃ p, .mention f.source p ∈ ss)
    (ht : ∃ p, .mention f.target p ∈ ss) :
    ∃ g', ((Statement.fact f).write.run now).run g = .ok () g' ∧
      Reflects now (ss ++ [.fact f]) g' := by
  obtain ⟨p, hp⟩ := hs
  obtain ⟨q, hq⟩ := ht
  have hrel : (Graph.relate now (.text f.source.id) (.text f.target.id) f.kind ∅).run g = _ :=
    Graph.relate_run_of_hasNode (h.mentioned _ p hp) (h.mentioned _ q hq)
  refine ⟨g.putEdge (f.edge now), ?_, h.putEdge⟩
  rw [Statement.write, Write.run, run_tryCatch, EStateM.run_bind, hrel]
  rfl

end Reflects

section Run

variable {now : String} {ss todo : List Statement} {g : Graph}

theorem Distinguished.of_append (h : Distinguished (ss ++ todo)) : Distinguished ss :=
  fun x p y q hx hy => h x p y q (List.mem_append_left _ hx) (List.mem_append_left _ hy)

/-- Writing grounded statements one after the other cannot fail, and the graph then holds them all. -/
theorem Reflects.runAll {seen : List Entity} (h : Reflects now ss g)
    (hd : Distinguished (ss ++ todo)) (hg : Grounded seen todo)
    (hseen : ∀ x ∈ seen, ∃ p, .mention x p ∈ ss) :
    ∃ g', (Write.runAll now (todo.map Statement.write)).run g = .ok () g' ∧
      Reflects now (ss ++ todo) g' := by
  induction todo generalizing ss g seen with
  | nil => exact ⟨g, rfl, by simpa using h⟩
  | cons s rest ih =>
    have happend : ss ++ s :: rest = (ss ++ [s]) ++ rest := by simp
    rw [happend] at hd ⊢
    have hstep : ∃ g', (s.write.run now).run g = .ok () g' ∧ Reflects now (ss ++ [s]) g' := by
      cases s with
      | mention x p => exact h.run_mention hd.of_append
      | fact f => exact h.run_fact (hseen _ hg.1) (hseen _ hg.2.1)
    obtain ⟨g1, hrun, h1⟩ := hstep
    rw [List.map_cons, Write.runAll_cons, hrun]
    cases s with
    | mention x p =>
      have hrest : Grounded (x :: seen) rest := hg
      refine ih h1 hd hrest fun y hy => ?_
      rcases List.mem_cons.1 hy with rfl | hy
      · exact ⟨p, by simp⟩
      · obtain ⟨q, hq⟩ := hseen y hy
        exact ⟨q, List.mem_append_left _ hq⟩
    | fact f =>
      refine ih h1 hd hg.2.2 fun y hy => ?_
      obtain ⟨q, hq⟩ := hseen y hy
      exact ⟨q, List.mem_append_left _ hq⟩

/-- What a grounded fact is about is mentioned. -/
theorem Grounded.mentioned {seen : List Entity} {f : Fact} (hg : Grounded seen ss)
    (hf : .fact f ∈ ss) :
    (f.source ∈ seen ∨ ∃ p, .mention f.source p ∈ ss) ∧
      (f.target ∈ seen ∨ ∃ p, .mention f.target p ∈ ss) := by
  induction ss generalizing seen with
  | nil => exact absurd hf List.not_mem_nil
  | cons s rest ih =>
    cases s with
    | mention x p =>
      rcases List.mem_cons.1 hf with hf | hf
      · cases hf
      · have hcons : ∀ y, (y ∈ x :: seen ∨ ∃ q, .mention y q ∈ rest) →
            y ∈ seen ∨ ∃ q, Statement.mention y q ∈ Statement.mention x p :: rest := by
          rintro y (hy | ⟨q, hq⟩)
          · rcases List.mem_cons.1 hy with rfl | hy
            · exact Or.inr ⟨p, List.mem_cons_self⟩
            · exact Or.inl hy
          · exact Or.inr ⟨q, List.mem_cons_of_mem _ hq⟩
        have hrest : Grounded (x :: seen) rest := hg
        obtain ⟨hs, ht⟩ := ih hrest hf
        exact ⟨hcons _ hs, hcons _ ht⟩
    | fact f' =>
      rcases List.mem_cons.1 hf with hf | hf
      · cases hf
        exact ⟨Or.inl hg.1, Or.inl hg.2.1⟩
      · obtain ⟨hs, ht⟩ := ih hg.2.2 hf
        exact ⟨hs.imp_right fun ⟨q, hq⟩ => ⟨q, List.mem_cons_of_mem _ hq⟩,
          ht.imp_right fun ⟨q, hq⟩ => ⟨q, List.mem_cons_of_mem _ hq⟩⟩

end Run

end Ingestion

end CodeAtlas
