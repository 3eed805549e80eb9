import CodeAtlas.Proofs.Query.Route
import CodeAtlas.Proofs.Query.Dependencies
import Mathlib.Data.Finset.Card

/-! When the search for a route finds a node that an edge joins with the start. The nodes around the start stand
in the queue in the order in which they were met, the target among them. The search comes to the target
only after it has looked behind all that are ahead of it, and before each of those it gives up if it has met
as many nodes as its budget. -/

namespace CodeAtlas

namespace Graph

def otherEnds (g : Graph) (x : Scalar) : List Scalar := (g.neighbors x).map Prod.snd

def around (g : Graph) (a : Scalar) : List Scalar := ((g.otherEnds a).filter (· ≠ a)).eraseDups

def nearer (g : Graph) (a b : Scalar) : List Scalar := (g.around a).takeWhile (· ≠ b)

def met (g : Graph) (a : Scalar) (expanded : List Scalar) : Finset Scalar :=
  insert a (expanded.flatMap g.otherEnds).toFinset

/-- Whether a search from `a` comes to `b`, which is around `a`, before it gives up: no other node is nearer, or
there is room to look behind the last of those that are. -/
def InTime (g : Graph) (budget : Int) (a b : Scalar) : Prop :=
  g.nearer a b = [] ∨ ((g.met a (a :: (g.nearer a b).dropLast)).card : Int) < budget

instance {g : Graph} {budget : Int} {a b : Scalar} : Decidable (g.InTime budget a b) :=
  inferInstanceAs (Decidable (_ ∨ _))

end Graph

/-- A table whose keys are just these texts. -/
structure Table.HasKeys {α : Type} (t : Table α) (ids : Finset Scalar) : Prop where
  texts : ∀ k ∈ ids, k.IsText
  contains_iff : ∀ k, t.contains k = true ↔ k ∈ ids

namespace Table.HasKeys

variable {α : Type} {t : Table α} {ids : Finset Scalar} {k : Scalar} {v : α}

theorem singleton (hk : k.IsText) : (Table.insert ∅ k v).HasKeys {k} where
  texts x hx := by
    rw [Finset.mem_singleton.1 hx]
    exact hk
  contains_iff x := by
    rw [Finset.mem_singleton]
    refine ⟨fun hx => (Graph.eq_or_contains_of_insert hk hx).resolve_right Bool.false_ne_true, ?_⟩
    rintro rfl
    exact contains_insert_self

theorem insert (h : t.HasKeys ids) (hk : k.IsText) : (t.insert k v).HasKeys (Insert.insert k ids) where
  texts x hx := by
    rcases Finset.mem_insert.1 hx with rfl | hx
    · exact hk
    · exact h.texts x hx
  contains_iff x := by
    rw [Finset.mem_insert, ← h.contains_iff]
    refine ⟨Graph.eq_or_contains_of_insert hk, ?_⟩
    rintro (rfl | hx)
    · exact contains_insert_self
    · exact contains_insert_of_contains hx

theorem size_eq (h : t.HasKeys ids) : t.size = ids.card := by
  have hnodup : t.keys.Nodup := List.Nodup.of_map _ nodup_keys
  have hkeys : t.keys.toFinset = ids := by
    ext k
    rw [List.mem_toFinset, ← h.contains_iff]
    constructor
    · exact fun hk => contains_iff_mem.2 ⟨k, hk, rfl⟩
    · intro hk
      obtain ⟨s, rfl⟩ := h.texts k ((h.contains_iff k).1 hk)
      exact contains_text_iff.1 hk
  rw [size_eq_length_keys, ← hkeys, List.toFinset_card_of_nodup hnodup]

end Table.HasKeys

/-- Taking up texts puts those that are new into the queue, each once. -/
theorem Frontier.reachAll_eq {f : Frontier} {x : Scalar} {others : List Scalar} {ids : Finset Scalar}
    (h : f.parents.HasKeys ids) (hothers : ∀ o ∈ others, o.IsText) :
    (f.reachAll x others).parents.HasKeys (ids ∪ others.toFinset) ∧
      (f.reachAll x others).queue = f.queue ++ (others.filter (· ∉ ids)).eraseDups := by
  induction others generalizing f ids with
  | nil => simpa [Frontier.reachAll] using h
  | cons o rest ih =>
    obtain ⟨hot, hrest⟩ := List.forall_mem_cons.1 hothers
    rw [Frontier.reachAll, Frontier.reach, List.toFinset_cons]
    by_cases ho : o ∈ ids
    · rw [if_pos ((h.contains_iff o).2 ho), List.filter_cons_of_neg (by simpa using ho),
        Finset.union_insert, Finset.insert_eq_of_mem (Finset.mem_union_left _ ho)]
      exact ih h hrest
    · obtain ⟨hkeys, hqueue⟩ := @ih ⟨f.parents.insert o x, f.queue ++ [o]⟩ _ (h.insert hot) hrest
      have hnew : rest.filter (· ∉ insert o ids) = (rest.filter (· ∉ ids)).filter fun k => !k == o := by
        rw [List.filter_filter]
        refine List.filter_congr fun k _ => ?_
        rw [Bool.eq_iff_iff]
        simp
      rw [if_neg (mt (h.contains_iff o).1 ho), List.filter_cons_of_pos (by simpa using ho),
        List.eraseDups_cons, Finset.union_insert, ← Finset.insert_union, hqueue, hnew, List.append_assoc]
      exact ⟨hkeys, rfl⟩

theorem not_same_of_ne {x y : Scalar} (hy : y.IsText) (h : x ≠ y) : ¬ x.same y = true :=
  fun hsame => h (Scalar.isText_of_canon_eq (Scalar.same_iff.1 hsame) hy)

section Search

variable {g : Graph} {a b x : Scalar} {budget : Int} {parents : Table Scalar} {ids : Finset Scalar}
  (htexts : ∀ x, ∀ o ∈ g.otherEnds x, o.IsText)

include htexts

/-- A round of the search that neither finds the target nor gives up: what is new around the id in front is
put into the queue. -/
theorem exists_searchFrom_eq {rest : List Scalar} (h : parents.HasKeys ids) (hbt : b.IsText) (hxb : x ≠ b)
    (hroom : (ids.card : Int) < budget) :
    ∃ parents' : Table Scalar, parents'.HasKeys (ids ∪ (g.otherEnds x).toFinset) ∧
      (searchFrom g budget b parents (x :: rest)).parents? =
        (searchFrom g budget b parents' (rest ++ ((g.otherEnds x).filter (· ∉ ids)).eraseDups)).parents? := by
  obtain ⟨hkeys, hqueue⟩ := @Frontier.reachAll_eq ⟨parents, rest⟩ x _ _ h (htexts x)
  refine ⟨_, hkeys, ?_⟩
  rw [searchFrom, if_neg (not_same_of_ne hbt hxb), if_neg (by rw [h.size_eq]; omega), ← hqueue]
  rfl

/-- Behind the ids ahead of it the target is found exactly if there is room to look behind the last of them. -/
theorem isSome_searchFrom_iff {ahead behind : List Scalar} (h : parents.HasKeys ids) (hbt : b.IsText)
    (hb : b ∉ ahead) :
    (searchFrom g budget b parents (ahead ++ b :: behind)).parents?.isSome = true ↔
      ahead = [] ∨ ((ids ∪ (ahead.dropLast.flatMap g.otherEnds).toFinset).card : Int) < budget := by
  induction ahead generalizing parents behind ids with
  | nil =>
    rw [List.nil_append, searchFrom, if_pos (Scalar.same_iff.2 rfl)]
    exact iff_of_true rfl (Or.inl rfl)
  | cons x ahead ih =>
    obtain ⟨hbx, hb⟩ := not_or.1 (List.mem_cons.not.1 hb)
    by_cases hroom : (ids.card : Int) < budget
    · obtain ⟨parents', h', hsearch⟩ :=
        @exists_searchFrom_eq g b x budget parents ids htexts (ahead ++ b :: behind) h hbt (Ne.symm hbx) hroom
      rw [List.cons_append, hsearch, List.append_assoc, List.cons_append, ih h' hb]
      cases ahead with
      | nil =>
        refine iff_of_true (Or.inl rfl) (Or.inr ?_)
        rwa [List.dropLast_singleton, List.flatMap_nil, List.toFinset_nil, Finset.union_empty]
      | cons y ahead =>
        rw [List.dropLast_cons_cons (x := x), List.flatMap_cons, List.toFinset_append, Finset.union_assoc]
        simp only [List.cons_ne_nil, false_or]
    · -- there is no room to look behind `x`
      have hle : ids.card ≤ (ids ∪ ((x :: ahead).dropLast.flatMap g.otherEnds).toFinset).card :=
        Finset.card_le_card Finset.subset_union_left
      rw [List.cons_append, searchFrom, if_neg (not_same_of_ne hbt (Ne.symm hbx)),
        if_pos (by rw [h.size_eq]; omega)]
      refine iff_of_false Bool.false_ne_true (not_or.2 ⟨List.cons_ne_nil _ _, ?_⟩)
      omega

/-- From the start the target is found exactly if the search comes to it in time. -/
theorem isSome_routeSearch_iff (hat : a.IsText) (hab : a ≠ b) (hb : b ∈ g.otherEnds a)
    (hbudget : 2 ≤ budget) : (g.routeSearch budget a b).parents?.isSome = true ↔ g.InTime budget a b := by
  have hbt : b.IsText := htexts a b hb
  have hmem : b ∈ g.around a :=
    List.mem_eraseDups.2 (List.mem_filter.2 ⟨hb, decide_eq_true hab.symm⟩)
  obtain ⟨ahead, behind, hsplit, hahead⟩ := List.eq_append_cons_of_mem hmem
  have hnearer : g.nearer a b = ahead := by
    rw [Graph.nearer, hsplit, List.takeWhile_append_of_pos, List.takeWhile_cons_of_neg, List.append_nil]
    · simp
    · exact fun x hx => decide_eq_true (ne_of_mem_of_not_mem hx hahead)
  have hroom : (({a} : Finset Scalar).card : Int) < budget := by
    rw [Finset.card_singleton]
    omega
  obtain ⟨parents, h, hsearch⟩ :=
    @exists_searchFrom_eq g b a budget _ _ htexts [] (.singleton hat) hbt hab hroom
  have hqueue : [] ++ ((g.otherEnds a).filter (· ∉ ({a} : Finset Scalar))).eraseDups =
      ahead ++ b :: behind := by
    rw [← hsplit, Graph.around, List.nil_append]
    simp only [Finset.mem_singleton]
  rw [Graph.routeSearch, hsearch, hqueue, isSome_searchFrom_iff htexts h hbt hahead, Graph.InTime, hnearer,
    Graph.met, List.flatMap_cons, List.toFinset_append, Finset.insert_eq, Finset.union_assoc]

end Search

theorem unwind_ne_nil {parents : Table Scalar} {n : Nat} {id : Scalar} : unwind parents n id ≠ [] := by
  cases n with
  | zero => exact List.cons_ne_nil _ _
  | succ n =>
    rw [unwind]
    split <;> simp

namespace Graph

variable {g : Graph} {a b : Scalar} {budget : Int} {w : List Scalar}

theorem IsWalk.eq_pair (h : g.IsWalk a b w) (hlength : w.length ≤ 2) (hab : a ≠ b) : w = [a, b] := by
  match w, h with
  | [], h => exact absurd rfl h.ne_nil
  | [c], h =>
    obtain ⟨hac, hbc⟩ := IsWalk.head_eq_of_singleton h
    exact absurd (hac.trans hbc.symm) hab
  | [c, d], h =>
    have hhead : c = a := Option.some.inj h.head
    have hlast : d = b := Option.some.inj h.last
    rw [hhead, hlast]
  | c :: d :: e :: w, h => simp at hlength

variable (hl : g.Linked) (ht : g.TextIds)

include hl ht

theorem isText_of_mem_otherEnds {x o : Scalar} (ho : o ∈ g.otherEnds x) : o.IsText := by
  obtain ⟨⟨e, o'⟩, hmem, rfl⟩ := List.mem_map.1 ho
  obtain ⟨he, hother⟩ := mem_edges_of_mem_neighbors hmem
  have htouch : e.Touches o' := by
    rw [hother, Edge.otherEnd]
    split
    · exact Or.inr rfl
    · exact Or.inl rfl
  exact (hl.hasNode_of_touches ht he htouch).2

omit hl ht in
theorem Joined.symm (h : g.Joined a b) : g.Joined b a := h.imp fun _ he => he.imp_right Or.symm

/-- The route between two nodes that an edge joins is the edge, or nothing if the search gives up before. -/
theorem route_of_joined (hexact : g.Exact) (hbudget : 2 ≤ budget) (hab : a ≠ b) (h : g.Joined a b) :
    g.route budget a b = if g.InTime budget a b then [a, b] else [] := by
  have ha := h.symm.hasNode hl ht
  have hb := h.hasNode hl ht
  have hfound := isSome_routeSearch_iff (fun _ _ => isText_of_mem_otherEnds hl ht) ha.2 hab
    ((joined_iff hl ht hexact ha.2).1 h) hbudget
  have hroute := route_eq budget ha.1 hb.1
  obtain ⟨-, hshortest, -⟩ := route_spec hl hexact ht budget ha.1 hb.1
  by_cases htime : g.InTime budget a b
  · obtain ⟨parents, hparents⟩ := Option.isSome_iff_exists.1 (hfound.2 htime)
    have hne : g.route budget a b ≠ [] := by
      rw [hroute, ← routeSearch, hparents]
      exact unwind_ne_nil
    obtain ⟨hwalk, -, hleast⟩ := hshortest hne
    rw [if_pos htime]
    exact hwalk.eq_pair (hleast _ (IsWalk.single.snoc h)) hab
  · rw [if_neg htime, hroute, ← routeSearch, Option.not_isSome_iff_eq_none.1 (mt hfound.1 htime)]
    rfl

end Graph

namespace QueryEngine

theorem exists_routeStop {g : Graph} {id : Scalar} (h : g.hasNode id = true) :
    ∃ stop, routeStop g id = some stop := by
  obtain ⟨n, hn⟩ := Graph.hasNode_iff.1 h
  rw [routeStop, hn]
  exact ⟨_, rfl⟩

variable {q : QueryEngine} {limit : Int} {a b : String}

/-- Between nodes that an edge joins the engine answers with the stops of the edge, or with nothing. -/
theorem pathBetween_eq_of_joined (hl : q.graph.Linked) (hexact : q.graph.Exact) (ht : q.graph.TextIds)
    (hlimit : q.budget = .int limit) (hroom : 2 ≤ limit) (hane : a ≠ "") (hbne : b ≠ "") (hab : a ≠ b)
    (h : q.graph.Joined (.text a) (.text b)) :
    q.pathBetween (.text a) (.text b) =
      .ok ((if q.graph.InTime limit (.text a) (.text b) then [.text a, .text b] else []).filterMap
        (routeStop q.graph)) := by
  have hbudget : q.nodeBudget = .ok limit := by
    rw [nodeBudget_int hlimit, if_neg (by omega)]
  have hne : Scalar.text a ≠ .text b := fun heq => hab (Scalar.text.inj heq)
  rw [pathBetween_eq hl ht hbudget hane hbne (h.symm.hasNode hl ht).1 (h.hasNode hl ht).1, if_neg hab,
    Graph.route_of_joined hl ht hexact hroom hne h]

end QueryEngine

/-- Asked for the way between two nodes that an edge joins, in one direction or the other, an engine that may
visit two nodes at least answers with the stops of the two exactly if its search comes to the second in
time, and else with nothing. -/
theorem pathBetween_of_joined {q : QueryEngine} {limit : Int} {a b : String} (hl : q.graph.Linked)
    (hexact : q.graph.Exact) (ht : q.graph.TextIds) (hlimit : q.budget = .int limit) (hroom : 2 ≤ limit)
    (hane : a ≠ "") (hbne : b ≠ "") (hab : a ≠ b) (h : q.graph.Joined (.text a) (.text b)) :
    ∃ stop stop', QueryEngine.routeStop q.graph (.text a) = some stop ∧
      QueryEngine.routeStop q.graph (.text b) = some stop' ∧
      q.pathBetween (.text a) (.text b) =
        .ok (if q.graph.InTime limit (.text a) (.text b) then [stop, stop'] else []) := by
  obtain ⟨stop, hstop⟩ := QueryEngine.exists_routeStop (h.symm.hasNode hl ht).1
  obtain ⟨stop', hstop'⟩ := QueryEngine.exists_routeStop (h.hasNode hl ht).1
  refine ⟨stop, stop', hstop, hstop', ?_⟩
  rw [QueryEngine.pathBetween_eq_of_joined hl hexact ht hlimit hroom hane hbne hab h]
  split
  · rw [List.filterMap_cons_some hstop, List.filterMap_cons_some hstop', List.filterMap_nil]
  · rfl

def forkedDependencies : List Edge :=
  [sampleDependency "157104056a98b273" "A" "C", sampleDependency "cd20253d08f7afcd" "A" "B"]

def forkEngine : QueryEngine where
  graph := forkedDependencies.foldl .putEdge (.ofNodes samplePackages)
  threshold := .float 0.5
  budget := .int 3

theorem isText_of_mem_forkedDependencies : ∀ e ∈ forkedDependencies, e.id.IsText := by
  simp [forkedDependencies, sampleDependency, Scalar.IsText]

theorem accounted_forkEngine : Accounted forkEngine.graph forkedDependencies :=
  (Graph.accounted_ofNodes unconnected_samplePackages).foldl_putEdge (by decide)

theorem textIds_forkEngine : forkEngine.graph.TextIds :=
  textIds_samplePackages.foldl_putEdge isText_of_mem_forkedDependencies

theorem exact_forkEngine : forkEngine.graph.Exact := by
  refine accounted_forkEngine.exact isText_of_mem_forkedDependencies ?_
  simp [Agreeing, forkedDependencies, sampleDependency]

theorem joined_forkEngine :
    forkEngine.graph.Joined (.text "A") (.text "C") ∧ forkEngine.graph.Joined (.text "A") (.text "B") := by
  have hjoined : ∀ e ∈ forkedDependencies, forkEngine.graph.Joined e.source e.target :=
    fun e he => ⟨e, he, Or.inl ⟨rfl, rfl⟩⟩
  exact ⟨hjoined (sampleDependency "157104056a98b273" "A" "C") (by simp [forkedDependencies]),
    hjoined (sampleDependency "cd20253d08f7afcd" "A" "B") (by simp [forkedDependencies])⟩

theorem neighbors_forkEngine :
    forkEngine.graph.neighbors (.text "A") = [
        (sampleDependency "157104056a98b273" "A" "C", .text "C"),
        (sampleDependency "cd20253d08f7afcd" "A" "B", .text "B")] ∧
      forkEngine.graph.neighbors (.text "B") = [(sampleDependency "cd20253d08f7afcd" "A" "B", .text "A")] :=
  ⟨(Graph.neighbors_of_pairwise rfl (by decide)).trans rfl,
    (Graph.neighbors_of_pairwise rfl (by decide)).trans rfl⟩

/-- The node that is met first is come to. -/
theorem pathBetween_of_joined_forkEngine :
    ∃ stop stop', QueryEngine.routeStop forkEngine.graph (.text "A") = some stop ∧
      QueryEngine.routeStop forkEngine.graph (.text "C") = some stop' ∧
      forkEngine.pathBetween (.text "A") (.text "C") = .ok [stop, stop'] := by
  have htime : forkEngine.graph.InTime 3 (.text "A") (.text "C") := by
    left
    rw [Graph.nearer, Graph.around, Graph.otherEnds, neighbors_forkEngine.1]
    decide
  obtain ⟨stop, stop', hstop, hstop', hpath⟩ := pathBetween_of_joined accounted_forkEngine.linked
    exact_forkEngine textIds_forkEngine (Eq.refl (Value.int 3)) (by decide) (by decide) (by decide)
    (by decide) joined_forkEngine.1
  rw [if_pos htime] at hpath
  exact ⟨stop, stop', hstop, hstop', hpath⟩

/-- From `A` the search does not come to `B`, which an edge joins with it, although from `B` it comes to `A`. -/
theorem pathBetween_misses :
    forkEngine.graph.Linked ∧ forkEngine.graph.Exact ∧ forkEngine.graph.TextIds ∧
      forkEngine.budget = .int 3 ∧ forkEngine.graph.Joined (.text "A") (.text "B") ∧
      forkEngine.pathBetween (.text "A") (.text "B") = .ok [] ∧
      ∃ stops, forkEngine.pathBetween (.text "B") (.text "A") = .ok stops ∧ stops.length = 2 := by
  obtain ⟨hA, hB⟩ := neighbors_forkEngine
  have hlate : ¬ forkEngine.graph.InTime 3 (.text "A") (.text "B") := by
    have hnearer : forkEngine.graph.nearer (.text "A") (.text "B") = [.text "C"] := by
      rw [Graph.nearer, Graph.around, Graph.otherEnds, hA]
      decide
    rw [Graph.InTime, hnearer, List.dropLast_singleton, Graph.met, List.flatMap_singleton, Graph.otherEnds, hA]
    decide
  have htime : forkEngine.graph.InTime 3 (.text "B") (.text "A") := by
    left
    rw [Graph.nearer, Graph.around, Graph.otherEnds, hB]
    decide
  have hl := accounted_forkEngine.linked
  have hjoined := joined_forkEngine.2
  have hforth := QueryEngine.pathBetween_eq_of_joined hl exact_forkEngine textIds_forkEngine
    (Eq.refl (Value.int 3)) (by decide) (by decide) (by decide) (by decide) hjoined
  have hback := QueryEngine.pathBetween_eq_of_joined hl exact_forkEngine textIds_forkEngine
    (Eq.refl (Value.int 3)) (by decide) (by decide) (by decide) (by decide) hjoined.symm
  rw [if_neg hlate] at hforth
  rw [if_pos htime] at hback
  exact ⟨hl, exact_forkEngine, textIds_forkEngine, rfl, hjoined, hforth, _, hback, by decide⟩

end CodeAtlas
