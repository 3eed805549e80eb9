import CodeAtlas.Proofs.Graph.Neighbors
import CodeAtlas.Proofs.Graph.Shape
import CodeAtlas.Proofs.Similarity.Symmetry
import CodeAtlas.Query.Engine

/-! Questions that are always answered. On a graph with texts for ids and names no question fails that gives
texts for what it looks for and whole numbers for its bounds. -/

namespace CodeAtlas

namespace Query

variable {g : Graph}

theorem isOk_similarity {a b : Node} (ha : ∃ s, a.name = .text s) (hb : ∃ s, b.name = .text s) :
    (g.similarity a b).isOk = true := by
  obtain ⟨s, hs⟩ := ha
  obtain ⟨t, ht⟩ := hb
  exact isOk_iff.2 (Graph.exists_similarity (hs ▸ rfl) (ht ▸ rfl))

theorem isOk_candidates {threshold : Checked Float} {target : Node} {ns : List Node}
    (hthreshold : threshold.isOk = true) (htarget : ∃ s, target.name = .text s)
    (hns : ∀ n ∈ ns, ∃ s, n.name = .text s) : (candidates g threshold target ns).isOk = true := by
  induction ns with
  | nil => rfl
  | cons n rest ih =>
    have hrest := ih fun n hn => hns n (List.mem_cons_of_mem _ hn)
    rw [candidates]
    split
    · exact hrest
    · refine isOk_bind (isOk_similarity htarget (hns n List.mem_cons_self)) fun score _ => ?_
      refine isOk_bind hthreshold fun least _ => ?_
      split
      · exact isOk_bind hrest fun _ _ => rfl
      · exact hrest

theorem isOk_takeWhere {α : Type} {limit : Checked Int} {test : α → Checked Bool} {xs : List α}
    (hlimit : limit.isOk = true) (htest : ∀ x ∈ xs, (test x).isOk = true) (count : Nat) :
    (takeWhere limit test count xs).isOk = true := by
  induction xs generalizing count with
  | nil => rfl
  | cons x rest ih =>
    have hrest := ih fun x hx => htest x (List.mem_cons_of_mem _ hx)
    rw [takeWhere]
    refine isOk_bind (htest x List.mem_cons_self) fun passes _ => ?_
    split
    · refine isOk_bind hlimit fun n _ => ?_
      split
      · rfl
      · exact isOk_bind (hrest _) fun _ _ => rfl
    · exact hrest _

theorem isOk_mentioning {limit : Checked Int} (hlimit : limit.isOk = true) (keyword : String) :
    (mentioning g limit keyword).isOk = true :=
  isOk_bind (isOk_takeWhere hlimit (fun _ _ => rfl) 0) fun _ _ => rfl

variable (hg : g.Askable)

include hg

theorem isOk_similarTo {threshold : Checked Float} {target : Node} (limit : Int)
    (hthreshold : threshold.isOk = true) (htarget : ∃ s, target.name = .text s) :
    (similarTo g threshold (.int limit) target).isOk = true := by
  refine isOk_bind (isOk_candidates hthreshold htarget hg.names.of_mem_values) fun scored _ => ?_
  split <;> rfl

theorem isOk_usage (limit : Int) (id : Scalar) : (usage g (.int limit) id).isOk = true := by
  unfold usage
  split
  · rfl
  · exact isOk_bind_ok (Graph.ordered_of_textIds hg.linked hg.texts _ _) rfl

theorem isOk_patterns (limit : Int) (name : String) : (patterns g (.int limit) (.text name)).isOk = true := by
  unfold patterns
  simp only
  split
  · split
    · exact isOk_mentioning rfl name
    · exact isOk_usage hg limit _
  · exact isOk_mentioning rfl name

theorem isOk_matchesFilter (kind : Value) (name : String) : ∀ n ∈ g.nodes.values,
    (matchesFilter kind name n).isOk = true := by
  intro n hn
  obtain ⟨s, hs⟩ := hg.names.of_mem_values n hn
  unfold matchesFilter
  split
  · rfl
  · split
    · rfl
    · rw [hs]
      rfl

end Query

/-- A question whose filters and bounds are such as options give them: a whole number for the depth and the
limit, texts for all else, and nothing for what is left out. -/
structure QueryRequest.Plain (r : QueryRequest) : Prop where
  filters : ∃ entries, r.filters = .object entries
  limit : ∃ n, r.limit = .int n
  depth : ∃ v, r.filters.field "depth" = .ok v ∧ (v = .null ∨ ∃ n, v = .int n)
  texts : ∀ name ≠ "depth", ∃ v, r.filters.field name = .ok v ∧ (v = .null ∨ ∃ s, v = .text s)

namespace QueryEngine

variable {settings : Settings} {g : Graph} {q : QueryEngine} {r : QueryRequest} {id : Value}

theorem isOk_node? (h : id = .null ∨ ∃ s, id = .text s) : (q.node? id).isOk = true := by
  rcases h with rfl | ⟨s, rfl⟩
  · rfl
  · unfold node?
    split <;> rfl

theorem isOk_nodeKey? (h : id = .null ∨ ∃ s, id = .text s) : (q.nodeKey? id).isOk = true := by
  rcases h with rfl | ⟨s, rfl⟩
  · rfl
  · unfold nodeKey?
    split <;> rfl

theorem isOk_nodeBudget : (ofSettings settings g).nodeBudget.isOk = true := by
  unfold nodeBudget
  refine isOk_bind_ok rfl ?_
  split <;> rfl

theorem exists_key_of_node? {n : Node} (h : q.node? id = .ok (some n)) :
    ∃ k, q.graph.nodes.get? k = some n := by
  unfold node? at h
  split at h
  · cases h
  · obtain ⟨k, -, hk⟩ := Except.bind_eq_ok.1 h
    exact ⟨k, Except.ok.inj hk⟩

variable (hg : g.Askable)

include hg

theorem isOk_findSimilar (hid : id = .null ∨ ∃ s, id = .text s) (limit : Int) :
    ((ofSettings settings g).findSimilar id (.int limit)).isOk = true := by
  refine isOk_bind (isOk_node? hid) fun found hfound => ?_
  cases found with
  | none => rfl
  | some n =>
    obtain ⟨k, hk⟩ := exists_key_of_node? hfound
    exact Query.isOk_similarTo hg limit rfl (hg.names k n hk)

theorem isOk_findDependencies (hid : id = .null ∨ ∃ s, id = .text s) (maxDepth : Int) :
    ((ofSettings settings g).findDependencies id (.int maxDepth)).isOk = true := by
  refine isOk_bind (isOk_nodeKey? hid) fun key? _ => ?_
  cases key? with
  | none => rfl
  | some start =>
    refine isOk_bind_ok rfl ?_
    split
    · rfl
    · refine isOk_bind isOk_nodeBudget fun budget _ => ?_
      exact isOk_iff.2 ⟨_, Graph.ordered_of_textIds hg.linked hg.texts _ _⟩

theorem isOk_findUsage (hid : id = .null ∨ ∃ s, id = .text s) (limit : Int) :
    ((ofSettings settings g).findUsage id (.int limit)).isOk = true := by
  refine isOk_bind (isOk_nodeKey? hid) fun key? _ => ?_
  cases key? with
  | none => rfl
  | some key => exact Query.isOk_usage hg limit key

theorem isOk_pathBetween {target : Value} (hsource : id = .null ∨ ∃ s, id = .text s)
    (htarget : target = .null ∨ ∃ s, target = .text s) :
    ((ofSettings settings g).pathBetween id target).isOk = true := by
  unfold pathBetween
  split
  · rfl
  · refine isOk_bind (isOk_nodeKey? hsource) fun start? _ => ?_
    cases start? with
    | none => rfl
    | some start =>
      refine isOk_bind (isOk_nodeKey? htarget) fun goal? _ => ?_
      cases goal? with
      | none => rfl
      | some goal =>
        have hordered : ∀ budget : Int, ((ofSettings settings g).graph.ordered
            ((ofSettings settings g).graph.routeSearch budget start goal).expanded
            (((ofSettings settings g).graph.route budget start goal).filterMap
              (routeStop (ofSettings settings g).graph))).isOk = true :=
          fun budget => isOk_iff.2 ⟨_, Graph.ordered_of_textIds hg.linked hg.texts _ _⟩
        simp only
        split
        · exact hordered 0
        · exact isOk_bind isOk_nodeBudget fun budget _ => hordered budget

theorem isOk_search (limit : Int) {entries : List (Scalar × Value)}
    (hname : ∃ v, (Value.object entries).field "name" = .ok v ∧ (v = .null ∨ ∃ s, v = .text s)) :
    ((ofSettings settings g).search (.object entries) (.int limit)).isOk = true := by
  obtain ⟨v, hv, hname⟩ := hname
  have hfilters : (Value.object entries).orElse (.object []) = .object entries := by
    cases entries <;> rfl
  have hlowered : (v.orElse (.text "")).lowered.isOk = true := by
    rcases hname with rfl | ⟨s, rfl⟩
    · rfl
    · unfold Value.orElse
      split <;> rfl
  unfold search Query.search
  rw [hfilters]
  refine isOk_bind rfl fun kind _ => isOk_bind_ok hv <| isOk_bind hlowered fun name _ => ?_
  exact isOk_bind (Query.isOk_takeWhere rfl (Query.isOk_matchesFilter hg kind name) 0) fun _ _ => rfl

/-- A plain question is answered. -/
theorem isOk_answer (hr : r.Plain) : ((ofSettings settings g).answer settings r).isOk = true := by
  obtain ⟨entries, hentries⟩ := hr.filters
  obtain ⟨limit, hlimit⟩ := hr.limit
  obtain ⟨depth, hdepth, hwhole⟩ := hr.depth
  obtain ⟨nodeId, hnodeId, hnode⟩ := hr.texts "nodeId" (by decide)
  obtain ⟨pattern, hpattern, hname⟩ := hr.texts "pattern" (by decide)
  obtain ⟨source, hsource, hstart⟩ := hr.texts "from" (by decide)
  obtain ⟨target, htarget, hgoal⟩ := hr.texts "to" (by decide)
  have hbounded : ∀ maxDepth : Int, (do
      let id ← r.filters.field "nodeId"
      return (← (ofSettings settings g).findDependencies id (.int maxDepth)).map (·.toValue) :
      Checked (List Value)).isOk = true := fun maxDepth =>
    isOk_bind_ok hnodeId <| isOk_bind (isOk_findDependencies hg hnode maxDepth) fun _ _ => rfl
  unfold answer
  rw [hlimit]
  simp only
  split
  · exact isOk_bind_ok hnodeId <| isOk_bind (isOk_findSimilar hg hnode limit) fun _ _ => rfl
  · refine isOk_bind_ok hdepth ?_
    rcases hwhole with rfl | ⟨n, rfl⟩
    · exact hbounded settings.defaultDependencyDepth
    · exact hbounded n
  · exact isOk_bind_ok hnodeId <| isOk_bind (isOk_findUsage hg hnode limit) fun _ _ => rfl
  · refine isOk_bind_ok hpattern ?_
    have htext : ∃ s, pattern.orElse (.text "") = .text s := by
      rcases hname with rfl | ⟨s, rfl⟩
      · exact ⟨"", rfl⟩
      · unfold Value.orElse
        split <;> exact ⟨_, rfl⟩
    obtain ⟨s, hs⟩ := htext
    rw [hs]
    exact isOk_bind (Query.isOk_patterns hg limit s) fun _ _ => rfl
  · exact isOk_bind_ok hsource <| isOk_bind_ok htarget <| isOk_pathBetween hg hstart hgoal
  · have hnamed := hr.texts "name" (by decide)
    rw [hentries] at hnamed ⊢
    exact isOk_bind (isOk_search hg limit hnamed) fun _ _ => rfl

end QueryEngine

end CodeAtlas
