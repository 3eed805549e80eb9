import CodeAtlas.Proofs.Query.Walk
import CodeAtlas.Query.Engine
import Mathlib.Data.List.Perm.Subperm

/-! The search for a route finds a shortest one. Every id that is taken up has a depth, one more than that of
its parent; the ids still to expand stand in order of their depths, which differ by at most one, and all
others have had their neighbours taken up. So a walk to an id that is not taken up yet leaves what is
taken up through a pending id, and is longer than the depth of the one in front. -/

namespace CodeAtlas

/-- A search from `a` under way: what is taken up with its parents, what is pending, and how deep it is. -/
structure Explored (g : Graph) (a : Scalar) (parents : Table Scalar) (pending : List Scalar)
    (depth : Scalar → Nat) : Prop where
  start : parents.get? a = some .null ∧ depth a = 0
  nodes : ∀ k, parents.contains k = true → g.hasNode k = true ∧ k.IsText
  parent : ∀ v p, parents.get? v = some p → v ≠ a →
    p.IsText ∧ parents.contains p = true ∧ g.Joined p v ∧ depth v = depth p + 1
  taken : ∀ x ∈ pending, parents.contains x = true
  closed : ∀ v, parents.contains v = true → v ∉ pending → ∀ y, g.Joined v y →
    parents.contains y = true
  sorted : pending.Pairwise fun x y => depth x ≤ depth y
  spread : ∀ x ∈ pending, ∀ y ∈ pending, depth y ≤ depth x + 1
  shallow : ∀ v, parents.contains v = true → depth v < parents.size
  least : ∀ v w, parents.contains v = true → g.IsWalk a v w → depth v < w.length

namespace Explored

variable {g : Graph} {a b x y : Scalar} {parents : Table Scalar} {queue : List Scalar}
  {depth : Scalar → Nat}

/-- Only the start is taken up at first. -/
theorem init (ha : g.hasNode a = true) (hat : a.IsText) :
    Explored g a (Table.insert ∅ a .null) [a] fun _ => 0 := by
  have hstart : (Table.insert ∅ a Scalar.null : Table Scalar).get? a = some .null := by
    rw [Table.get?_insert, if_pos rfl]
  have hkey : ∀ k, (Table.insert ∅ a Scalar.null : Table Scalar).contains k = true → k = a :=
    fun k hk => (Graph.eq_or_contains_of_insert hat hk).resolve_right nofun
  refine ⟨⟨hstart, rfl⟩, ?_, ?_, ?_, ?_, List.pairwise_singleton _ _, ?_, ?_, ?_⟩
  · intro k hk
    rw [hkey k hk]
    exact ⟨ha, hat⟩
  · intro v p hv hne
    exact absurd (hkey v (Table.contains_of_get? hv)) hne
  · intro v hv
    rw [List.mem_singleton.1 hv]
    exact Table.contains_of_get? hstart
  · intro v hv hnot
    exact absurd (List.mem_singleton.2 (hkey v hv)) hnot
  · intro _ _ _ _
    omega
  · intro v _
    exact Nat.zero_lt_one
  · intro v w _ hw
    exact List.length_pos_iff.2 hw.ne_nil

theorem level (h : Explored g a parents (x :: queue) depth) {u : Scalar} (hu : u ∈ x :: queue) :
    depth x ≤ depth u ∧ depth u ≤ depth x + 1 := by
  refine ⟨?_, h.spread x List.mem_cons_self u hu⟩
  rcases List.mem_cons.1 hu with rfl | hmem
  · exact Nat.le_refl _
  · exact (List.pairwise_cons.1 h.sorted).1 u hmem

/-- A walk to an id that is not taken up is longer than the depth of the one in front. -/
theorem lt_length_of_walk (h : Explored g a parents (x :: queue) depth)
    (hy : parents.contains y = false) {w : List Scalar} (hw : g.IsWalk a y w) :
    depth x + 1 < w.length := by
  have hnot : ¬ parents.contains y = true := by
    rw [hy]
    exact Bool.false_ne_true
  obtain ⟨u, z, pre, hu, hz, hjoin, hpre, hshort⟩ :=
    hw.exit (S := fun k => parents.contains k = true) (Table.contains_of_get? h.start.1) hnot
  -- the walk leaves what is taken up through an id whose neighbours were not all looked at
  have hpending : u ∈ x :: queue := by
    by_contra hnot
    exact hz (h.closed u hu hnot z hjoin)
  have hdepth := (h.level hpending).1
  have hleast := h.least u pre hu hpre
  omega

section Insert

variable {d : Scalar → Nat}

theorem sorted_insert (h : Explored g a parents (x :: queue) depth)
    (hold : ∀ k, parents.contains k = true → d k = depth k) (hnew : d y = depth x + 1) :
    (x :: queue ++ [y]).Pairwise fun u v => d u ≤ d v := by
  refine List.pairwise_append.2 ⟨?_, List.pairwise_singleton _ _, ?_⟩
  · refine h.sorted.imp_of_mem fun {u v} hu hv huv => ?_
    rw [hold u (h.taken u hu), hold v (h.taken v hv)]
    exact huv
  · intro u hu v hv
    rw [List.mem_singleton.1 hv, hnew, hold u (h.taken u hu)]
    exact (h.level hu).2

theorem spread_insert (h : Explored g a parents (x :: queue) depth)
    (hold : ∀ k, parents.contains k = true → d k = depth k) (hnew : d y = depth x + 1) :
    ∀ u ∈ x :: queue ++ [y], ∀ v ∈ x :: queue ++ [y], d v ≤ d u + 1 := by
  have hlevel : ∀ u ∈ x :: queue ++ [y], depth x ≤ d u ∧ d u ≤ depth x + 1 := by
    intro u hu
    rcases List.mem_append.1 hu with hu | hu
    · rw [hold u (h.taken u hu)]
      exact h.level hu
    · rw [List.mem_singleton.1 hu, hnew]
      omega
  intro u hu v hv
  have hleast := (hlevel u hu).1
  have hmost := (hlevel v hv).2
  omega

theorem parent_insert (h : Explored g a parents (x :: queue) depth) (hjoin : g.Joined x y)
    (hyt : y.IsText) (hold : ∀ k, parents.contains k = true → d k = depth k)
    (hnew : d y = depth x + 1) :
    ∀ v p, (parents.insert y x).get? v = some p → v ≠ a →
      p.IsText ∧ (parents.insert y x).contains p = true ∧ g.Joined p v ∧ d v = d p + 1 := by
  intro v p hv hne
  have hx := h.taken x List.mem_cons_self
  rw [Table.get?_insert] at hv
  split at hv
  · rename_i hcanon
    cases hv
    have hvy : v = y := Scalar.isText_of_canon_eq hcanon.symm hyt
    subst hvy
    refine ⟨(h.nodes x hx).2, Table.contains_insert_of_contains hx, hjoin, ?_⟩
    rw [hnew, hold x hx]
  · obtain ⟨hpt, hp, hpv, hd⟩ := h.parent v p hv hne
    refine ⟨hpt, Table.contains_insert_of_contains hp, hpv, ?_⟩
    rw [hold v (Table.contains_of_get? hv), hold p hp, hd]

theorem closed_insert (h : Explored g a parents (x :: queue) depth) (hyt : y.IsText) :
    ∀ v, (parents.insert y x).contains v = true → v ∉ x :: queue ++ [y] → ∀ z, g.Joined v z →
      (parents.insert y x).contains z = true := by
  intro v hv hnot z hz
  rcases Graph.eq_or_contains_of_insert hyt hv with rfl | hv
  · exact absurd (List.mem_append_right _ List.mem_cons_self) hnot
  · have hdone : v ∉ x :: queue := fun hvq => hnot (List.mem_append_left _ hvq)
    exact Table.contains_insert_of_contains (h.closed v hv hdone z hz)

end Insert

/-- A new id is taken up one deeper than the one in front, and goes to the end of the queue. -/
theorem insert (h : Explored g a parents (x :: queue) depth) (hjoin : g.Joined x y)
    (hnode : g.hasNode y = true ∧ y.IsText) (hy : parents.contains y = false) :
    Explored g a (parents.insert y x) (x :: queue ++ [y])
      (Function.update depth y (depth x + 1)) := by
  have hne : ∀ k, parents.contains k = true → k ≠ y := by
    rintro k hk rfl
    rw [hy] at hk
    cases hk
  have hold : ∀ k, parents.contains k = true →
      Function.update depth y (depth x + 1) k = depth k :=
    fun k hk => Function.update_of_ne (hne k hk) _ _
  have hnew : Function.update depth y (depth x + 1) y = depth x + 1 := Function.update_self ..
  have ha := Table.contains_of_get? h.start.1
  refine ⟨⟨?_, ?_⟩, ?_, h.parent_insert hjoin hnode.2 hold hnew, ?_, h.closed_insert hnode.2,
    h.sorted_insert hold hnew, h.spread_insert hold hnew, ?_, ?_⟩
  · have hcanon : ¬ y.canon = a.canon := fun hc =>
      hne a ha (Scalar.isText_of_canon_eq hc.symm hnode.2)
    rw [Table.get?_insert, if_neg hcanon]
    exact h.start.1
  · rw [hold a ha]
    exact h.start.2
  · intro k hk
    rcases Graph.eq_or_contains_of_insert hnode.2 hk with rfl | hk
    · exact hnode
    · exact h.nodes k hk
  · intro u hu
    rcases List.mem_append.1 hu with hu | hu
    · exact Table.contains_insert_of_contains (h.taken u hu)
    · rw [List.mem_singleton.1 hu]
      exact Table.contains_insert_self
  · intro v hv
    rw [Table.size_insert, hy, if_neg Bool.false_ne_true]
    rcases Graph.eq_or_contains_of_insert hnode.2 hv with rfl | hv
    · rw [hnew]
      have hx := h.shallow x (h.taken x List.mem_cons_self)
      omega
    · rw [hold v hv]
      exact Nat.lt_succ_of_lt (h.shallow v hv)
  · intro v w hv hw
    rcases Graph.eq_or_contains_of_insert hnode.2 hv with rfl | hv
    · rw [hnew]
      exact h.lt_length_of_walk hy hw
    · rw [hold v hv]
      exact h.least v w hv hw

/-- Taking up ids that are joined to the one in front keeps the search in order, loses nothing, and puts what
is new into the queue. -/
theorem reachAll (h : Explored g a parents (x :: queue) depth) {others : List Scalar}
    (hothers : ∀ o ∈ others, g.Joined x o ∧ g.hasNode o = true ∧ o.IsText) :
    let f := Frontier.reachAll ⟨parents, queue⟩ x others
    (∃ depth', Explored g a f.parents (x :: f.queue) depth') ∧
      (∀ o ∈ others, f.parents.contains o = true) ∧
      (∀ k, parents.contains k = true → f.parents.contains k = true) ∧
      (∀ k ∈ queue, k ∈ f.queue) ∧
      ∀ k, f.parents.contains k = true → parents.contains k = true ∨ k ∈ f.queue := by
  induction others generalizing parents queue depth with
  | nil =>
    exact ⟨⟨depth, h⟩, fun o ho => absurd ho List.not_mem_nil, fun k hk => hk, fun k hk => hk,
      fun k hk => Or.inl hk⟩
  | cons o rest ih =>
    obtain ⟨hjoin, hnode⟩ := hothers o List.mem_cons_self
    have hrest : ∀ o' ∈ rest, g.Joined x o' ∧ g.hasNode o' = true ∧ o'.IsText :=
      fun o' ho' => hothers o' (List.mem_cons_of_mem _ ho')
    intro f
    cases ho : parents.contains o with
    | true =>
      have hf : f = Frontier.reachAll ⟨parents, queue⟩ x rest := by
        change Frontier.reachAll (Frontier.reach ⟨parents, queue⟩ x o) x rest = _
        rw [Frontier.reach, if_pos ho]
      obtain ⟨hd, hall, hkeep, hqueue, hnew⟩ := ih h hrest
      rw [hf]
      refine ⟨hd, List.forall_mem_cons.2 ⟨hkeep o ho, hall⟩, hkeep, hqueue, hnew⟩
    | false =>
      have hf : f = Frontier.reachAll ⟨parents.insert o x, queue ++ [o]⟩ x rest := by
        change Frontier.reachAll (Frontier.reach ⟨parents, queue⟩ x o) x rest = _
        rw [Frontier.reach, if_neg (by rw [ho]; exact Bool.false_ne_true)]
      obtain ⟨hd, hall, hkeep, hqueue, hnew⟩ := ih (h.insert hjoin hnode ho) hrest
      rw [hf]
      refine ⟨hd, List.forall_mem_cons.2 ⟨hkeep o Table.contains_insert_self, hall⟩, ?_, ?_, ?_⟩
      · exact fun k hk => hkeep k (Table.contains_insert_of_contains hk)
      · exact fun k hk => hqueue k (List.mem_append_left _ hk)
      · intro k hk
        rcases hnew k hk with hk | hk
        · rcases Graph.eq_or_contains_of_insert hnode.2 hk with rfl | hk
          · exact Or.inr (hqueue _ (List.mem_append_right _ List.mem_cons_self))
          · exact Or.inl hk
        · exact Or.inr hk

/-- Once its neighbours are all taken up, the id in front is done with. -/
theorem pop (h : Explored g a parents (x :: queue) depth)
    (hx : ∀ y, g.Joined x y → parents.contains y = true) : Explored g a parents queue depth where
  start := h.start
  nodes := h.nodes
  parent := h.parent
  taken u hu := h.taken u (List.mem_cons_of_mem _ hu)
  closed v hv hnot y hy := by
    by_cases hvx : v = x
    · exact hx y (hvx ▸ hy)
    · refine h.closed v hv (fun hmem => ?_) y hy
      rcases List.mem_cons.1 hmem with hmem | hmem
      · exact hvx hmem
      · exact hnot hmem
  sorted := (List.pairwise_cons.1 h.sorted).2
  spread u hu v hv := h.spread u (List.mem_cons_of_mem _ hu) v (List.mem_cons_of_mem _ hv)
  shallow := h.shallow
  least := h.least

theorem size_le (h : Explored g a parents queue depth) : parents.size ≤ g.nodes.size := by
  have hsub : parents.keys ⊆ g.nodes.keys := by
    intro k hk
    obtain ⟨hnode, s, rfl⟩ := h.nodes k (Table.contains_iff_mem.2 ⟨k, hk, rfl⟩)
    exact Table.contains_text_iff.1 hnode
  have hnodup : parents.keys.Nodup := List.Nodup.of_map _ Table.nodup_keys
  rw [Table.size_eq_length_keys, Table.size_eq_length_keys]
  exact (hnodup.subperm hsub).length_le

theorem contains_of_walk (h : Explored g a parents [] depth) {w : List Scalar}
    (hw : g.IsWalk a b w) : parents.contains b = true := by
  by_contra hb
  obtain ⟨u, z, pre, hu, hz, hjoin, -⟩ :=
    hw.exit (S := fun k => parents.contains k = true) (Table.contains_of_get? h.start.1) hb
  exact hz (h.closed u hu List.not_mem_nil z hjoin)

/-- Following the parents back from an id gives a walk to it, on which the depths count up from zero. -/
theorem walk_unwind (h : Explored g a parents queue depth) {n : Nat} {v : Scalar}
    (hv : parents.contains v = true) (hn : depth v ≤ n) :
    g.IsWalk a v (unwind parents n v) ∧
      (unwind parents n v).map depth = List.range (depth v + 1) := by
  have hstart : g.IsWalk a a [a] ∧ [a].map depth = List.range (depth a + 1) := by
    refine ⟨.single, ?_⟩
    rw [h.start.2]
    simp [h.start.2]
  induction n generalizing v with
  | zero =>
    obtain ⟨p, hp⟩ := Table.contains_iff.1 hv
    by_cases hva : v = a
    · rw [hva]
      exact hstart
    · have hd := (h.parent v p hp hva).2.2.2
      omega
  | succ n ih =>
    obtain ⟨p, hp⟩ := Table.contains_iff.1 hv
    by_cases hva : v = a
    · have hunwind : unwind parents (n + 1) a = [a] := by
        rw [unwind, h.start.1]
      rw [hva, hunwind]
      exact hstart
    · obtain ⟨⟨s, rfl⟩, hpc, hjoin, hd⟩ := h.parent v p hp hva
      have hunwind : unwind parents (n + 1) v = unwind parents n (.text s) ++ [v] := by
        rw [unwind, hp]
      obtain ⟨hwalk, hdepths⟩ := ih hpc (by omega)
      rw [hunwind]
      refine ⟨hwalk.snoc hjoin, ?_⟩
      rw [List.map_append, hdepths, hd, List.range_succ (n := depth (.text s) + 1), ← hd]
      rfl

end Explored

section Search

variable {g : Graph} {a b x : Scalar} {budget : Int} (hl : g.Linked) (hexact : g.Exact)
  (ht : g.TextIds)

include hl hexact ht

/-- One round of the search: the id in front is replaced by its new neighbours. -/
theorem Explored.expand {parents : Table Scalar} {queue : List Scalar} {depth : Scalar → Nat}
    (h : Explored g a parents (x :: queue) depth)
    (hb : parents.contains b = true → b ∈ x :: queue) (hxb : b ≠ x) :
    let f := Frontier.reachAll ⟨parents, queue⟩ x ((g.neighbors x).map Prod.snd)
    (∃ depth', Explored g a f.parents f.queue depth') ∧
      (f.parents.contains b = true → b ∈ f.queue) := by
  have hxt : x.IsText := (h.nodes x (h.taken x List.mem_cons_self)).2
  have hothers : ∀ o ∈ (g.neighbors x).map Prod.snd,
      g.Joined x o ∧ g.hasNode o = true ∧ o.IsText := by
    intro o ho
    have hjoin : g.Joined x o := (Graph.joined_iff hl ht hexact hxt).2 ho
    exact ⟨hjoin, hjoin.hasNode hl ht⟩
  intro f
  obtain ⟨⟨depth', hd⟩, hall, -, hqueue, hnew⟩ := h.reachAll hothers
  refine ⟨⟨depth', hd.pop fun y hy => hall y ?_⟩, ?_⟩
  · exact (Graph.joined_iff hl ht hexact hxt).1 hy
  · intro hfb
    rcases hnew b hfb with hold | hmem
    · rcases List.mem_cons.1 (hb hold) with hbx | hmem
      · exact absurd hbx hxb
      · exact hqueue b hmem
    · exact hmem

/-- A search that finds the target has it in front; one that does not, with room for all nodes, shows that
there is no walk to it. -/
theorem searchFrom_spec (budget : Int) {parents : Table Scalar} {queue : List Scalar}
    {depth : Scalar → Nat} (h : Explored g a parents queue depth)
    (hb : parents.contains b = true → b ∈ queue) (hbt : b.IsText) :
    (∀ found, (searchFrom g budget b parents queue).parents? = some found →
      ∃ rest depth', Explored g a found (b :: rest) depth') ∧
    ((searchFrom g budget b parents queue).parents? = none → (g.nodes.size : Int) < budget →
      ∀ w, ¬ g.IsWalk a b w) := by
  induction parents, queue using searchFrom.induct g budget b generalizing depth with
  | case1 parents =>
    rw [searchFrom]
    refine ⟨fun found hfound => (nomatch hfound), fun _ _ w hw => ?_⟩
    exact absurd (hb (h.contains_of_walk hw)) List.not_mem_nil
  | case2 parents current rest hsame =>
    rw [searchFrom, if_pos hsame]
    refine ⟨fun found hfound => ?_, fun hnone => (nomatch hnone)⟩
    cases hfound
    have hcurrent : current = b := Scalar.isText_of_canon_eq (Scalar.same_iff.1 hsame) hbt
    exact ⟨rest, depth, hcurrent ▸ h⟩
  | case3 parents current rest hsame hbudget =>
    rw [searchFrom, if_neg hsame, if_pos hbudget]
    refine ⟨fun found hfound => (nomatch hfound), fun _ hroom => ?_⟩
    -- the budget is at most what is taken up, which is at most the nodes there are
    have hsize := h.size_le
    omega
  | case4 parents current rest hsame hbudget f =>
    rename_i ih
    have hne : b ≠ current := by
      rintro rfl
      exact hsame (Scalar.same_iff.2 rfl)
    obtain ⟨⟨depth', hexpanded⟩, hb'⟩ := h.expand hl hexact ht hb hne
    rw [searchFrom, if_neg hsame, if_neg hbudget]
    exact ih hexpanded hb'

end Search

/-- Ids of nodes each have their stop on the route. -/
theorem forall₂_routeStop {g : Graph} {ids : List Scalar} (h : ∀ id ∈ ids, g.hasNode id = true) :
    List.Forall₂ (fun id stop => QueryEngine.routeStop g id = some stop) ids
      (ids.filterMap (QueryEngine.routeStop g)) := by
  induction ids with
  | nil => exact List.Forall₂.nil
  | cons id rest ih =>
    obtain ⟨n, hn⟩ := Graph.hasNode_iff.1 (h id List.mem_cons_self)
    have hstop : QueryEngine.routeStop g id =
        some (.fields [("id", .scalar id), ("name", n.name), ("type", .text n.kind.name)]) := by
      rw [QueryEngine.routeStop, hn]
      rfl
    rw [List.filterMap_cons_some hstop]
    exact List.Forall₂.cons hstop (ih fun k hk => h k (List.mem_cons_of_mem _ hk))

namespace Graph

variable {g : Graph} {a b : Scalar}

theorem route_eq (budget : Int) (ha : g.hasNode a = true) (hb : g.hasNode b = true) :
    g.route budget a b =
      ((searchFrom g budget b (Table.insert ∅ a .null) [a]).parents?.map
        fun parents => unwind parents parents.size b).getD [] := by
  rw [route, ha, hb, routeSearch]
  simp only [Bool.not_true, Bool.or_self, Bool.false_eq_true, if_false]
  cases (searchFrom g budget b (Table.insert ∅ a .null) [a]).parents? <;> rfl

variable (hl : g.Linked) (hexact : g.Exact) (ht : g.TextIds)

include hl hexact ht

/-- A route that is found is a shortest walk without repetition; where there is room for all nodes, one is
found whenever there is a walk. -/
theorem route_spec (budget : Int) (ha : g.hasNode a = true) (hb : g.hasNode b = true) :
    (∀ id ∈ g.route budget a b, g.hasNode id = true) ∧
    (g.route budget a b ≠ [] → g.IsWalk a b (g.route budget a b) ∧ (g.route budget a b).Nodup ∧
      ∀ w, g.IsWalk a b w → (g.route budget a b).length ≤ w.length) ∧
    ((g.nodes.size : Int) < budget ∨ a = b → g.route budget a b = [] → ∀ w, ¬ g.IsWalk a b w) := by
  have hat : a.IsText := (isText_of_contains ht.nodes ha).1
  have hbt : b.IsText := (isText_of_contains ht.nodes hb).1
  have hinit := Explored.init ha hat
  have hpending : (Table.insert ∅ a Scalar.null : Table Scalar).contains b = true → b ∈ [a] := by
    intro hc
    exact List.mem_singleton.2 ((eq_or_contains_of_insert hat hc).resolve_right nofun)
  obtain ⟨hfound, hnone⟩ := searchFrom_spec hl hexact ht budget hinit hpending hbt
  have hroute := route_eq budget ha hb
  cases hsearch : (searchFrom g budget b (Table.insert ∅ a .null) [a]).parents? with
  | none =>
    rw [hsearch, Option.map_none, Option.getD_none] at hroute
    rw [hroute]
    refine ⟨fun id hid => absurd hid List.not_mem_nil, fun h => absurd rfl h, fun hroom _ => ?_⟩
    rcases hroom with hroom | rfl
    · exact hnone hsearch hroom
    · -- the search stops at once if it starts at the target
      rw [searchFrom, if_pos (Scalar.same_iff.2 rfl)] at hsearch
      cases hsearch
  | some parents =>
    rw [hsearch, Option.map_some, Option.getD_some] at hroute
    obtain ⟨rest, depth, h⟩ := hfound parents hsearch
    have hcontains := h.taken b List.mem_cons_self
    have hshallow := h.shallow b hcontains
    obtain ⟨hwalk, hdepths⟩ := h.walk_unwind hcontains (Nat.le_of_lt hshallow)
    rw [hroute]
    refine ⟨?_, fun _ => ⟨hwalk, ?_, ?_⟩, ?_⟩
    · exact hwalk.hasNode hl ht ha
    · have hnodup : ((unwind parents parents.size b).map depth).Nodup := by
        rw [hdepths]
        exact List.nodup_range
      exact List.Nodup.of_map _ hnodup
    · intro w hw
      have hlength : (unwind parents parents.size b).length = depth b + 1 := by
        rw [← List.length_map (f := depth), hdepths, List.length_range]
      have hleast := h.least b w hcontains hw
      omega
    · exact fun _ hnil => absurd hnil hwalk.ne_nil

end Graph

namespace QueryEngine

variable {q : QueryEngine} {a b : String}

theorem nodeKey?_text (hne : a ≠ "") (ha : q.graph.hasNode (.text a) = true) :
    q.nodeKey? (.text a) = .ok (some (.text a)) := by
  rw [nodeKey?, Value.isFalsy_text hne]
  change Except.ok (if q.graph.hasNode (.text a) then some (Scalar.text a) else none) = _
  rw [if_pos ha]

theorem nodeBudget_int {limit : Int} (h : q.budget = .int limit) :
    q.nodeBudget = .ok (if limit < 1 then 0 else limit) := by
  rw [nodeBudget, h]
  change (if limit < 1 then Except.ok 0 else .ok limit) = _
  split <;> rfl

/-- Between nodes under textual ids the engine answers with the stops of the route. -/
theorem pathBetween_eq {budget : Int} (hl : q.graph.Linked) (ht : q.graph.TextIds)
    (hbudget : q.nodeBudget = .ok budget) (hane : a ≠ "") (hbne : b ≠ "")
    (ha : q.graph.hasNode (.text a) = true) (hb : q.graph.hasNode (.text b) = true) :
    q.pathBetween (.text a) (.text b) =
      .ok ((q.graph.route (if a = b then 0 else budget) (.text a) (.text b)).filterMap
        (routeStop q.graph)) := by
  have hordered : ∀ n : Int,
      q.graph.ordered (q.graph.routeSearch n (.text a) (.text b)).expanded
          ((q.graph.route n (.text a) (.text b)).filterMap (routeStop q.graph)) =
        .ok ((q.graph.route n (.text a) (.text b)).filterMap (routeStop q.graph)) :=
    fun n => Graph.ordered_of_textIds hl ht _ _
  rw [pathBetween, Value.isFalsy_text hane, Value.isFalsy_text hbne, nodeKey?_text hane ha,
    nodeKey?_text hbne hb]
  change (if (Scalar.text a).same (.text b) = true then
      q.graph.ordered (q.graph.routeSearch 0 (.text a) (.text b)).expanded
        ((q.graph.route 0 (.text a) (.text b)).filterMap (routeStop q.graph))
    else do
      let n ← q.nodeBudget
      q.graph.ordered (q.graph.routeSearch n (.text a) (.text b)).expanded
        ((q.graph.route n (.text a) (.text b)).filterMap (routeStop q.graph))) = _
  by_cases hab : a = b
  · have hsame : (Scalar.text a).same (.text b) = true := by
      rw [hab]
      exact Scalar.same_iff.2 rfl
    rw [if_pos hsame, if_pos hab]
    exact hordered 0
  · have hsame : ¬ (Scalar.text a).same (.text b) = true := fun h =>
      hab (Scalar.text.inj (Scalar.same_iff.1 h))
    rw [if_neg hsame, if_neg hab, hbudget]
    exact hordered budget

end QueryEngine

def sampleEngine : QueryEngine := ⟨(History.ofCalls sampleCalls).graph, .float 0.5, .int 10⟩

end CodeAtlas
