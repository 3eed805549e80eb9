import CodeAtlas.Proofs.Graph.Neighbors
import CodeAtlas.Query.Dependencies
import Mathlib.Data.List.Perm.Basic

/-! What a dependency walk does to its stack. Every node that it takes up opens one frame, and all that it
reports is what the frames had to report when they were opened, each of them once; so a walk is described
by the list of its frames. Whether a dependency is followed is decided when it is reported. -/

namespace CodeAtlas

theorem hasSeen_iff_mem {seen : List Scalar} {id : Scalar} (h : id.IsText) :
    hasSeen seen id = true ↔ id ∈ seen := by
  rw [hasSeen, List.any_eq_true]
  constructor
  · rintro ⟨k, hk, hsame⟩
    exact Scalar.isText_of_canon_eq (Scalar.same_iff.1 hsame) h ▸ hk
  · exact fun hid => ⟨id, hid, Scalar.same_iff.2 rfl⟩

theorem dependencyOf?_eq_some {g : Graph} {id other : Scalar} {e : Edge} {n : Node} :
    dependencyOf? g id e other = some n ↔
      e.source.canon = id.canon ∧ e.kind = .dependsOn ∧ g.nodes.get? other = some n := by
  unfold dependencyOf?
  split
  · rename_i h
    simp only [Bool.and_eq_true, Scalar.same_iff, decide_eq_true_eq] at h
    simp [h]
  · rename_i h
    simp only [Bool.and_eq_true, Scalar.same_iff, decide_eq_true_eq, not_and] at h
    simp only [reduceCtorEq, false_iff, not_and]
    exact fun hs hk => absurd hk (h hs)

section Walk

variable {g : Graph} {bounds : WalkBounds} {visited : List Scalar} {id other : Scalar} {depth : Nat}
  {e : Edge} {n : Node} {rest : List (Edge × Scalar)} {below : List Frame}

theorem walkFrom_of_none (h : dependencyOf? g id e other = none) :
    walkFrom g bounds visited (⟨id, depth, (e, other) :: rest⟩ :: below) =
      walkFrom g bounds visited (⟨id, depth, rest⟩ :: below) := by
  rw [walkFrom]
  split
  · rfl
  · rename_i n hn
    rw [h] at hn
    cases hn

/-- A dependency is reported, and followed unless it is too deep, seen before or beyond the budget. -/
theorem walkFrom_of_some (h : dependencyOf? g id e other = some n) :
    walkFrom g bounds visited (⟨id, depth, (e, other) :: rest⟩ :: below) =
      Walk.report ⟨n, e, depth⟩
        (if bounds.maxDepth < depth + 1 ∨ hasSeen visited other = true ∨
            bounds.budget ≤ visited.length then
          walkFrom g bounds visited (⟨id, depth, rest⟩ :: below)
        else
          walkFrom g bounds (other :: visited)
            (⟨other, depth + 1, g.neighbors other⟩ :: ⟨id, depth, rest⟩ :: below)) := by
  rw [walkFrom]
  split
  · rename_i hn
    rw [h] at hn
    cases hn
  · rename_i n' hn
    cases h.symm.trans hn
    rfl

end Walk

namespace Frame

def opened (g : Graph) (id : Scalar) (depth : Nat) : Frame := ⟨id, depth, g.neighbors id⟩

def pending (g : Graph) (f : Frame) : List DependencyHit :=
  f.edges.filterMap fun p => (dependencyOf? g f.id p.1 p.2).map fun n => ⟨n, p.1, f.depth⟩

def IsPart (g : Graph) (f : Frame) : Prop := ∀ p ∈ f.edges, p ∈ g.neighbors f.id

variable {g : Graph} {id other : Scalar} {depth : Nat} {e : Edge} {n : Node}
  {rest : List (Edge × Scalar)} {h : DependencyHit}

theorem isPart_opened : (opened g id depth).IsPart g := fun _ hp => hp

theorem IsPart.tail (hf : IsPart g ⟨id, depth, (e, other) :: rest⟩) : IsPart g ⟨id, depth, rest⟩ :=
  fun p hp => hf p (List.mem_cons_of_mem _ hp)

theorem pending_cons_of_none (h : dependencyOf? g id e other = none) :
    pending g ⟨id, depth, (e, other) :: rest⟩ = pending g ⟨id, depth, rest⟩ := by
  simp [pending, h]

theorem pending_cons_of_some (h : dependencyOf? g id e other = some n) :
    pending g ⟨id, depth, (e, other) :: rest⟩ = ⟨n, e, depth⟩ :: pending g ⟨id, depth, rest⟩ := by
  simp [pending, h]

theorem target_of_dependencyOf? (hp : (e, other) ∈ g.neighbors id)
    (h : dependencyOf? g id e other = some n) : e.target = other := by
  obtain ⟨hsource, -, -⟩ := dependencyOf?_eq_some.1 h
  obtain ⟨-, rfl⟩ := Graph.mem_edges_of_mem_neighbors hp
  rw [Edge.otherEnd, if_pos (Scalar.same_iff.2 hsource)]

/-- A frame reports edges that it holds, each at most as often as it holds it. -/
theorem edges_pending_sublist :
    ((pending g ⟨id, depth, rest⟩).map (·.edge)).Sublist (rest.map Prod.fst) := by
  induction rest with
  | nil => exact List.Sublist.refl _
  | cons p rest ih =>
    obtain ⟨e, other⟩ := p
    cases hdep : dependencyOf? g id e other with
    | none =>
      rw [pending_cons_of_none hdep]
      exact ih.cons e
    | some n =>
      rw [pending_cons_of_some hdep]
      exact ih.cons_cons e

section Texts

variable (hl : g.Linked) (ht : g.TextIds)

include hl ht

/-- A node that was just taken up has all its dependencies to report. -/
theorem mem_pending_opened (hid : id.IsText) :
    h ∈ (opened g id depth).pending g ↔
      h.edge ∈ g.edges.values ∧ h.edge.kind = .dependsOn ∧ h.edge.source = id ∧
        g.nodes.get? h.edge.target = some h.node ∧ h.depth = depth := by
  constructor
  · intro hmem
    obtain ⟨⟨e, other⟩, hp, hmem⟩ := List.mem_filterMap.1 hmem
    obtain ⟨n, hn, rfl⟩ := Option.map_eq_some_iff.1 hmem
    have htarget : e.target = other := target_of_dependencyOf? hp hn
    obtain ⟨hsource, hkind, hnode⟩ := dependencyOf?_eq_some.1 hn
    exact ⟨(Graph.mem_edges_of_mem_neighbors hp).1, hkind, Scalar.isText_of_canon_eq hsource hid,
      htarget ▸ hnode, rfl⟩
  · obtain ⟨n, e, d⟩ := h
    rintro ⟨he, hkind, rfl, hnode, rfl⟩
    have hmem := Graph.mem_neighbors_of_touches hl ht he (Or.inl rfl)
    have hother : e.otherEnd e.source = e.target := by
      rw [Edge.otherEnd, if_pos (Scalar.same_iff.2 rfl)]
    rw [hother] at hmem
    refine List.mem_filterMap.2 ⟨_, hmem, ?_⟩
    have hdep := dependencyOf?_eq_some.2 ⟨rfl, hkind, hnode⟩
    exact Option.map_eq_some_iff.2 ⟨n, hdep, rfl⟩

theorem nodup_pending_opened : (((opened g id depth).pending g).map (·.edge)).Nodup :=
  (Graph.nodup_neighbors hl ht).sublist edges_pending_sublist

end Texts

end Frame

/-- What a walk with these frames did from a stack: it took up the nodes of the frames, newest first, and
reported what the stack and the frames had pending. A node was taken up because a dependency on it was
reported one step above, and a dependency within the depth leads to a node that was taken up unless the
budget was used up. -/
structure Expands (g : Graph) (bounds : WalkBounds) (visited : List Scalar) (stack : List Frame)
    (w : Walk) (frames : List Frame) : Prop where
  visited : w.visited = frames.map (·.id) ++ visited
  hits : w.hits.Perm ((stack ++ frames).flatMap (·.pending g))
  opened : ∀ f ∈ frames, f = .opened g f.id f.depth
  nodup : w.visited.Nodup
  nodes : ∀ f ∈ frames, g.hasNode f.id = true
  reached : ∀ f ∈ frames, (f.depth : Int) ≤ bounds.maxDepth ∧
    ∃ h ∈ w.hits, h.edge.target = f.id ∧ h.depth + 1 = f.depth
  followed : ∀ h ∈ w.hits, (h.depth : Int) + 1 ≤ bounds.maxDepth →
    h.edge.target ∈ w.visited ∨ bounds.budget ≤ w.visited.length

namespace Expands

variable {g : Graph} {bounds : WalkBounds} {visited : List Scalar} {stack stack' below : List Frame}
  {w : Walk} {frames : List Frame} {id other : Scalar} {depth : Nat} {e : Edge} {n : Node}
  {rest : List (Edge × Scalar)}

theorem nil (h : visited.Nodup) : Expands g bounds visited [] ⟨[], visited⟩ [] where
  visited := rfl
  hits := List.Perm.refl _
  opened _ hf := absurd hf List.not_mem_nil
  nodup := h
  nodes _ hf := absurd hf List.not_mem_nil
  reached _ hf := absurd hf List.not_mem_nil
  followed _ hh := absurd hh List.not_mem_nil

theorem of_pending_eq (h : Expands g bounds visited stack w frames)
    (heq : stack'.flatMap (·.pending g) = stack.flatMap (·.pending g)) :
    Expands g bounds visited stack' w frames :=
  { h with
    hits := by
      rw [List.flatMap_append, heq, ← List.flatMap_append]
      exact h.hits }

theorem mem_visited (h : Expands g bounds visited stack w frames) {k : Scalar} (hk : k ∈ visited) :
    k ∈ w.visited := by
  rw [h.visited]
  exact List.mem_append_right _ hk

theorem length_visited_le (h : Expands g bounds visited stack w frames) :
    visited.length ≤ w.visited.length := by
  rw [h.visited, List.length_append]
  omega

/-- A dependency is reported and not followed. -/
theorem report (h : Expands g bounds visited (⟨id, depth, rest⟩ :: below) w frames)
    (hdep : dependencyOf? g id e other = some n) (htarget : e.target = other)
    (hstay : bounds.maxDepth < (depth : Int) + 1 ∨ other ∈ visited ∨
      bounds.budget ≤ visited.length) :
    Expands g bounds visited (⟨id, depth, (e, other) :: rest⟩ :: below) (w.report ⟨n, e, depth⟩)
      frames where
  visited := h.visited
  hits := by
    simp only [List.cons_append, List.flatMap_cons, Frame.pending_cons_of_some hdep]
    exact h.hits.cons _
  opened := h.opened
  nodup := h.nodup
  nodes := h.nodes
  reached f hf := by
    obtain ⟨hdepth, hit, hhit, hreach⟩ := h.reached f hf
    exact ⟨hdepth, hit, List.mem_cons_of_mem _ hhit, hreach⟩
  followed hit hhit hdepth := by
    rcases List.mem_cons.1 hhit with rfl | hhit
    · rcases hstay with hdeep | hseen | hbudget
      · exact absurd hdepth (by simp only; omega)
      · exact Or.inl (h.mem_visited (htarget ▸ hseen))
      · have hle := h.length_visited_le
        exact Or.inr (by simp only [Walk.report]; omega)
    · exact h.followed hit hhit hdepth

/-- A dependency is reported and followed, which opens a frame. -/
theorem follow
    (h : Expands g bounds (other :: visited)
      (.opened g other (depth + 1) :: ⟨id, depth, rest⟩ :: below) w frames)
    (hdep : dependencyOf? g id e other = some n) (htarget : e.target = other)
    (hdepth : (depth : Int) + 1 ≤ bounds.maxDepth) :
    Expands g bounds visited (⟨id, depth, (e, other) :: rest⟩ :: below) (w.report ⟨n, e, depth⟩)
      (frames ++ [.opened g other (depth + 1)]) where
  visited := by
    rw [List.map_append, List.append_assoc]
    exact h.visited
  hits := by
    simp only [List.cons_append, List.flatMap_cons, Frame.pending_cons_of_some hdep]
    refine (h.hits.trans ?_).cons _
    -- the new frame is the last of the frames, and no more the first of the stack
    simp only [List.cons_append, List.flatMap_cons, List.flatMap_append, List.flatMap_nil,
      List.append_nil]
    refine List.perm_append_comm.trans ?_
    simp only [List.append_assoc]
    exact List.Perm.refl _
  opened f hf := by
    rcases List.mem_append.1 hf with hf | hf
    · exact h.opened f hf
    · rw [List.mem_singleton.1 hf]
      rfl
  nodup := h.nodup
  nodes f hf := by
    rcases List.mem_append.1 hf with hf | hf
    · exact h.nodes f hf
    · rw [List.mem_singleton.1 hf]
      exact Table.contains_of_get? (dependencyOf?_eq_some.1 hdep).2.2
  reached f hf := by
    rcases List.mem_append.1 hf with hf | hf
    · obtain ⟨hle, hit, hhit, hreach⟩ := h.reached f hf
      exact ⟨hle, hit, List.mem_cons_of_mem _ hhit, hreach⟩
    · rw [List.mem_singleton.1 hf]
      exact ⟨by simpa [Frame.opened] using hdepth, _, List.mem_cons_self, htarget, rfl⟩
  followed hit hhit hle := by
    rcases List.mem_cons.1 hhit with rfl | hhit
    · exact Or.inl (htarget ▸ h.mem_visited List.mem_cons_self)
    · exact h.followed hit hhit hle

end Expands

/-- Every walk has its frames. -/
theorem exists_expands {g : Graph} (ht : g.TextIds) {bounds : WalkBounds} {visited : List Scalar}
    {stack : List Frame} (hpart : ∀ f ∈ stack, f.IsPart g) (hnodup : visited.Nodup) :
    ∃ frames, Expands g bounds visited stack (walkFrom g bounds visited stack) frames := by
  induction visited, stack using walkFrom.induct g bounds with
  | case1 visited =>
    rw [walkFrom]
    exact ⟨[], .nil hnodup⟩
  | case2 visited id depth below ih =>
    obtain ⟨frames, h⟩ := ih (List.forall_mem_cons.1 hpart).2 hnodup
    rw [walkFrom]
    exact ⟨frames, h.of_pending_eq rfl⟩
  | case3 visited id depth e other rest below here hdep ih =>
    obtain ⟨hfront, hbelow⟩ := List.forall_mem_cons.1 hpart
    obtain ⟨frames, h⟩ := ih (List.forall_mem_cons.2 ⟨hfront.tail, hbelow⟩) hnodup
    rw [walkFrom_of_none hdep]
    refine ⟨frames, h.of_pending_eq ?_⟩
    rw [List.flatMap_cons, List.flatMap_cons, Frame.pending_cons_of_none hdep]
  | case4 visited id depth e other rest below here n hdep ihstay ihfollow =>
    obtain ⟨hfront, hbelow⟩ := List.forall_mem_cons.1 hpart
    have hhere : ∀ f ∈ here :: below, f.IsPart g := List.forall_mem_cons.2 ⟨hfront.tail, hbelow⟩
    have htarget : e.target = other :=
      Frame.target_of_dependencyOf? (hfront _ List.mem_cons_self) hdep
    have hother : other.IsText := by
      have hnode := Table.contains_of_get? (dependencyOf?_eq_some.1 hdep).2.2
      exact (Graph.isText_of_contains ht.nodes hnode).1
    rw [walkFrom_of_some hdep]
    split
    · rename_i hstay
      obtain ⟨frames, h⟩ := ihstay hhere hnodup
      rw [hasSeen_iff_mem hother] at hstay
      exact ⟨frames, h.report hdep htarget hstay⟩
    · rename_i hgo
      have hnew : other ∉ visited := fun hmem =>
        hgo (Or.inr (Or.inl ((hasSeen_iff_mem hother).2 hmem)))
      obtain ⟨frames, h⟩ := ihfollow hgo (List.forall_mem_cons.2 ⟨Frame.isPart_opened, hhere⟩)
        (List.nodup_cons.2 ⟨hnew, hnodup⟩)
      exact ⟨_, h.follow hdep htarget (by omega)⟩

end CodeAtlas
