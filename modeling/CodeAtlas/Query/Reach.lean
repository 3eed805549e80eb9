import CodeAtlas.Graph.Basic

/-! How much of a graph a traversal has still to see. Both traversals end because every id they take up is
one of finitely many that they had not taken up before. -/

namespace CodeAtlas

def hasSeen (seen : List Scalar) (id : Scalar) : Bool := seen.any (·.same id)

def unseen (ids : List Scalar) (seen : Scalar → Bool) : Nat := ids.countP fun k => !seen k

theorem not_of_imp {a b : Bool} (h : a = true → b = true) (hb : (!b) = true) : (!a) = true := by
  cases a with
  | false => rfl
  | true => rw [h rfl] at hb; exact hb

theorem unseen_le {ids : List Scalar} {p q : Scalar → Bool} (h : ∀ k, p k = true → q k = true) :
    unseen ids q ≤ unseen ids p :=
  List.countP_mono_left fun k _ => not_of_imp (h k)

theorem unseen_lt {ids : List Scalar} {p q : Scalar → Bool} (h : ∀ k, p k = true → q k = true)
    {x : Scalar} (hx : x ∈ ids) (hp : p x = false) (hq : q x = true) :
    unseen ids q < unseen ids p := by
  induction ids with
  | nil => exact absurd hx List.not_mem_nil
  | cons a rest ih =>
    rw [unseen, unseen, List.countP_cons, List.countP_cons]
    rcases List.mem_cons.1 hx with rfl | hx
    · have hle : unseen rest q ≤ unseen rest p := unseen_le h
      rw [hp, hq]
      exact Nat.lt_succ_of_le hle
    · have hlt := ih hx
      by_cases ha : (!q a) = true
      · rw [if_pos ha, if_pos (not_of_imp (h a) ha)]
        exact Nat.succ_lt_succ hlt
      · rw [if_neg ha]
        exact Nat.lt_of_lt_of_le hlt (Nat.le_add_right _ _)

theorem hasSeen_congr {seen : List Scalar} {a b : Scalar} (h : a.canon = b.canon) :
    hasSeen seen a = hasSeen seen b := by
  simp [hasSeen, Scalar.same, h]

def Graph.endpoints (g : Graph) : List Scalar := g.edges.values.flatMap fun e => [e.source, e.target]

theorem Graph.mem_endpoints_of_mem_neighbors {g : Graph} {id : Scalar} {e : Edge} {other : Scalar}
    (h : (e, other) ∈ g.neighbors id) : other ∈ g.endpoints := by
  rw [Graph.neighbors] at h
  split at h
  · simp at h
  · obtain ⟨eid, -, h⟩ := List.mem_filterMap.1 h
    obtain ⟨e', he', h⟩ := Option.map_eq_some_iff.1 h
    cases h
    refine List.mem_flatMap.2 ⟨e, Table.mem_values_of_get? he', ?_⟩
    rw [Edge.otherEnd]
    split <;> simp

end CodeAtlas
