import CodeAtlas.Proofs.Graph.Neighbors
import Mathlib.Data.List.Chain

/-! Walks over the undirected view of a graph, as lists of the ids that they pass. -/

namespace CodeAtlas

namespace Graph

/-- A walk from `a` to `b`: consecutive ids are joined. -/
structure IsWalk (g : Graph) (a b : Scalar) (w : List Scalar) : Prop where
  head : w.head? = some a
  last : w.getLast? = some b
  chain : w.IsChain g.Joined

namespace IsWalk

variable {g : Graph} {a b c : Scalar} {w : List Scalar}

theorem single : g.IsWalk a a [a] where
  head := rfl
  last := rfl
  chain := List.isChain_singleton a

theorem ne_nil (h : g.IsWalk a b w) : w ≠ [] := by
  rintro rfl
  exact nomatch h.head

theorem snoc (h : g.IsWalk a b w) (hbc : g.Joined b c) : g.IsWalk a c (w ++ [c]) where
  head := by
    rw [List.head?_append_of_ne_nil _ h.ne_nil]
    exact h.head
  last := by simp
  chain := by
    refine h.chain.append (List.isChain_singleton c) fun x hx y hy => ?_
    rw [h.last] at hx
    cases hx
    cases hy
    exact hbc

theorem of_snoc (h : g.IsWalk a b (w ++ [c])) (hw : w ≠ []) :
    c = b ∧ ∃ u, g.IsWalk a u w ∧ g.Joined u b := by
  have hc : c = b := by simpa using h.last
  obtain ⟨hchain, -, hjoin⟩ := List.isChain_append.1 h.chain
  have hlast := List.getLast?_eq_some_getLast hw
  refine ⟨hc, w.getLast hw, ⟨?_, hlast, hchain⟩, ?_⟩
  · have hhead := h.head
    rwa [List.head?_append_of_ne_nil _ hw] at hhead
  · exact hc ▸ hjoin _ hlast c rfl

theorem head_eq_of_singleton (h : g.IsWalk a b [c]) : a = c ∧ b = c := by
  have hhead := h.head
  have hlast := h.last
  simp only [List.head?_cons, List.getLast?_singleton, Option.some.injEq] at hhead hlast
  exact ⟨hhead.symm, hlast.symm⟩

/-- A walk that starts at a node passes nothing but nodes. -/
theorem hasNode (hl : g.Linked) (ht : g.TextIds) (h : g.IsWalk a b w) (ha : g.hasNode a = true) :
    ∀ id ∈ w, g.hasNode id = true := by
  induction w using List.reverseRecOn generalizing b with
  | nil => exact fun id hid => absurd hid List.not_mem_nil
  | append_singleton w c ih =>
    intro id hid
    by_cases hw : w = []
    · subst hw
      rw [List.mem_singleton.1 hid, ← (head_eq_of_singleton h).1]
      exact ha
    · obtain ⟨hcb, u, hu, hub⟩ := h.of_snoc hw
      rcases List.mem_append.1 hid with hid | hid
      · exact ih hu id hid
      · rw [List.mem_singleton.1 hid, hcb]
        exact (hub.hasNode hl ht).1

/-- A walk that leaves a set has a step out of it, which a shorter walk leads to. -/
theorem exit {S : Scalar → Prop} (h : g.IsWalk a b w) (ha : S a) (hb : ¬ S b) :
    ∃ u z pre, S u ∧ ¬ S z ∧ g.Joined u z ∧ g.IsWalk a u pre ∧ pre.length < w.length := by
  induction w using List.reverseRecOn generalizing b with
  | nil => exact absurd rfl h.ne_nil
  | append_singleton w c ih =>
    by_cases hw : w = []
    · subst hw
      obtain ⟨hac, hbc⟩ := head_eq_of_singleton h
      rw [hac] at ha
      rw [hbc] at hb
      exact absurd ha hb
    · obtain ⟨-, u, hu, hub⟩ := h.of_snoc hw
      have hlen : w.length < (w ++ [c]).length := by
        rw [List.length_append, List.length_singleton]
        omega
      by_cases hS : S u
      · exact ⟨u, b, w, hS, hb, hub, hu, hlen⟩
      · obtain ⟨u', z, pre, hu', hz, hjoin, hpre, hshort⟩ := ih hu hS
        exact ⟨u', z, pre, hu', hz, hjoin, hpre, by omega⟩

end IsWalk

end Graph

end CodeAtlas
