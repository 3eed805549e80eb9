import CodeAtlas.Query.Reach

/-! The dependencies of a node: a depth-first walk along outgoing dependencies. An edge is reported every
time its source is expanded, and a node is expanded at most once. -/

namespace CodeAtlas

/-- A dependency found on the way, with the depth of its source. -/
structure DependencyHit where
  node : Node
  edge : Edge
  depth : Nat

/-- A node under expansion, with the edges it has yet to look at. -/
structure Frame where
  id : Scalar
  depth : Nat
  edges : List (Edge × Scalar)

/-- How far a walk may go: the greatest depth reported and the number of nodes expanded. -/
structure WalkBounds where
  maxDepth : Int
  budget : Int

/-- What a walk reports, and the nodes it expanded. -/
structure Walk where
  hits : List DependencyHit
  visited : List Scalar

def Walk.report (hit : DependencyHit) (w : Walk) : Walk := { w with hits := hit :: w.hits }

/-- The work that is in sight: one step for each frame and each edge it holds. -/
def stackSize : List Frame → Nat
  | [] => 0
  | f :: below => f.edges.length + 1 + stackSize below

/-- The node that an edge from a frame depends on, if it is an outgoing dependency on a node. -/
def dependencyOf? (g : Graph) (id : Scalar) (e : Edge) (other : Scalar) : Option Node :=
  if e.source.same id && e.kind = .dependsOn then g.nodes.get? other else none

/-- Walks on from a stack of frames, the innermost first. -/
def walkFrom (g : Graph) (bounds : WalkBounds) (visited : List Scalar) : List Frame → Walk
  | [] => ⟨[], visited⟩
  | ⟨_, _, []⟩ :: below => walkFrom g bounds visited below
  | ⟨id, depth, (e, other) :: rest⟩ :: below =>
    let here : Frame := ⟨id, depth, rest⟩
    match h : dependencyOf? g id e other with
    | none => walkFrom g bounds visited (here :: below)
    | some n =>
      Walk.report ⟨n, e, depth⟩ <|
        if hd : bounds.maxDepth < depth + 1 ∨ hasSeen visited other = true ∨
            bounds.budget ≤ visited.length then
          walkFrom g bounds visited (here :: below)
        else
          walkFrom g bounds (other :: visited)
            (⟨other, depth + 1, g.neighbors other⟩ :: here :: below)
termination_by stack => (unseen g.nodes.keys (hasSeen visited), stackSize stack)
decreasing_by
  · exact Prod.Lex.right _ (by simp [stackSize])
  · exact Prod.Lex.right _ (by simp [stackSize])
  · exact Prod.Lex.right _ (by simp [stackSize])
  · refine Prod.Lex.left _ _ ?_
    have hn : g.nodes.get? other = some n := by
      rw [dependencyOf?] at h
      split at h
      · exact h
      · simp at h
    obtain ⟨k, hk, hc⟩ := Table.exists_key_of_get? hn
    refine unseen_lt (fun k h => ?_) hk ?_ ?_
    · rw [hasSeen, List.any_cons]
      rw [hasSeen] at h
      simp [h]
    · rw [hasSeen_congr hc]
      simp only [not_or, Bool.not_eq_true] at hd
      exact hd.2.1
    · simp [hasSeen, hc]

namespace Graph

def dependencyWalk (g : Graph) (start : Scalar) (bounds : WalkBounds) : Walk :=
  if !g.hasNode start || bounds.maxDepth < 0 || bounds.budget < 1 then ⟨[], []⟩
  else walkFrom g bounds [start] [⟨start, 0, g.neighbors start⟩]

def dependencies (g : Graph) (start : Scalar) (bounds : WalkBounds) : List DependencyHit :=
  (g.dependencyWalk start bounds).hits

end Graph

end CodeAtlas
