import CodeAtlas.Query.Reach

/-! Shortest routes: a breadth-first search that follows every relationship in both directions. -/

namespace CodeAtlas

/-- The state of a search: for each id taken up the id it was reached from (nothing for the start), and
the ids still to expand. -/
structure Frontier where
  parents : Table Scalar
  queue : List Scalar

namespace Frontier

/-- Takes up an id reached from `current`, unless it is there already. -/
def reach (f : Frontier) (current other : Scalar) : Frontier :=
  if f.parents.contains other then f
  else ⟨f.parents.insert other current, f.queue ++ [other]⟩

def reachAll (f : Frontier) (current : Scalar) : List Scalar → Frontier
  | [] => f
  | other :: rest => (f.reach current other).reachAll current rest

end Frontier

/-- Taking up ids of a finite stock never adds more to the queue than it takes from the stock. -/
theorem Frontier.reachAll_le {ids : List Scalar} (f : Frontier) (current : Scalar)
    {others : List Scalar} (h : ∀ o ∈ others, o ∈ ids) :
    unseen ids (f.reachAll current others).parents.contains +
        (f.reachAll current others).queue.length ≤
      unseen ids f.parents.contains + f.queue.length := by
  induction others generalizing f with
  | nil => exact Nat.le_refl _
  | cons o rest ih =>
    rw [Frontier.reachAll]
    refine Nat.le_trans (ih _ fun o ho => h o (List.mem_cons_of_mem _ ho)) ?_
    rw [Frontier.reach]
    split
    · exact Nat.le_refl _
    · rename_i ho
      have : unseen ids (f.parents.insert o current).contains < unseen ids f.parents.contains := by
        refine unseen_lt (fun k hk => ?_) (h o List.mem_cons_self) (by simpa using ho) ?_
        · simp [Table.contains_insert, hk]
        · simp [Table.contains_insert]
      simp only [List.length_append, List.length_singleton]
      omega

/-- The outcome of a search: the parents if the target was reached, and the ids that were expanded. -/
structure RouteSearch where
  parents? : Option (Table Scalar)
  expanded : List Scalar

def RouteSearch.expand (id : Scalar) (s : RouteSearch) : RouteSearch :=
  { s with expanded := id :: s.expanded }

/-- Searches on. The search gives up once `budget` ids are taken up, but not before it has looked at the
id at the front. -/
def searchFrom (g : Graph) (budget : Int) (target : Scalar) (parents : Table Scalar) :
    List Scalar → RouteSearch
  | [] => ⟨none, []⟩
  | current :: rest =>
    if current.same target then ⟨some parents, []⟩
    else if budget ≤ parents.size then ⟨none, []⟩
    else
      let f := Frontier.reachAll ⟨parents, rest⟩ current ((g.neighbors current).map Prod.snd)
      RouteSearch.expand current (searchFrom g budget target f.parents f.queue)
termination_by queue => unseen g.endpoints parents.contains + queue.length
decreasing_by
  have hin : ∀ o ∈ (g.neighbors current).map Prod.snd, o ∈ g.endpoints := by
    intro o ho
    obtain ⟨⟨e, o'⟩, he, rfl⟩ := List.mem_map.1 ho
    exact Graph.mem_endpoints_of_mem_neighbors he
  have := Frontier.reachAll_le ⟨parents, rest⟩ current hin
  simp only [List.length_cons] at this ⊢
  omega

/-- The ids from the start to `id`. The first argument bounds the length of the way. -/
def unwind (parents : Table Scalar) : Nat → Scalar → List Scalar
  | 0, id => [id]
  | n + 1, id =>
    match parents.get? id with
    | none | some .null => [id]
    | some parent => unwind parents n parent ++ [id]

namespace Graph

def routeSearch (g : Graph) (budget : Int) (start target : Scalar) : RouteSearch :=
  searchFrom g budget target (Table.insert ∅ start .null) [start]

/-- The nodes of a shortest route between two nodes; none if there is no route within the budget. -/
def route (g : Graph) (budget : Int) (start target : Scalar) : List Scalar :=
  if !g.hasNode start || !g.hasNode target then []
  else
    match (g.routeSearch budget start target).parents? with
    | none => []
    | some parents => unwind parents parents.size target

end Graph

end CodeAtlas
