/-! Grouping items by key: groups stand in the order of their first items, and so do the items of a
group. -/

namespace CodeAtlas

variable {κ α : Type} [DecidableEq κ]

def addToGroup (k : κ) (a : α) : List (κ × List α) → List (κ × List α)
  | [] => [(k, [a])]
  | x :: rest => if x.1 = k then (x.1, x.2 ++ [a]) :: rest else x :: addToGroup k a rest

def groupItems (items : List (κ × α)) : List (κ × List α) :=
  items.foldl (fun groups item => addToGroup item.1 item.2 groups) []

def tally (ks : List κ) : List (κ × Nat) :=
  (groupItems (ks.map fun k => (k, k))).map fun group => (group.1, group.2.length)

end CodeAtlas
