import CodeAtlas.Similarity.EditDistance
import CodeAtlas.Proofs.Similarity.EditScript

/-! The rows of the edit distance are those of a table that is defined entry by entry. The table is the same
read along either sequence, and its entries are least costs, so that the last entry is the least number of
edits. -/

namespace CodeAtlas

variable {α : Type}

section Table

variable [BEq α]

/-- The entry of the table for two sequences, both given from their last items back. -/
def tableEntry : List α → List α → Nat
  | [], ys => ys.length
  | _ :: xs, [] => xs.length + 1
  | x :: xs, y :: ys =>
    if x == y then tableEntry xs ys
    else 1 + min (tableEntry xs ys) (min (tableEntry xs (y :: ys)) (tableEntry (x :: xs) ys))
termination_by xs ys => xs.length + ys.length

theorem tableEntry_cons (x : α) (xs : List α) (y : α) (ys : List α) :
    tableEntry (x :: xs) (y :: ys) =
      if x == y then tableEntry xs ys
      else 1 + min (tableEntry xs ys) (min (tableEntry xs (y :: ys)) (tableEntry (x :: xs) ys)) := by
  rw [tableEntry]

theorem tableEntry_nil_right (xs : List α) : tableEntry xs [] = xs.length := by
  cases xs with
  | nil => rw [tableEntry]
  | cons x xs => rw [tableEntry, List.length_cons]

/-- The row for the sequence `a`: its entries for `q`, and for `q` extended by more and more of `ys`. -/
def tableRow (a : List α) : List α → List α → List Nat
  | q, [] => [tableEntry a q]
  | q, y :: ys => tableEntry a q :: tableRow a (y :: q) ys

theorem tableRow_eq_cons (a q ys : List α) : tableRow a q ys = tableEntry a q :: (tableRow a q ys).tail := by
  cases ys <;> rfl

theorem tableRow_nil (q ys : List α) : tableRow [] q ys = List.range' q.length (ys.length + 1) := by
  induction ys generalizing q with
  | nil => rw [tableRow, tableEntry, List.length_nil, List.range'_one]
  | cons y ys ih => rw [tableRow, tableEntry, ih, List.length_cons, List.length_cons, ← List.range'_succ]

theorem fillRow_tableRow (x : α) (a q ys : List α) :
    tableEntry (x :: a) q :: fillRow x ys (tableEntry a q) (tableEntry (x :: a) q) (tableRow a q ys).tail =
      tableRow (x :: a) q ys := by
  induction ys generalizing q with
  | nil => rfl
  | cons y ys ih =>
    have hentry : (if x == y then tableEntry a q
        else 1 + min (tableEntry a q) (min (tableEntry a (y :: q)) (tableEntry (x :: a) q))) =
          tableEntry (x :: a) (y :: q) := (tableEntry_cons x a y q).symm
    rw [tableRow, tableRow, List.tail_cons, tableRow_eq_cons a, fillRow, ← ih (y :: q)]
    simp only [hentry]

theorem nextRow_tableRow (x : α) (a ys : List α) :
    nextRow ys (tableRow a [] ys) x = tableRow (x :: a) [] ys := by
  -- the first entries count the items read so far
  have hfirst : tableEntry a [] + 1 = tableEntry (x :: a) [] := by
    rw [tableEntry_nil_right, tableEntry_nil_right, List.length_cons]
  rw [tableRow_eq_cons a, nextRow, hfirst]
  exact fillRow_tableRow x a [] ys

theorem foldl_tableRow (c a ys : List α) :
    c.foldl (nextRow ys) (tableRow a [] ys) = tableRow (c.reverse ++ a) [] ys := by
  induction c generalizing a with
  | nil => rfl
  | cons x c ih => rw [List.foldl_cons, nextRow_tableRow, ih, List.reverse_cons, List.append_assoc]; rfl

theorem getLast?_tableRow (a q ys : List α) :
    (tableRow a q ys).getLast? = some (tableEntry a (ys.reverse ++ q)) := by
  induction ys generalizing q with
  | nil => rfl
  | cons y ys ih =>
    rw [tableRow, tableRow_eq_cons, List.getLast?_cons_cons, ← tableRow_eq_cons, ih]
    simp

theorem lastEntry_eq_tableEntry (a b : List α) : lastEntry a b = tableEntry a.reverse b.reverse := by
  have hstart : List.range (b.length + 1) = tableRow [] [] b := by
    rw [tableRow_nil, List.range_eq_range', List.length_nil]
  rw [lastEntry, hstart, foldl_tableRow, getLast?_tableRow, Option.getD_some, List.append_nil,
    List.append_nil]

/-- The table is the same read along either sequence, if comparing items does not depend on which comes first. -/
theorem tableEntry_comm {xs ys : List α} (h : ∀ x ∈ xs, ∀ y ∈ ys, (x == y) = (y == x)) :
    tableEntry xs ys = tableEntry ys xs := by
  induction xs, ys using tableEntry.induct with
  | case1 ys => rw [tableEntry, tableEntry_nil_right]
  | case2 x xs => rw [tableEntry_nil_right, tableEntry]
  | case3 x xs y ys heq ih =>
    obtain ⟨hx, hxs⟩ := List.forall_mem_cons.1 h
    have hrest := ih fun x' hx' y' hy' => hxs x' hx' y' (List.mem_cons_of_mem _ hy')
    have heq' : (y == x) = true := hx y List.mem_cons_self ▸ heq
    rw [tableEntry_cons x, if_pos heq, tableEntry_cons y, if_pos heq', hrest]
  | case4 x xs y ys hne ihboth ihabove ihleft =>
    obtain ⟨hx, hxs⟩ := List.forall_mem_cons.1 h
    have hboth := ihboth fun x' hx' y' hy' => hxs x' hx' y' (List.mem_cons_of_mem _ hy')
    have habove := ihabove hxs
    have hleft := ihleft fun x' hx' y' hy' => h x' hx' y' (List.mem_cons_of_mem _ hy')
    have hne' : ¬ (y == x) = true := hx y List.mem_cons_self ▸ hne
    rw [tableEntry_cons x, if_neg hne, tableEntry_cons y, if_neg hne', hboth, habove, hleft]
    rw [min_comm (tableEntry (y :: ys) xs)]

theorem editDistance_comm {a b : List α} (h : ∀ x ∈ a, ∀ y ∈ b, (x == y) = (y == x)) :
    editDistance a b = editDistance b a := by
  have hlast : lastEntry a b = lastEntry b a := by
    rw [lastEntry_eq_tableEntry, lastEntry_eq_tableEntry]
    exact tableEntry_comm (by simpa using h)
  unfold editDistance
  split <;> split <;> first | rfl | exact hlast | exact hlast.symm

theorem sequenceSimilarity_comm {a b : List α} (h : ∀ x ∈ a, ∀ y ∈ b, (x == y) = (y == x)) :
    sequenceSimilarity a b = sequenceSimilarity b a := by
  rw [sequenceSimilarity, sequenceSimilarity, editDistance_comm h, max_comm]

end Table

section Distance

variable [BEq α] [LawfulBEq α]

/-- The entries of the table are least costs. -/
theorem distance_tableEntry (xs ys : List α) : Distance xs ys (tableEntry xs ys) := by
  induction xs, ys using tableEntry.induct with
  | case1 ys =>
    rw [tableEntry]
    exact .nil_left ys
  | case2 x xs =>
    rw [tableEntry_nil_right]
    exact (Distance.nil_left (x :: xs)).symm
  | case3 x xs y ys heq ih =>
    rw [tableEntry_cons, if_pos heq, ← eq_of_beq heq]
    exact ih.cons_self x
  | case4 x xs y ys hne ihboth ihabove ihleft =>
    rw [tableEntry_cons, if_neg hne]
    exact ihboth.cons_cons (fun hxy => hne (beq_iff_eq.2 hxy)) ihabove ihleft

theorem lastEntry_distance (a b : List α) : Distance a b (lastEntry a b) := by
  rw [lastEntry_eq_tableEntry]
  exact Distance.reverse_iff.1 (distance_tableEntry a.reverse b.reverse)

theorem editDistance_distance (a b : List α) : Distance a b (editDistance a b) := by
  unfold editDistance
  split
  · exact (lastEntry_distance b a).symm
  · exact lastEntry_distance a b

end Distance

/-- The edit distance is the least number of insertions, deletions and substitutions of single items
that turn the one sequence into the other. -/
theorem editDistance_isLeast [DecidableEq α] (a b : List α) :
    IsLeast {n | Edits n a b} (editDistance a b) :=
  (editDistance_distance a b).isLeast_edits

example : editDistance "kitten".toList "sitting".toList = 3 := by decide

end CodeAtlas
