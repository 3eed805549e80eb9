/-! Cutting a text at every occurrence of a character. -/

namespace CodeAtlas.Text

/-- The parts of a text between the occurrences of a character; there is always one part at least. -/
def splitAtChar (sep : Char) : List Char → List (List Char)
  | [] => [[]]
  | c :: rest =>
    if c = sep then [] :: splitAtChar sep rest
    else
      match splitAtChar sep rest with
      | [] => [[c]]
      | part :: parts => (c :: part) :: parts

theorem splitAtChar_ne_nil (sep : Char) (s : List Char) : splitAtChar sep s ≠ [] := by
  cases s with
  | nil => exact List.cons_ne_nil _ _
  | cons c rest =>
    rw [splitAtChar]
    split
    · exact List.cons_ne_nil _ _
    · split <;> exact List.cons_ne_nil _ _

/-- No part holds the character. -/
theorem notMem_of_mem_splitAtChar {sep : Char} {s part : List Char}
    (h : part ∈ splitAtChar sep s) : sep ∉ part := by
  induction s generalizing part with
  | nil =>
    rw [splitAtChar, List.mem_singleton] at h
    rw [h]
    exact List.not_mem_nil
  | cons c rest ih =>
    rw [splitAtChar] at h
    split at h
    · rcases List.mem_cons.1 h with rfl | h
      · exact List.not_mem_nil
      · exact ih h
    · rename_i hc
      split at h
      · rename_i hs
        exact absurd hs (splitAtChar_ne_nil sep rest)
      · rename_i first parts hs
        rw [hs] at ih
        rcases List.mem_cons.1 h with rfl | h
        · intro hm
          rcases List.mem_cons.1 hm with rfl | hm
          · exact hc rfl
          · exact ih List.mem_cons_self hm
        · exact ih (List.mem_cons_of_mem _ h)

end CodeAtlas.Text
