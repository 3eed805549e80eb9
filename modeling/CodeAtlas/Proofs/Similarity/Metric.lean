import CodeAtlas.Proofs.Similarity.EditDistance

/-! The edit distance is a metric. Edits can be made one after the other, which gives the triangle inequality, and
none are needed between equal sequences only. Bounds by the lengths come from alignments: every step of one
changes the length by at most one, and no more steps have a cost than the longer sequence has items. So
the edits leave room in the longer sequence, and the similarity of two sequences is what they leave of it. -/

namespace CodeAtlas

variable {α : Type} {a b c : List α} {m n : Nat}

theorem Edits.trans (h : Edits m a b) (h' : Edits n b c) : Edits (m + n) a c := by
  induction h with
  | none a => rwa [Nat.zero_add]
  | first hedit _ ih =>
    rw [Nat.add_right_comm]
    exact .first hedit (ih h')

theorem edits_zero_iff : Edits 0 a b ↔ a = b := by
  constructor
  · intro h
    cases h
    rfl
  · rintro rfl
    exact .none a

/-- Two sequences can be aligned at no more cost than the longer one has items: item by item, and with what the
longer one has left at the end. -/
theorem Alignment.exists_le_max (a b : List α) : ∃ n ≤ max a.length b.length, Alignment n a b := by
  induction a generalizing b with
  | nil => exact ⟨b.length, le_max_right _ _, .nil_left b⟩
  | cons x a ih =>
    cases b with
    | nil => exact ⟨(x :: a).length, le_max_left _ _, (Alignment.nil_left (x :: a)).symm⟩
    | cons y b =>
      obtain ⟨n, hn, h⟩ := ih b
      refine ⟨n + 1, ?_, .substitute x y h⟩
      simp only [List.length_cons]
      omega

section Distance

variable [DecidableEq α]

/-- So many edits do turn the one sequence into the other. -/
theorem edits_editDistance (a b : List α) : Edits (editDistance a b) a b :=
  (editDistance_distance a b).1.edits

theorem editDistance_le_of_edits (h : Edits n a b) : editDistance a b ≤ n :=
  (editDistance_distance a b).isLeast_edits.2 h

theorem editDistance_eq_zero_iff : editDistance a b = 0 ↔ a = b := by
  constructor
  · intro h
    have hedits := edits_editDistance a b
    rw [h] at hedits
    exact edits_zero_iff.1 hedits
  · intro h
    exact Nat.le_zero.1 (editDistance_le_of_edits (edits_zero_iff.2 h))

theorem editDistance_triangle (a b c : List α) : editDistance a c ≤ editDistance a b + editDistance b c :=
  editDistance_le_of_edits ((edits_editDistance a b).trans (edits_editDistance b c))

theorem length_le_editDistance_add (a b : List α) : b.length ≤ editDistance a b + a.length :=
  (editDistance_distance a b).1.length_le

theorem editDistance_le_max (a b : List α) : editDistance a b ≤ max a.length b.length := by
  obtain ⟨n, hn, h⟩ := Alignment.exists_le_max a b
  exact (editDistance_le_of_edits h.edits).trans hn

/-- The edit distance is symmetric, zero between equal sequences only, and obeys the triangle inequality. It lies
between the difference of the lengths and the greater of them. What it leaves of the greater length, which
the similarity of the sequences is worked out from, is therefore a number from zero to that length, and
is all of it for equal sequences only. -/
theorem editDistance_metric (a b c : List α) :
    editDistance a b = editDistance b a ∧ (editDistance a b = 0 ↔ a = b) ∧
    editDistance a c ≤ editDistance a b + editDistance b c ∧
    ((a.length : Int) - b.length).natAbs ≤ editDistance a b ∧ editDistance a b ≤ max a.length b.length ∧
    ∃ kept : Nat, (kept : Int) = (max a.length b.length : Nat) - editDistance a b ∧
      kept ≤ max a.length b.length ∧ (kept = max a.length b.length ↔ a = b) ∧
      sequenceSimilarity a b =
        if max a.length b.length = 0 then 1.0 else Float.ofNat kept / Float.ofNat (max a.length b.length) := by
  have hcomm : editDistance a b = editDistance b a := editDistance_comm fun x _ y _ => by simp [eq_comm]
  have hzero : editDistance a b = 0 ↔ a = b := editDistance_eq_zero_iff
  have hright : b.length ≤ editDistance a b + a.length := length_le_editDistance_add a b
  have hleft : a.length ≤ editDistance b a + b.length := length_le_editDistance_add b a
  have hmax : editDistance a b ≤ max a.length b.length := editDistance_le_max a b
  refine ⟨hcomm, hzero, editDistance_triangle a b c, by omega, hmax,
    max a.length b.length - editDistance a b, by omega, Nat.sub_le _ _, ?_, rfl⟩
  rw [← hzero]
  constructor
  · intro hkept
    omega
  · intro hnone
    rw [hnone, Nat.sub_zero]

end Distance

end CodeAtlas
