import CodeAtlas.Source.JavaScript
import Mathlib.Order.Bounds.Basic
import Mathlib.Order.CompletePartialOrder
import Mathlib.Order.Interval.Set.Disjoint

/-! Where the blocks of a JavaScript text end. Reading on from an opening brace, the text is open as long as it has
opened more braces than it has closed; the search stops where that ends for the first time, or with the
text. So the block reaches to the matching brace, and a block that begins inside another one ends
there too. -/

namespace CodeAtlas.Source.JavaScript

def depthOf (s : List Char) : Int := (s.count '\x7b' : Int) - s.count '\x7d'

section Depth

variable (s t : List Char)

@[simp] theorem depthOf_nil : depthOf [] = 0 := rfl

@[simp] theorem depthOf_append : depthOf (s ++ t) = depthOf s + depthOf t := by
  simp only [depthOf, List.count_append]
  omega

@[simp] theorem depthOf_opened : depthOf ('\x7b' :: s) = depthOf s + 1 := by
  rw [depthOf, List.count_cons_self, List.count_cons_of_ne (by decide), depthOf]
  omega

@[simp] theorem depthOf_closed : depthOf ('\x7d' :: s) = depthOf s - 1 := by
  rw [depthOf, List.count_cons_self, List.count_cons_of_ne (by decide), depthOf]
  omega

theorem depthOf_cons_of_ne {c : Char} (hopen : c ≠ '\x7b') (hclose : c ≠ '\x7d') : depthOf (c :: s) = depthOf s := by
  rw [depthOf, List.count_cons_of_ne hopen, List.count_cons_of_ne hclose, depthOf]

end Depth

/-- Whether a text read so far leaves blocks open, at its end and all along the way, when some are open already. -/
def StaysOpen (depth : Int) (s : List Char) : Prop := ∀ front, front <+: s → 0 < depth + depthOf front

theorem staysOpen_nil {depth : Int} (h : 0 < depth) : StaysOpen depth [] := by
  intro front hfront
  rw [List.prefix_nil.1 hfront]
  simpa using h

theorem StaysOpen.cons {depth after : Int} {c : Char} {s : List Char} (h : 0 < depth) (hs : StaysOpen after s)
    (hc : ∀ t, depth + depthOf (c :: t) = after + depthOf t) : StaysOpen depth (c :: s) := by
  intro front hfront
  rcases List.prefix_cons_iff.1 hfront with rfl | ⟨t, rfl, ht⟩
  · simpa using h
  · rw [hc]
    exact hs t ht

/-- The search for the end of a block goes on while blocks stay open, up to the brace that closes the last of them,
or to the end of the text. -/
theorem blockEndFrom_cases (position : Nat) {depth : Int} (hdepth : 0 < depth) (cs : List Char) :
    (∃ inside rest, cs = inside ++ '\x7d' :: rest ∧ StaysOpen depth inside ∧ depth + depthOf inside = 1 ∧
      blockEndFrom position depth cs = position + inside.length + 1) ∨
    (StaysOpen depth cs ∧ blockEndFrom position depth cs = position + cs.length) := by
  induction cs generalizing position depth with
  | nil => exact Or.inr ⟨staysOpen_nil hdepth, rfl⟩
  | cons c cs ih =>
    -- a character that leaves blocks open passes the question on to the rest
    have hon : ∀ after : Int, 0 < after → (∀ t, depth + depthOf (c :: t) = after + depthOf t) →
        blockEndFrom position depth (c :: cs) = blockEndFrom (position + 1) after cs →
        (∃ inside rest, c :: cs = inside ++ '\x7d' :: rest ∧ StaysOpen depth inside ∧ depth + depthOf inside = 1 ∧
          blockEndFrom position depth (c :: cs) = position + inside.length + 1) ∨
        (StaysOpen depth (c :: cs) ∧ blockEndFrom position depth (c :: cs) = position + (c :: cs).length) := by
      intro after hafter hc hstep
      rw [hstep]
      rcases ih (position + 1) hafter with ⟨inside, rest, rfl, hopen, hlast, hend⟩ | ⟨hopen, hend⟩
      · refine Or.inl ⟨c :: inside, rest, rfl, hopen.cons hdepth hc, ?_, ?_⟩
        · rw [hc, hlast]
        · rw [hend, List.length_cons]
          omega
      · refine Or.inr ⟨hopen.cons hdepth hc, ?_⟩
        rw [hend, List.length_cons]
        omega
    by_cases hopen : c = '\x7b'
    · subst hopen
      refine hon (depth + 1) (by omega) (fun t => ?_) (by rw [blockEndFrom, if_pos rfl])
      rw [depthOf_opened]
      omega
    · by_cases hclose : c = '\x7d'
      · subst hclose
        by_cases hlast : depth = 1
        · refine Or.inl ⟨[], cs, rfl, staysOpen_nil hdepth, ?_, ?_⟩
          · rw [hlast, depthOf_nil, Int.add_zero]
          · rw [blockEndFrom, if_neg hopen, if_pos rfl, if_pos hlast, List.length_nil]
        · refine hon (depth - 1) (by omega) (fun t => ?_) (by rw [blockEndFrom, if_neg hopen, if_pos rfl, if_neg hlast])
          rw [depthOf_closed]
          omega
      · refine hon depth hdepth (fun t => ?_) (by rw [blockEndFrom, if_neg hopen, if_neg hclose])
        rw [depthOf_cons_of_ne t hopen hclose]

section Blocks

variable {content : List Char} {i j k : Nat}

/-- Whether as many braces are closed as are opened from one index up to a later one. -/
def Closes (content : List Char) (i e : Nat) : Prop :=
  i < e ∧ (slice content i e).count '\x7d' = (slice content i e).count '\x7b'

theorem closes_iff {e : Nat} : Closes content i e ↔ i < e ∧ depthOf (slice content i e) = 0 := by
  unfold Closes depthOf
  refine and_congr_right fun _ => ?_
  omega

theorem slice_append (hij : i ≤ j) (hjk : j ≤ k) : slice content i j ++ slice content j k = slice content i k := by
  unfold slice
  obtain ⟨a, rfl⟩ := Nat.exists_eq_add_of_le hij
  obtain ⟨b, rfl⟩ := Nat.exists_eq_add_of_le hjk
  rw [← List.drop_drop, Nat.add_sub_cancel_left, Nat.add_sub_cancel_left, Nat.add_assoc, Nat.add_sub_cancel_left,
    List.take_add]

theorem drop_eq_of_brace (hi : content[i]? = some '\x7b') : content.drop i = '\x7b' :: content.drop (i + 1) := by
  obtain ⟨hlt, hbrace⟩ := List.getElem?_eq_some_iff.1 hi
  rw [List.drop_eq_getElem_cons hlt, hbrace]

theorem depthOf_slice (hi : content[i]? = some '\x7b') (hk : i < k) :
    depthOf (slice content i k) = 1 + depthOf ((content.drop (i + 1)).take (k - (i + 1))) := by
  have hlength : k - i = (k - (i + 1)) + 1 := by omega
  rw [slice, drop_eq_of_brace hi, hlength, List.take_succ_cons, depthOf_opened, Int.add_comm]

/-- More braces are opened than closed before the end of a block. The block ends behind a closing brace that makes
them equal, or else nothing makes them equal and it ends with the text. -/
theorem blockEnd_cases (hi : content[i]? = some '\x7b') :
    (∀ k, i < k → k < blockEnd content i → 0 < depthOf (slice content i k)) ∧
    ((Closes content i (blockEnd content i) ∧ content[blockEnd content i - 1]? = some '\x7d') ∨
      (blockEnd content i = content.length ∧ ∀ k, i < k → 0 < depthOf (slice content i k))) := by
  have hend : blockEnd content i = blockEndFrom (i + 1) 1 (content.drop (i + 1)) := by
    rw [blockEnd, drop_eq_of_brace hi, blockEndFrom, if_pos rfl, Int.zero_add]
  rcases blockEndFrom_cases (i + 1) Int.one_pos (content.drop (i + 1)) with
    ⟨inside, rest, hcontent, hopen, hlast, hstop⟩ | ⟨hopen, hstop⟩
  · rw [hend, hstop]
    refine ⟨fun k hk hbefore => ?_, Or.inl ⟨closes_iff.2 ⟨by omega, ?_⟩, ?_⟩⟩
    · rw [depthOf_slice hi hk, hcontent, List.take_append_of_le_length (by omega)]
      exact hopen _ (List.take_prefix _ _)
    · have htake : i + 1 + inside.length + 1 - (i + 1) = inside.length + 1 := by omega
      rw [depthOf_slice hi (by omega), hcontent, htake, List.take_length_add_append, List.take_succ_cons,
        List.take_zero, depthOf_append, depthOf_closed, depthOf_nil]
      omega
    · have hindex : content[i + 1 + inside.length]? = (content.drop (i + 1))[inside.length]? := by
        rw [List.getElem?_drop]
      rw [Nat.add_sub_cancel, hindex, hcontent, List.getElem?_append_right (Nat.le_refl _), Nat.sub_self,
        List.getElem?_cons_zero]
  · have hlt : i < content.length := (List.getElem?_eq_some_iff.1 hi).1
    have hpositive : ∀ k, i < k → 0 < depthOf (slice content i k) := by
      intro k hk
      rw [depthOf_slice hi hk]
      exact hopen _ (List.take_prefix _ _)
    rw [hend, hstop, List.length_drop]
    exact ⟨fun k hk _ => hpositive k hk, Or.inr ⟨by omega, hpositive⟩⟩

theorem lt_blockEnd (hi : content[i]? = some '\x7b') : i < blockEnd content i := by
  obtain ⟨-, ⟨hcloses, -⟩ | ⟨hlength, -⟩⟩ := blockEnd_cases hi
  · exact hcloses.1
  · rw [hlength]
    exact (List.getElem?_eq_some_iff.1 hi).1

theorem blockEnd_le_length (hi : content[i]? = some '\x7b') : blockEnd content i ≤ content.length := by
  obtain ⟨-, ⟨hcloses, hbrace⟩ | ⟨hlength, -⟩⟩ := blockEnd_cases hi
  · have := (List.getElem?_eq_some_iff.1 hbrace).1
    omega
  · exact hlength.le

theorem blockEnd_le_of_depthOf_le (hi : content[i]? = some '\x7b') (hk : i < k)
    (hdepth : depthOf (slice content i k) ≤ 0) : blockEnd content i ≤ k := by
  by_contra hbefore
  have := (blockEnd_cases hi).1 k hk (by omega)
  omega

/-- A block that begins inside another one ends there too: between the inner brace and the end of the outer block
more is closed than opened, because up to the inner brace more was opened than closed. -/
theorem blockEnd_le_blockEnd (hi : content[i]? = some '\x7b') (hj : content[j]? = some '\x7b') (hij : i < j)
    (hinside : j < blockEnd content i) : blockEnd content j ≤ blockEnd content i := by
  obtain ⟨hopen, ⟨hcloses, -⟩ | ⟨hlength, -⟩⟩ := blockEnd_cases hi
  · refine blockEnd_le_of_depthOf_le hj hinside ?_
    have hwhole := (closes_iff.1 hcloses).2
    have hfront := hopen j hij hinside
    rw [← slice_append hij.le hinside.le, depthOf_append] at hwhole
    omega
  · rw [hlength]
    exact blockEnd_le_length hj

theorem blocks_nested_or_disjoint (hi : content[i]? = some '\x7b') (hj : content[j]? = some '\x7b') (hij : i ≤ j) :
    Set.Ico j (blockEnd content j) ⊆ Set.Ico i (blockEnd content i) ∨
      Disjoint (Set.Ico i (blockEnd content i)) (Set.Ico j (blockEnd content j)) := by
  rcases Nat.lt_or_ge j (blockEnd content i) with hinside | hbehind
  · rcases Nat.eq_or_lt_of_le hij with rfl | hlt
    · exact Or.inl subset_rfl
    · exact Or.inl (Set.Ico_subset_Ico hij (blockEnd_le_blockEnd hi hj hlt hinside))
  · refine Or.inr (Set.Ico_disjoint_Ico.2 ?_)
    omega

/-- A block reaches from its opening brace to the matching one. It ends at the first index up to which as many
braces are closed as are opened, if there is one: just behind a closing brace, and more braces are opened
than closed everywhere before. Otherwise it ends with the text. The ranges of any two blocks of a text are
nested or disjoint, of those too that nothing closes. -/
theorem blockEnd_matches (hi : content[i]? = some '\x7b') :
    ((∃ e, Closes content i e) →
      IsLeast {e | Closes content i e} (blockEnd content i) ∧ content[blockEnd content i - 1]? = some '\x7d' ∧
      ∀ k, i < k → k < blockEnd content i → (slice content i k).count '\x7d' < (slice content i k).count '\x7b') ∧
    ((¬ ∃ e, Closes content i e) → blockEnd content i = content.length) ∧
    ∀ j, content[j]? = some '\x7b' →
      Set.Ico j (blockEnd content j) ⊆ Set.Ico i (blockEnd content i) ∨
      Set.Ico i (blockEnd content i) ⊆ Set.Ico j (blockEnd content j) ∨
      Disjoint (Set.Ico i (blockEnd content i)) (Set.Ico j (blockEnd content j)) := by
  obtain ⟨hopen, hend⟩ := blockEnd_cases hi
  refine ⟨?_, ?_, fun j hj => ?_⟩
  · rintro ⟨e, he⟩
    rcases hend with ⟨hcloses, hbrace⟩ | ⟨-, hnever⟩
    · refine ⟨⟨hcloses, fun e' he' => ?_⟩, hbrace, fun k hk hbefore => ?_⟩
      · exact blockEnd_le_of_depthOf_le hi he'.1 (closes_iff.1 he').2.le
      · have := hopen k hk hbefore
        unfold depthOf at this
        omega
    · have := hnever e he.1
      rw [(closes_iff.1 he).2] at this
      omega
  · intro hnone
    rcases hend with ⟨hcloses, -⟩ | ⟨hlength, -⟩
    · exact absurd ⟨_, hcloses⟩ hnone
    · exact hlength
  · rcases Nat.le_total i j with hij | hji
    · rcases blocks_nested_or_disjoint hi hj hij with hnested | hdisjoint
      · exact Or.inl hnested
      · exact Or.inr (Or.inr hdisjoint)
    · rcases blocks_nested_or_disjoint hj hi hji with hnested | hdisjoint
      · exact Or.inr (Or.inl hnested)
      · exact Or.inr (Or.inr hdisjoint.symm)

def nestedBlocks : List Char := "f\x7ba\x7bb\x7dc\x7dd\x7be".toList

theorem blockEnd_matches_nestedBlocks :
    nestedBlocks[1]? = some '\x7b' ∧ nestedBlocks[3]? = some '\x7b' ∧
    IsLeast {e | Closes nestedBlocks 1 e} 8 ∧ nestedBlocks[7]? = some '\x7d' ∧
    (Set.Ico 3 6 ⊆ Set.Ico 1 8 ∨ Set.Ico 1 8 ⊆ Set.Ico 3 6 ∨ Disjoint (Set.Ico 1 8) (Set.Ico 3 6)) := by
  have houter : blockEnd nestedBlocks 1 = 8 := by decide
  have hinner : blockEnd nestedBlocks 3 = 6 := by decide
  obtain ⟨hclosed, -, hranges⟩ := @blockEnd_matches nestedBlocks 1 rfl
  have hends := hclosed ⟨8, by decide, by decide⟩
  have hrange := hranges 3 rfl
  rw [houter] at hends
  rw [houter, hinner] at hrange
  exact ⟨rfl, rfl, hends.1, hends.2.1, hrange⟩

end Blocks

end CodeAtlas.Source.JavaScript
