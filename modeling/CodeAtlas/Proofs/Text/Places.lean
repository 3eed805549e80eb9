import CodeAtlas.Proofs.Text.Matching

/-! Where matches lie in the text that is searched. Every place that the search comes to knows what is before
and behind it, and each match starts where the one before has ended, or further on. What all ways through an
expression capture, all its matches do. -/

namespace CodeAtlas.Text

/-- Whether a place lies in a text: what is not before it follows it. -/
def Cursor.IsIn (c : Cursor) (s : List Char) : Prop :=
  ∃ before, s = before ++ c.rest ∧ c.position = before.length ∧ c.previous = before.getLast?

namespace Cursor

variable {c c' : Cursor} {s : List Char} {test : Char → Bool}

theorem isIn_start (s : List Char) : (start s).IsIn s := ⟨[], rfl, rfl, rfl⟩

theorem IsIn.rest (h : c.IsIn s) : c.rest = s.drop c.position := by
  obtain ⟨before, hs, hposition, -⟩ := h
  rw [hs, hposition, List.drop_left]

theorem IsIn.position_le (h : c.IsIn s) : c.position ≤ s.length := by
  obtain ⟨before, hs, hposition, -⟩ := h
  rw [hs, hposition, List.length_append]
  exact Nat.le_add_right _ _

theorem IsIn.previous (h : c.IsIn s) : c.previous = (s.take c.position).getLast? := by
  obtain ⟨before, hs, hposition, hprevious⟩ := h
  rw [hs, hposition, List.take_left, hprevious]

theorem IsIn.previous_of_pos (h : c.IsIn s) (hpos : 0 < c.position) :
    c.previous = s[c.position - 1]? := by
  rw [h.previous, List.getLast?_eq_getElem?, List.length_take, Nat.min_eq_left h.position_le,
    List.getElem?_take_of_lt (by omega)]

theorem IsIn.newline_of_atLineStart (h : c.IsIn s) (hline : c.atLineStart = true) :
    c.position = 0 ∨ s[c.position - 1]? = some '\n' := by
  by_cases hzero : c.position = 0
  · exact Or.inl hzero
  · have hprevious := h.previous_of_pos (Nat.pos_of_ne_zero hzero)
    have hlt : c.position - 1 < s.length := by
      have := h.position_le
      omega
    rw [List.getElem?_eq_getElem hlt] at hprevious
    rw [atLineStart, hprevious] at hline
    rw [List.getElem?_eq_getElem hlt, beq_iff_eq.1 hline]
    exact Or.inr rfl

theorem IsIn.next {position : Nat} {previous : Option Char} {a : Char} {rest : List Char}
    (h : (⟨position, previous, a :: rest⟩ : Cursor).IsIn s) : (⟨position + 1, some a, rest⟩ : Cursor).IsIn s := by
  obtain ⟨before, hs, hposition, -⟩ := h
  refine ⟨before ++ [a], ?_, ?_, ?_⟩
  · rw [hs, List.append_assoc, List.singleton_append]
  · rw [List.length_append, List.length_singleton, ← hposition]
  · rw [List.getLast?_concat]

theorem IsIn.step (h : c.IsIn s) (hstep : c.step? test = some c') : c'.IsIn s := by
  obtain ⟨position, previous, rest⟩ := c
  cases rest with
  | nil => cases hstep
  | cons a rest =>
    obtain ⟨-, rfl⟩ : test a = true ∧ (⟨position + 1, some a, rest⟩ : Cursor) = c' := by
      simpa [step?] using hstep
    exact h.next

theorem IsIn.run {position : Nat} {previous : Option Char} {rest : List Char}
    (h : (⟨position, previous, rest⟩ : Cursor).IsIn s) (hrun : c' ∈ run test position rest) : c'.IsIn s := by
  induction rest generalizing position previous with
  | nil => cases hrun
  | cons a rest ih =>
    rw [Cursor.run] at hrun
    split at hrun
    · rcases List.mem_cons.1 hrun with rfl | hrun
      · exact h.next
      · exact ih h.next hrun
    · cases hrun

end Cursor

namespace Regex

section Ways

variable {r : Regex} {c c' : Cursor} {caps caps' : Captures} {s : List Char}

theorem Reads.isIn (h : Reads r c caps c' caps') (hc : c.IsIn s) : c'.IsIn s := by
  induction h with
  | empty | none | stop | lineStart | wordEdge => exact hc
  | one hstep => exact hc.step hstep
  | seq _ _ iha ihb | again _ _ _ iha ihb => exact ihb (iha hc)
  | left _ ih | right _ ih | group _ ih => exact ih hc
  | many hc' | few hc' => exact hc.run hc'

theorem reads_all_cons {rs : List Regex} :
    Reads (all (r :: rs)) c caps c' caps' ↔
      ∃ between caps'', Reads r c caps between caps'' ∧ Reads (all rs) between caps'' c' caps' := by
  constructor
  · intro h
    cases h with
    | seq ha hb => exact ⟨_, _, ha, hb⟩
  · rintro ⟨between, caps'', ha, hb⟩
    exact .seq ha hb

/-- A way through several expressions ends with a way through the last of them. -/
theorem Reads.exists_last {rs : List Regex} (h : Reads (all rs) c caps c' caps') (hlast : rs.getLast? = some r)
    (hc : c.IsIn s) : ∃ between caps'', between.IsIn s ∧ Reads r between caps'' c' caps' := by
  induction rs generalizing c caps with
  | nil => cases hlast
  | cons a rs ih =>
    obtain ⟨between, caps'', ha, hrs⟩ := reads_all_cons.1 h
    cases rs with
    | nil =>
      cases hlast
      cases hrs
      exact ⟨c, caps, hc, ha⟩
    | cons b rs =>
      rw [List.getLast?_cons_cons] at hlast
      exact ih hrs hlast (ha.isIn hc)

theorem reads_alt {a b : Regex} :
    Reads (alt a b) c caps c' caps' ↔ Reads a c caps c' caps' ∨ Reads b c caps c' caps' := by
  constructor
  · intro h
    cases h with
    | left h => exact Or.inl h
    | right h => exact Or.inr h
  · rintro (h | h)
    · exact .left h
    · exact .right h

theorem Reads.of_one {test : Char → Bool} (h : Reads (Regex.one test) c caps c' caps') :
    ∃ a, test a = true ∧ c.Ahead c' [a] ∧ caps' = caps := by
  cases h with
  | one hstep =>
    obtain ⟨a, ha, hahead⟩ := Cursor.ahead_of_step? hstep
    exact ⟨a, ha, hahead, rfl⟩

theorem Reads.of_many {test : Char → Bool} (h : Reads (Regex.many test) c caps c' caps') :
    ∃ taken, c.Ahead c' taken ∧ (∀ a ∈ taken, test a = true) ∧ caps' = caps := by
  cases h with
  | none => exact ⟨[], .refl _, by simp, rfl⟩
  | many hc' =>
    obtain ⟨taken, -, htest, hrest, hposition⟩ := Cursor.ahead_of_mem_run hc'
    exact ⟨taken, ⟨hrest, hposition⟩, htest, rfl⟩

/-- A way through single characters takes just these. -/
theorem Reads.of_ones {word : List Char}
    (h : Reads (all (word.map fun a => Regex.one (· == a))) c caps c' caps') :
    c.rest = word ++ c'.rest ∧ caps' = caps := by
  induction word generalizing c caps with
  | nil =>
    cases h
    exact ⟨rfl, rfl⟩
  | cons a word ih =>
    obtain ⟨between, caps'', ha, hword⟩ := reads_all_cons.1 h
    obtain ⟨b, hb, hahead, rfl⟩ := ha.of_one
    obtain ⟨hrest, hcaps⟩ := ih hword
    refine ⟨?_, hcaps⟩
    rw [hahead.rest, hrest, beq_iff_eq.1 hb]
    rfl

theorem Reads.of_literal {word : String} (h : Reads (literal word) c caps c' caps') :
    c.rest = word.toList ++ c'.rest ∧ caps' = caps := h.of_ones

end Ways

section Matches

variable {r : Regex} {s : List Char} {m : Match} {groups : List Nat}

/-- Whether a match lies in a text from a place on. -/
structure Found (r : Regex) (s : List Char) (c : Cursor) (m : Match) : Prop where
  reads : ∃ c', c'.IsIn s ∧ Reads r c' [] m.after m.captures ∧ m.start = c'.position
  not_before : c.position ≤ m.start

theorem Found.start_le_stop {c : Cursor} (h : Found r s c m) : m.start ≤ m.stop := by
  obtain ⟨c', -, hread, hstart⟩ := h.reads
  rw [hstart]
  exact hread.position_le

theorem found_of_matchAt? {c : Cursor} (hc : c.IsIn s) (h : r.matchAt? c = some m) :
    Found r s c m ∧ m.after.IsIn s := by
  obtain ⟨after, caps, hread, hm⟩ := Reads.of_matchThen h
  cases hm
  exact ⟨⟨⟨c, hc, hread, rfl⟩, Nat.le_refl _⟩, hread.isIn hc⟩

/-- The matches from a place on lie behind it, and each behind the one before. -/
theorem found_of_findFrom {c : Cursor} (hc : c.IsIn s) :
    (∀ m ∈ r.findFrom c, Found r s c m) ∧ (r.findFrom c).Pairwise fun m m' => m.stop ≤ m'.start := by
  induction c using findFrom.induct r with
  | case1 position previous a rest hnone ih =>
    obtain ⟨hfound, hordered⟩ := ih hc.next
    rw [findFrom.eq_def]
    simp only [hnone]
    exact ⟨fun m hm => ⟨(hfound m hm).reads, Nat.le_of_succ_le (hfound m hm).not_before⟩, hordered⟩
  | case2 position previous hnone =>
    rw [findFrom.eq_def]
    simp only [hnone]
    exact ⟨nofun, .nil⟩
  | case3 position previous a rest m' hlt hm' ih =>
    obtain ⟨hfirst, hafter⟩ := found_of_matchAt? hc hm'
    obtain ⟨hfound, hordered⟩ := ih hafter
    rw [findFrom.eq_def]
    simp only [hm', if_pos hlt]
    refine ⟨fun m hm => ?_, List.pairwise_cons.2 ⟨fun m hm => (hfound m hm).not_before, hordered⟩⟩
    rcases List.mem_cons.1 hm with rfl | hm
    · exact hfirst
    · exact ⟨(hfound m hm).reads,
        Nat.le_trans (Nat.le_trans hfirst.not_before hfirst.start_le_stop) (hfound m hm).not_before⟩
  | case4 position previous a rest m' hlt hm' =>
    rw [findFrom.eq_def]
    simp only [hm', if_neg hlt]
    refine ⟨fun m hm => ?_, List.pairwise_singleton _ _⟩
    exact List.mem_singleton.1 hm ▸ (found_of_matchAt? hc hm').1
  | case5 position previous m' hm' =>
    rw [findFrom.eq_def]
    simp only [hm']
    refine ⟨fun m hm => ?_, List.pairwise_singleton _ _⟩
    exact List.mem_singleton.1 hm ▸ (found_of_matchAt? hc hm').1

theorem exists_place_of_mem_findAll (h : m ∈ r.findAll s) :
    ∃ c, c.IsIn s ∧ Reads r c [] m.after m.captures ∧ m.start = c.position :=
  ((found_of_findFrom (Cursor.isIn_start s)).1 m h).reads

theorem pairwise_findAll (r : Regex) (s : List Char) :
    (r.findAll s).Pairwise fun m m' => m.stop ≤ m'.start :=
  (found_of_findFrom (Cursor.isIn_start s)).2

theorem start_lt_stop (h : m ∈ r.findAll s) (hr : r.takes = true) : m.start < m.stop := by
  obtain ⟨c, -, hread, hstart⟩ := exists_place_of_mem_findAll h
  rw [hstart]
  exact hread.position_lt hr

theorem pairwise_start_findAll (hr : r.takes = true) :
    (r.findAll s).Pairwise fun m m' => m.start < m'.start :=
  (pairwise_findAll r s).imp_of_mem fun hm _ hle => Nat.lt_of_lt_of_le (start_lt_stop hm hr) hle

theorem pairwise_stop_findAll (hr : r.takes = true) :
    (r.findAll s).Pairwise fun m m' => m.stop < m'.stop :=
  (pairwise_findAll r s).imp_of_mem fun _ hm' hle => Nat.lt_of_le_of_lt hle (start_lt_stop hm' hr)

theorem group?_ne_nil (h : m ∈ r.findAll s) (hr : r.fills groups = true) {i : Nat} (hi : i ∈ groups)
    {part : List Char} (hpart : m.group? i = some part) : part ≠ [] := by
  obtain ⟨c, -, hread, -⟩ := exists_place_of_mem_findAll h
  obtain ⟨capture, hcapture, rfl⟩ := Option.map_eq_some_iff.1 hpart
  obtain ⟨before, later, hcaptures, -⟩ := List.lookup_eq_some_iff.1 hcapture
  refine hread.filled hr (fun _ hp => absurd hp List.not_mem_nil) (i, capture) ?_ hi
  rw [hcaptures]
  exact List.mem_append_right _ List.mem_cons_self

theorem exists_group? (h : m ∈ r.findAll s) (hr : r.captures groups = true) :
    ∃ i ∈ groups, ∃ part, m.group? i = some part := by
  obtain ⟨c, -, hread, -⟩ := exists_place_of_mem_findAll h
  obtain ⟨i, hi, capture, hcapture⟩ := hread.exists_lookup groups hr
  exact ⟨i, hi, capture.chars, by rw [Match.group?, hcapture, Option.map_some]⟩

theorem exists_second_group? {i j : Nat} (h : m ∈ r.findAll s) (hr : r.captures [i, j] = true)
    (hfirst : m.group? i = none) : ∃ part, m.group? j = some part := by
  obtain ⟨l, hl, part, hpart⟩ := exists_group? h hr
  rcases List.mem_cons.1 hl with rfl | hl
  · cases hfirst.symm.trans hpart
  · rw [List.mem_singleton.1 hl] at hpart
    exact ⟨part, hpart⟩

end Matches

end Regex

end CodeAtlas.Text
