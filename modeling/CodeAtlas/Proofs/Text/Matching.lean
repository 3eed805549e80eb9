import CodeAtlas.Text.Regex
import Mathlib.Data.List.Basic

/-! What the matcher finds. Every match comes from a way through its expression, which takes the next
characters of the text and captures parts of them; what all ways through take and capture can be read
off the expression. -/

namespace CodeAtlas.Text

/-- Whether one place follows another in a text, with just these characters between them. -/
structure Cursor.Ahead (c c' : Cursor) (taken : List Char) : Prop where
  rest : c.rest = taken ++ c'.rest
  position : c'.position = c.position + taken.length

namespace Cursor

variable {c c' c'' : Cursor} {taken taken' : List Char} {test : Char → Bool}

theorem Ahead.refl (c : Cursor) : c.Ahead c [] := ⟨rfl, rfl⟩

theorem Ahead.trans (h : c.Ahead c' taken) (h' : c'.Ahead c'' taken') :
    c.Ahead c'' (taken ++ taken') where
  rest := by rw [h.rest, h'.rest, List.append_assoc]
  position := by rw [h'.position, h.position, List.length_append, Nat.add_assoc]

theorem Ahead.position_lt_iff (h : c.Ahead c' taken) : c.position < c'.position ↔ taken ≠ [] := by
  rw [h.position, Nat.lt_add_right_iff_pos, List.length_pos_iff]

theorem ahead_of_step? (h : c.step? test = some c') :
    ∃ a, test a = true ∧ c.Ahead c' [a] := by
  unfold step? at h
  split at h
  · cases h
  · rename_i a rest hrest
    split at h
    · rename_i ha
      cases h
      exact ⟨a, ha, hrest, rfl⟩
    · cases h

theorem ahead_of_mem_run {position : Nat} {s : List Char} (h : c' ∈ run test position s) :
    ∃ taken, taken ≠ [] ∧ (∀ a ∈ taken, test a = true) ∧ s = taken ++ c'.rest ∧
      c'.position = position + taken.length := by
  induction s generalizing position with
  | nil => cases h
  | cons a rest ih =>
    rw [run] at h
    split at h
    · rename_i ha
      rcases List.mem_cons.1 h with rfl | h
      · exact ⟨[a], by simp, by simpa using ha, rfl, rfl⟩
      · obtain ⟨taken, -, htest, rfl, hposition⟩ := ih h
        refine ⟨a :: taken, by simp, ?_, rfl, ?_⟩
        · simpa using ⟨ha, htest⟩
        · rw [hposition, List.length_cons]
          omega
    · cases h

end Cursor

theorem Capture.chars_eq {c c' : Cursor} {taken : List Char} (h : c.Ahead c' taken) :
    (⟨c, c'.position - c.position⟩ : Capture).chars = taken := by
  rw [Capture.chars, h.rest, h.position, Nat.add_sub_cancel_left, List.take_left]

namespace Regex

/-- A way through an expression, from a place and what was captured before it to a place and what has
been captured then. -/
inductive Reads : Regex → Cursor → Captures → Cursor → Captures → Prop
  | empty {c caps} : Reads .empty c caps c caps
  | one {test c c' caps} : c.step? test = some c' → Reads (.one test) c caps c' caps
  | seq {a b c caps c' caps' c'' caps''} :
      Reads a c caps c' caps' → Reads b c' caps' c'' caps'' → Reads (.seq a b) c caps c'' caps''
  | left {a b c caps c' caps'} : Reads a c caps c' caps' → Reads (.alt a b) c caps c' caps'
  | right {a b c caps c' caps'} : Reads b c caps c' caps' → Reads (.alt a b) c caps c' caps'
  | none {test c caps} : Reads (.many test) c caps c caps
  | many {test c caps c'} : c' ∈ Cursor.run test c.position c.rest → Reads (.many test) c caps c' caps
  | few {test c caps c'} : c' ∈ Cursor.run test c.position c.rest → Reads (.few test) c caps c' caps
  | stop {a c caps} : Reads (.star a) c caps c caps
  | again {a c caps c' caps' c'' caps''} : Reads a c caps c' caps' → c.position < c'.position →
      Reads (.star a) c' caps' c'' caps'' → Reads (.star a) c caps c'' caps''
  | group {i a c caps c' caps'} : Reads a c caps c' caps' →
      Reads (.group i a) c caps c' ((i, ⟨c, c'.position - c.position⟩) :: caps')
  | lineStart {c caps} : c.atLineStart = true → Reads .lineStart c caps c caps
  | wordEdge {c caps} : c.atWordEdge = true → Reads .wordEdge c caps c caps

section Sound

variable {ρ : Type} {r : Regex} {c : Cursor} {caps : Captures} {k : Continuation ρ} {x : ρ}

theorem Reads.of_repeatStep {a : Regex} {n : Nat}
    (ha : ∀ c caps (k : Continuation ρ) x, a.matchThen c caps k = some x →
      ∃ c' caps', Reads a c caps c' caps' ∧ k c' caps' = some x)
    (h : repeatStep (fun c caps k => a.matchThen c caps k) n c caps k = some x) :
    ∃ c' caps', Reads (.star a) c caps c' caps' ∧ k c' caps' = some x := by
  induction n generalizing c caps with
  | zero => exact ⟨c, caps, .stop, h⟩
  | succ n ih =>
    rw [repeatStep, Option.or_eq_some_iff] at h
    rcases h with h | ⟨-, h⟩
    · obtain ⟨c', caps', hread, h⟩ := ha _ _ _ _ h
      split at h
      · rename_i hlt
        obtain ⟨c'', caps'', hstar, h⟩ := ih h
        exact ⟨c'', caps'', .again hread hlt hstar, h⟩
      · cases h
    · exact ⟨c, caps, .stop, h⟩

/-- What the matcher finds lies at the end of a way through the expression. -/
theorem Reads.of_matchThen (h : r.matchThen c caps k = some x) :
    ∃ c' caps', Reads r c caps c' caps' ∧ k c' caps' = some x := by
  induction r generalizing c caps k x with
  | empty => exact ⟨c, caps, .empty, h⟩
  | one test =>
    obtain ⟨c', hstep, h⟩ := Option.bind_eq_some_iff.1 h
    exact ⟨c', caps, .one hstep, h⟩
  | seq a b iha ihb =>
    obtain ⟨c', caps', ha, h⟩ := iha h
    obtain ⟨c'', caps'', hb, h⟩ := ihb h
    exact ⟨c'', caps'', .seq ha hb, h⟩
  | alt a b iha ihb =>
    rcases Option.or_eq_some_iff.1 h with h | ⟨-, h⟩
    · obtain ⟨c', caps', ha, h⟩ := iha h
      exact ⟨c', caps', .left ha, h⟩
    · obtain ⟨c', caps', hb, h⟩ := ihb h
      exact ⟨c', caps', .right hb, h⟩
  | many test =>
    rcases Option.or_eq_some_iff.1 h with h | ⟨-, h⟩
    · obtain ⟨c', hc', h⟩ := List.exists_of_findSome?_eq_some h
      exact ⟨c', caps, .many (List.mem_reverse.1 hc'), h⟩
    · exact ⟨c, caps, .none, h⟩
  | few test =>
    obtain ⟨c', hc', h⟩ := List.exists_of_findSome?_eq_some h
    exact ⟨c', caps, .few hc', h⟩
  | star a ih => exact Reads.of_repeatStep (fun _ _ _ _ => ih) h
  | group i a ih =>
    obtain ⟨c', caps', ha, h⟩ := ih h
    exact ⟨c', _, .group ha, h⟩
  | lineStart =>
    rw [matchThen] at h
    split at h
    · rename_i hstart
      exact ⟨c, caps, .lineStart hstart, h⟩
    · cases h
  | wordEdge =>
    rw [matchThen] at h
    split at h
    · rename_i hedge
      exact ⟨c, caps, .wordEdge hedge, h⟩
    · cases h

end Sound

/-- Whether every way through takes a character. -/
def takes : Regex → Bool
  | one _ | few _ => true
  | seq a b => a.takes || b.takes
  | alt a b => a.takes && b.takes
  | group _ a => a.takes
  | _ => false

/-- Whether every way through captures one of these groups. -/
def captures (groups : List Nat) : Regex → Bool
  | seq a b => a.captures groups || b.captures groups
  | alt a b => a.captures groups && b.captures groups
  | group i a => groups.contains i || a.captures groups
  | _ => false

def fills (groups : List Nat) : Regex → Bool
  | seq a b | alt a b => a.fills groups && b.fills groups
  | star a => a.fills groups
  | group i a => (!groups.contains i || a.takes) && a.fills groups
  | _ => true

def mentions (i : Nat) : Regex → Bool
  | seq a b | alt a b => a.mentions i || b.mentions i
  | star a => a.mentions i
  | group j a => i == j || a.mentions i
  | _ => false

section Ways

variable {r : Regex} {c c' : Cursor} {caps caps' : Captures} {groups : List Nat}

/-- A way through goes ahead in the text. -/
theorem Reads.ahead (h : Reads r c caps c' caps') : ∃ taken, c.Ahead c' taken := by
  induction h with
  | empty | none | stop | lineStart | wordEdge => exact ⟨[], .refl _⟩
  | one hstep =>
    obtain ⟨a, -, ha⟩ := Cursor.ahead_of_step? hstep
    exact ⟨[a], ha⟩
  | seq _ _ iha ihb | again _ _ _ iha ihb =>
    obtain ⟨taken, ha⟩ := iha
    obtain ⟨taken', hb⟩ := ihb
    exact ⟨taken ++ taken', ha.trans hb⟩
  | left _ ih | right _ ih | group _ ih => exact ih
  | many hc' | few hc' =>
    obtain ⟨taken, -, -, hrest, hposition⟩ := Cursor.ahead_of_mem_run hc'
    exact ⟨taken, hrest, hposition⟩

theorem Reads.position_le (h : Reads r c caps c' caps') : c.position ≤ c'.position := by
  obtain ⟨taken, hahead⟩ := h.ahead
  rw [hahead.position]
  exact Nat.le_add_right _ _

theorem Reads.position_lt (h : Reads r c caps c' caps') (hr : r.takes = true) :
    c.position < c'.position := by
  induction h with
  | empty | none | stop | again | lineStart | wordEdge | many => cases hr
  | one hstep =>
    obtain ⟨a, -, ha⟩ := Cursor.ahead_of_step? hstep
    exact ha.position_lt_iff.2 (List.cons_ne_nil a [])
  | few hc' =>
    obtain ⟨taken, hne, -, hrest, hposition⟩ := Cursor.ahead_of_mem_run hc'
    exact (Cursor.Ahead.mk hrest hposition).position_lt_iff.2 hne
  | seq ha hb iha ihb =>
    rcases Bool.or_eq_true_iff.1 hr with hr | hr
    · exact Nat.lt_of_lt_of_le (iha hr) hb.position_le
    · exact Nat.lt_of_le_of_lt ha.position_le (ihb hr)
  | left _ ih => exact ih (Bool.and_eq_true_iff.1 hr).1
  | right _ ih => exact ih (Bool.and_eq_true_iff.1 hr).2
  | group _ ih => exact ih hr

theorem Reads.subset (h : Reads r c caps c' caps') : caps ⊆ caps' := by
  induction h with
  | empty | one | none | many | few | stop | lineStart | wordEdge => exact List.Subset.refl _
  | seq _ _ iha ihb | again _ _ _ iha ihb => exact List.Subset.trans iha ihb
  | left _ ih | right _ ih => exact ih
  | group _ ih => exact List.Subset.trans ih (List.subset_cons_self _ _)

theorem Reads.exists_captured (h : Reads r c caps c' caps') (hr : r.captures groups = true) :
    ∃ p ∈ caps', p.1 ∈ groups := by
  induction h with
  | empty | one | none | many | few | stop | again | lineStart | wordEdge => cases hr
  | seq ha hb iha ihb =>
    rcases Bool.or_eq_true_iff.1 hr with hr | hr
    · obtain ⟨p, hp, hgroup⟩ := iha hr
      exact ⟨p, hb.subset hp, hgroup⟩
    · exact ihb hr
  | left _ ih => exact ih (Bool.and_eq_true_iff.1 hr).1
  | right _ ih => exact ih (Bool.and_eq_true_iff.1 hr).2
  | group _ ih =>
    rcases Bool.or_eq_true_iff.1 hr with hr | hr
    · exact ⟨_, List.mem_cons_self, List.contains_iff_mem.1 hr⟩
    · obtain ⟨p, hp, hgroup⟩ := ih hr
      exact ⟨p, List.mem_cons_of_mem _ hp, hgroup⟩

theorem Reads.exists_lookup (h : Reads r c caps c' caps') (groups : List Nat) (hr : r.captures groups = true) :
    ∃ i ∈ groups, ∃ capture, caps'.lookup i = some capture := by
  obtain ⟨p, hp, hgroup⟩ := h.exists_captured hr
  cases hlookup : caps'.lookup p.1 with
  | none => simpa using List.lookup_eq_none_iff.1 hlookup p hp
  | some capture => exact ⟨p.1, hgroup, capture, hlookup⟩

/-- Groups that capture nothing empty fill their captures. -/
theorem Reads.filled (h : Reads r c caps c' caps') (hr : r.fills groups = true)
    (hcaps : ∀ p ∈ caps, p.1 ∈ groups → p.2.chars ≠ []) :
    ∀ p ∈ caps', p.1 ∈ groups → p.2.chars ≠ [] := by
  induction h with
  | empty | one | none | many | few | stop | lineStart | wordEdge => exact hcaps
  | seq _ _ iha ihb =>
    obtain ⟨hra, hrb⟩ := Bool.and_eq_true_iff.1 hr
    exact ihb hrb (iha hra hcaps)
  | again _ _ _ iha ihb => exact ihb hr (iha hr hcaps)
  | left _ ih => exact ih (Bool.and_eq_true_iff.1 hr).1 hcaps
  | right _ ih => exact ih (Bool.and_eq_true_iff.1 hr).2 hcaps
  | @group i a c caps c' caps' ha ih =>
    obtain ⟨htakes, hr⟩ := Bool.and_eq_true_iff.1 hr
    intro p hp hgroup
    rcases List.mem_cons.1 hp with rfl | hp
    · obtain ⟨taken, hahead⟩ := ha.ahead
      rw [Capture.chars_eq hahead, ← hahead.position_lt_iff]
      refine ha.position_lt ?_
      simpa [hgroup] using htakes
    · exact ih hr hcaps p hp hgroup

/-- What a group captured stays if nothing later captures it. -/
theorem Reads.lookup_eq {i : Nat} (h : Reads r c caps c' caps') (hr : r.mentions i = false) :
    caps'.lookup i = caps.lookup i := by
  induction h with
  | empty | one | none | many | few | stop | lineStart | wordEdge => rfl
  | seq _ _ iha ihb =>
    obtain ⟨hra, hrb⟩ := Bool.or_eq_false_iff.1 hr
    rw [ihb hrb, iha hra]
  | again _ _ _ iha ihb => rw [ihb hr, iha hr]
  | left _ ih => exact ih (Bool.or_eq_false_iff.1 hr).1
  | right _ ih => exact ih (Bool.or_eq_false_iff.1 hr).2
  | group _ ih =>
    obtain ⟨hi, hr⟩ := Bool.or_eq_false_iff.1 hr
    rw [List.lookup_cons, hi, ih hr]

end Ways

end Regex

end CodeAtlas.Text
