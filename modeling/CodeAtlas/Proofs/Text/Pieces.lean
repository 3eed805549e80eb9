import CodeAtlas.Text.Blank
import CodeAtlas.Text.Character
import CodeAtlas.Text.Split
import Mathlib.Data.List.TakeWhile

/-! Trimming a text and cutting it into parts: what is left of a text that was put together from parts. -/

namespace CodeAtlas.Text

def blankCodes : List Nat :=
  [0x9, 0xa, 0xb, 0xc, 0xd, 0x1c, 0x1d, 0x1e, 0x1f, 0x20, 0x85, 0xa0, 0x1680, 0x2000, 0x2001, 0x2002, 0x2003, 0x2004,
    0x2005, 0x2006, 0x2007, 0x2008, 0x2009, 0x200a, 0x2028, 0x2029, 0x202f, 0x205f, 0x3000]

theorem isBlank_of_isWord {c : Char} (h : isWord c = true) : isBlank c = false := by
  by_contra hblank
  have hcode : c.toNat ∈ blankCodes := by
    simp [isBlank] at hblank
    simp [blankCodes]
    omega
  have hnone : ∀ n ∈ blankCodes, isWord (Char.ofNat n) = false := by decide +kernel
  have hword := hnone _ hcode
  rw [Char.ofNat_toNat, h] at hword
  cases hword

section Trim

variable {s bare margin gap more : List Char} {c : Char}

theorem trim_eq (s : List Char) : trim s = trimRight (trimLeft s) := rfl

theorem isEmpty_trim_iff : (trim s).isEmpty = true ↔ ∀ c ∈ s, isBlank c = true := by
  rw [trim_eq, trimRight, List.isEmpty_iff, List.reverse_eq_nil_iff, List.dropWhile_eq_nil_iff]
  constructor
  · intro htrim
    -- what is left after the front is trimmed begins with no blank
    have hnil : trimLeft s = [] := by
      by_contra hne
      have hhead : isBlank ((trimLeft s).head hne) = false := List.head_dropWhile_not isBlank hne
      rw [htrim _ (List.mem_reverse.2 (List.head_mem hne))] at hhead
      cases hhead
    exact List.dropWhile_eq_nil_iff.1 hnil
  · intro hblank c hc
    exact hblank c ((List.dropWhile_sublist isBlank).subset (List.mem_reverse.1 hc))

theorem trimLeft_append (hmargin : ∀ c ∈ margin, isBlank c = true) : trimLeft (margin ++ s) = trimLeft s :=
  List.dropWhile_append_of_pos hmargin

theorem trimLeft_of_bare (hbare : ∀ c ∈ bare, isBlank c = false) (hne : bare ≠ []) :
    trimLeft (bare ++ s) = bare ++ s := by
  obtain ⟨c, rest, rfl⟩ := List.exists_cons_of_ne_nil hne
  exact List.dropWhile_cons_of_neg (by simp [hbare c List.mem_cons_self])

theorem trimRight_append (hgap : ∀ c ∈ gap, isBlank c = true) : trimRight (s ++ gap) = trimRight s := by
  rw [trimRight, List.reverse_append, List.dropWhile_append_of_pos fun c hc => hgap c (List.mem_reverse.1 hc)]
  rfl

theorem trimRight_append_cons (hc : isBlank c = false) : trimRight (s ++ c :: more) = s ++ c :: trimRight more := by
  rw [trimRight, trimRight, List.reverse_append, List.reverse_cons, List.append_assoc, List.dropWhile_append]
  split
  · rename_i hmore
    rw [List.isEmpty_iff] at hmore
    rw [hmore, List.singleton_append, List.dropWhile_cons_of_neg (by simp [hc])]
    simp
  · simp

theorem trimRight_of_bare (hbare : ∀ c ∈ bare, isBlank c = false) : trimRight bare = bare := by
  induction bare with
  | nil => rfl
  | cons c rest ih =>
    have hrest := ih fun b hb => hbare b (List.mem_cons_of_mem c hb)
    have hcons : trimRight ([] ++ c :: rest) = [] ++ c :: trimRight rest :=
      trimRight_append_cons (hbare c List.mem_cons_self)
    rwa [hrest] at hcons

theorem trim_of_bare (hmargin : ∀ c ∈ margin, isBlank c = true) (hbare : ∀ c ∈ bare, isBlank c = false)
    (hne : bare ≠ []) (hgap : ∀ c ∈ gap, isBlank c = true) : trim (margin ++ (bare ++ gap)) = bare := by
  rw [trim_eq, trimLeft_append hmargin, trimLeft_of_bare hbare hne, trimRight_append hgap, trimRight_of_bare hbare]

end Trim

section Split

variable {sep : Char} {s front part : List Char} {parts : List (List Char)}

theorem splitAtChar_cons_of_ne {c : Char} (hc : c ≠ sep) (h : splitAtChar sep s = part :: parts) :
    splitAtChar sep (c :: s) = (c :: part) :: parts := by
  rw [splitAtChar, if_neg hc, h]

theorem splitAtChar_append (hfront : sep ∉ front) (h : splitAtChar sep s = part :: parts) :
    splitAtChar sep (front ++ s) = (front ++ part) :: parts := by
  induction front with
  | nil => exact h
  | cons c rest ih =>
    have hrest := ih fun hmem => hfront (List.mem_cons_of_mem c hmem)
    exact splitAtChar_cons_of_ne (fun hc => hfront (hc ▸ List.mem_cons_self)) hrest

theorem splitAtChar_of_notMem (h : sep ∉ s) : splitAtChar sep s = [s] := by
  have happend := splitAtChar_append (s := []) h rfl
  rwa [List.append_nil] at happend

theorem splitAtChar_append_cons (s t : List Char) :
    splitAtChar sep (s ++ sep :: t) = splitAtChar sep s ++ splitAtChar sep t := by
  induction s with
  | nil => simp [splitAtChar]
  | cons c rest ih =>
    rw [List.cons_append, splitAtChar, splitAtChar, ih]
    split
    · rfl
    · obtain ⟨part, parts, h⟩ := List.exists_cons_of_ne_nil (splitAtChar_ne_nil sep rest)
      rw [h]
      rfl

theorem splitAtChar_intercalate {texts : List (List Char)} (h : texts ≠ []) :
    splitAtChar sep (List.intercalate [sep] texts) = texts.flatMap (splitAtChar sep) := by
  induction texts with
  | nil => exact absurd rfl h
  | cons text rest ih =>
    cases rest with
    | nil => simp
    | cons next rest =>
      rw [List.intercalate_cons_cons, List.append_assoc, List.singleton_append, splitAtChar_append_cons,
        ih (List.cons_ne_nil _ _)]
      rfl

end Split

end CodeAtlas.Text
