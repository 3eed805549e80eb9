import Mathlib.Data.List.Basic
import Mathlib.Order.Bounds.Basic
import Mathlib.Order.MinMax

/-! Sequences of edits, and the alignments that they amount to. Edits may come in any order and at any
place, and may undo each other; an alignment walks along both sequences once. Either costs as little
as the other at best, so that a least cost can be found item by item. -/

namespace CodeAtlas

variable {α : Type} {a b c : List α} {m n : Nat} {x y : α}

/-- One edit: an item put in, taken out or replaced, at any place. -/
inductive Edit : List α → List α → Prop
  | insert (before after : List α) (x : α) : Edit (before ++ after) (before ++ x :: after)
  | delete (before after : List α) (x : α) : Edit (before ++ x :: after) (before ++ after)
  | substitute (before after : List α) (x y : α) : Edit (before ++ x :: after) (before ++ y :: after)

/-- Some `n` edits, one after the other, turn the one sequence into the other. -/
inductive Edits : Nat → List α → List α → Prop
  | none (a : List α) : Edits 0 a a
  | first {n : Nat} {a b c : List α} : Edit a b → Edits n b c → Edits (n + 1) a c

theorem Edit.cons (x : α) (h : Edit a b) : Edit (x :: a) (x :: b) := by
  cases h with
  | insert before after y => exact .insert (x :: before) after y
  | delete before after y => exact .delete (x :: before) after y
  | substitute before after y z => exact .substitute (x :: before) after y z

theorem Edits.cons (x : α) (h : Edits n a b) : Edits n (x :: a) (x :: b) := by
  induction h with
  | none a => exact .none (x :: a)
  | first h _ ih => exact .first (h.cons x) ih

/-- Both sequences walked from their heads on, at a cost of `n`. -/
inductive Alignment : Nat → List α → List α → Prop
  | nil : Alignment 0 [] []
  | keep {n : Nat} {a b : List α} (x : α) : Alignment n a b → Alignment n (x :: a) (x :: b)
  | substitute {n : Nat} {a b : List α} (x y : α) :
      Alignment n a b → Alignment (n + 1) (x :: a) (y :: b)
  | delete {n : Nat} {a b : List α} (x : α) : Alignment n a b → Alignment (n + 1) (x :: a) b
  | insert {n : Nat} {a b : List α} (y : α) : Alignment n a b → Alignment (n + 1) a (y :: b)

namespace Alignment

theorem refl (a : List α) : Alignment 0 a a := by
  induction a with
  | nil => exact .nil
  | cons x a ih => exact .keep x ih

theorem symm (h : Alignment n a b) : Alignment n b a := by
  induction h with
  | nil => exact .nil
  | keep x _ ih => exact .keep x ih
  | substitute x y _ ih => exact .substitute y x ih
  | delete x _ ih => exact .insert x ih
  | insert y _ ih => exact .delete y ih

theorem append {d : List α} (h : Alignment m a b) (h' : Alignment n c d) :
    Alignment (m + n) (a ++ c) (b ++ d) := by
  induction h with
  | nil => simpa using h'
  | keep x _ ih => exact .keep x ih
  | substitute x y _ ih => simpa [Nat.add_right_comm] using Alignment.substitute x y ih
  | delete x _ ih => simpa [Nat.add_right_comm] using Alignment.delete x ih
  | insert y _ ih => simpa [Nat.add_right_comm] using Alignment.insert y ih

theorem reverse (h : Alignment n a b) : Alignment n a.reverse b.reverse := by
  induction h with
  | nil => exact .nil
  | keep x _ ih => simpa using ih.append (.keep x .nil)
  | substitute x y _ ih => simpa using ih.append (.substitute x y .nil)
  | delete x _ ih => simpa using ih.append (.delete x .nil)
  | insert y _ ih => simpa using ih.append (.insert y .nil)

theorem of_nil (h : Alignment n [] b) : n = b.length := by
  induction b generalizing n with
  | nil => cases h; rfl
  | cons y b ih => cases h with | insert _ h => simp [ih h]

theorem nil_left (b : List α) : Alignment b.length [] b := by
  induction b with
  | nil => exact .nil
  | cons y b ih => exact .insert y ih

/-- An alignment with two parts, cut where the first part ends. -/
theorem split {p s : List α} (h : Alignment n (p ++ s) c) :
    ∃ k l u v, Alignment k p u ∧ Alignment l s v ∧ c = u ++ v ∧ n = k + l := by
  induction p generalizing n c with
  | nil => exact ⟨0, n, [], c, .nil, h, rfl, (Nat.zero_add n).symm⟩
  | cons x p ih =>
    rw [List.cons_append] at h
    generalize hw : x :: (p ++ s) = w at h
    -- what is put in before `x` goes with the first part
    induction h with
    | nil => exact absurd hw (List.cons_ne_nil _ _)
    | keep _ h =>
      obtain ⟨rfl, rfl⟩ := List.cons.inj hw
      obtain ⟨k, l, u, v, hk, hl, rfl, rfl⟩ := ih h
      exact ⟨k, l, x :: u, v, .keep x hk, hl, rfl, rfl⟩
    | substitute _ y h =>
      obtain ⟨rfl, rfl⟩ := List.cons.inj hw
      obtain ⟨k, l, u, v, hk, hl, rfl, rfl⟩ := ih h
      exact ⟨k + 1, l, y :: u, v, .substitute x y hk, hl, rfl, Nat.add_right_comm k l 1⟩
    | delete _ h =>
      obtain ⟨rfl, rfl⟩ := List.cons.inj hw
      obtain ⟨k, l, u, v, hk, hl, rfl, rfl⟩ := ih h
      exact ⟨k + 1, l, u, v, .delete x hk, hl, rfl, Nat.add_right_comm k l 1⟩
    | insert y _ ihc =>
      obtain ⟨k, l, u, v, hk, hl, rfl, rfl⟩ := ihc hw
      exact ⟨k + 1, l, y :: u, v, .insert y hk, hl, rfl, Nat.add_right_comm k l 1⟩

theorem length_le (h : Alignment n a b) : b.length ≤ n + a.length := by
  induction h with
  | nil => exact le_rfl
  | keep | substitute | delete | insert => simp only [List.length_cons]; omega

theorem exists_of_length_le_one (ha : a.length ≤ 1) (b : List α) :
    ∃ m ≤ max 1 b.length, Alignment m a b := by
  match a, b with
  | [], b => exact ⟨b.length, le_max_right 1 _, .nil_left b⟩
  | [x], [] => exact ⟨1, le_max_left 1 _, .delete x .nil⟩
  | [x], y :: b => exact ⟨b.length + 1, le_max_right 1 _, .substitute x y (.nil_left b)⟩

/-- With at most one item at its front exchanged, a sequence aligns at no more than one further
edit. -/
theorem exchange {s t : List α} (hs : s.length ≤ 1) (ht : t.length ≤ 1)
    (h : Alignment n (s ++ a) c) : ∃ m ≤ n + 1, Alignment m (t ++ a) c := by
  obtain ⟨k, l, u, v, hk, hl, rfl, rfl⟩ := h.split
  obtain ⟨m, hm, hu⟩ := exists_of_length_le_one ht u
  have hlength := hk.length_le
  exact ⟨m + l, by omega, hu.append hl⟩

theorem drop (h : Alignment n (x :: a) b) : ∃ m ≤ n + 1, Alignment m a b :=
  exchange (s := [x]) (t := []) le_rfl (Nat.zero_le 1) h

/-- An edit before an alignment costs no more than one. -/
theorem of_edit (h : Edit a b) (h' : Alignment n b c) : ∃ m ≤ n + 1, Alignment m a c := by
  -- the alignment is cut at the edit's place, and changes from there on
  cases h with
  | insert before after x =>
    obtain ⟨k, l, u, v, hk, hl, rfl, rfl⟩ := h'.split
    obtain ⟨m, hm, h⟩ := hl.drop
    exact ⟨k + m, Nat.add_le_add_left hm k, hk.append h⟩
  | delete before after x =>
    obtain ⟨k, l, u, v, hk, hl, rfl, rfl⟩ := h'.split
    exact ⟨k + (l + 1), le_rfl, hk.append (.delete x hl)⟩
  | substitute before after x y =>
    obtain ⟨k, l, u, v, hk, hl, rfl, rfl⟩ := h'.split
    obtain ⟨m, hm, h⟩ := hl.exchange (s := [y]) (t := [x]) le_rfl le_rfl
    exact ⟨k + m, Nat.add_le_add_left hm k, hk.append h⟩

theorem of_edits (h : Edits n a b) : ∃ m ≤ n, Alignment m a b := by
  induction h with
  | none a => exact ⟨0, le_rfl, .refl a⟩
  | first h _ ih =>
    obtain ⟨m, hm, hal⟩ := ih
    obtain ⟨k, hk, hal⟩ := of_edit h hal
    exact ⟨k, hk.trans (Nat.succ_le_succ hm), hal⟩

theorem edits (h : Alignment n a b) : Edits n a b := by
  induction h with
  | nil => exact .none []
  | keep x _ ih => exact ih.cons x
  | @substitute n a b x y _ ih => exact .first (.substitute [] a x y) (ih.cons y)
  | @delete n a b x _ ih => exact .first (.delete [] a x) ih
  | @insert n a b y _ ih => exact .first (.insert [] a y) (ih.cons y)

end Alignment

def Distance (a b : List α) (n : Nat) : Prop := IsLeast {m | Alignment m a b} n

namespace Distance

theorem symm (h : Distance a b n) : Distance b a n :=
  ⟨h.1.symm, fun _ hm => h.2 (Alignment.symm hm)⟩

theorem reverse (h : Distance a b n) : Distance a.reverse b.reverse n :=
  ⟨h.1.reverse, fun _ hm => h.2 (by simpa using Alignment.reverse hm)⟩

theorem reverse_iff : Distance a.reverse b.reverse n ↔ Distance a b n :=
  ⟨fun h => by simpa using h.reverse, reverse⟩

theorem nil_left (b : List α) : Distance [] b b.length :=
  ⟨.nil_left b, fun _ hm => (Alignment.of_nil hm).ge⟩

/-- Equal items are kept: no alignment gains by parting them. -/
theorem cons_self (x : α) (h : Distance a b n) : Distance (x :: a) (x :: b) n := by
  refine ⟨.keep x h.1, fun m hm => ?_⟩
  cases (hm : Alignment m (x :: a) (x :: b)) with
  | keep _ hm => exact h.2 hm
  | substitute _ _ hm => exact (h.2 hm).trans (Nat.le_succ _)
  | delete _ hm =>
    obtain ⟨k, hk, hal⟩ := hm.symm.drop
    exact (h.2 hal.symm).trans hk
  | insert _ hm =>
    obtain ⟨k, hk, hal⟩ := hm.drop
    exact (h.2 hal).trans hk

/-- Of two different items the one is replaced, taken out or put before the other. -/
theorem cons_cons {d above left : Nat} (hxy : x ≠ y) (hd : Distance a b d)
    (habove : Distance a (y :: b) above) (hleft : Distance (x :: a) b left) :
    Distance (x :: a) (y :: b) (1 + min d (min above left)) := by
  constructor
  · rw [Nat.add_comm]
    rcases min_choice d (min above left) with hmin | hmin
    · rw [hmin]
      exact .substitute x y hd.1
    · rw [hmin]
      rcases min_choice above left with hmin | hmin
      · rw [hmin]
        exact .delete x habove.1
      · rw [hmin]
        exact .insert y hleft.1
  · intro m hm
    cases (hm : Alignment m (x :: a) (y :: b)) with
    | keep => exact absurd rfl hxy
    | substitute _ _ hm => have := hd.2 hm; omega
    | delete _ hm => have := habove.2 hm; omega
    | insert _ hm => have := hleft.2 hm; omega

theorem isLeast_edits (h : Distance a b n) : IsLeast {m | Edits m a b} n := by
  refine ⟨h.1.edits, fun m hm => ?_⟩
  obtain ⟨k, hk, hal⟩ := Alignment.of_edits hm
  exact (h.2 hal).trans hk

end Distance

end CodeAtlas
