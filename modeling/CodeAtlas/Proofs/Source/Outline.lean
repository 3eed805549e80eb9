import CodeAtlas.Proofs.Text.Pieces
import CodeAtlas.Proofs.Text.Places
import CodeAtlas.Source.Python
import Mathlib.Data.List.Pairwise

/-! Which class a Python definition belongs to. The rule is declarative: the last class before the definition
that is indented less and whose body no line closes on the way. Going through the definitions once, with
the indentation of the methods fixed at the first definition of each class, places every definition by
that rule. -/

namespace CodeAtlas.Source.Python

open Text Text.Regex

def linesBehind (content : List Char) (h : ClassHead) (index : Nat) : List (List Char) :=
  (splitLines ((content.drop h.stop).take (index - h.stop))).drop 1

/-- Whether a class may hold a definition: it is before it, it is indented less, and no line between them
that is not blank is indented as little as the class. -/
structure MayHold (content : List Char) (h : ClassHead) (f : FunctionHead) : Prop where
  before : h.stop ≤ f.start
  deeper : h.indent < f.indent
  unclosed : ∀ line ∈ linesBehind content h f.start, (∀ c ∈ line, isBlank c = true) ∨ h.indent < indentation line

section MayHold

variable {content : List Char} {h : ClassHead} {f : FunctionHead} {index : Nat}

theorem isOpenAt_iff : isOpenAt content h index = true ↔
    ∀ line ∈ linesBehind content h index, (∀ c ∈ line, isBlank c = true) ∨ h.indent < indentation line := by
  simp only [isOpenAt, Bool.not_eq_true', List.any_eq_false, linesBehind]
  refine forall₂_congr fun line _ => ?_
  simp only [closes, Bool.and_eq_true, Bool.not_eq_true', decide_eq_true_eq, ← isEmpty_trim_iff]
  cases (trim line).isEmpty <;> simp

theorem mayHold_iff : MayHold content h f ↔
    h.stop ≤ f.start ∧ h.indent < f.indent ∧ isOpenAt content h f.start = true := by
  rw [isOpenAt_iff]
  exact ⟨fun h => ⟨h.before, h.deeper, h.unclosed⟩, fun h => ⟨h.1, h.2.1, h.2.2⟩⟩

instance : Decidable (MayHold content h f) := decidable_of_iff _ mayHold_iff.symm

end MayHold

/-- The number of the class that a definition belongs to, where the classes have numbers from `i` on: the
last that may hold it. -/
def ownerFrom? (content : List Char) (f : FunctionHead) (i : Nat) (heads : List ClassHead) : Option Nat :=
  (((heads.zipIdx i).filter fun h => MayHold content h.1 f).getLast?).map Prod.snd

def owner? (content : List Char) (heads : List ClassHead) (f : FunctionHead) : Option Nat :=
  ownerFrom? content f 0 heads

/-- The definitions that belong to a class. -/
def ownedBy (content : List Char) (heads : List ClassHead) (i : Nat) (fs : List FunctionHead) : List FunctionHead :=
  fs.filter fun f => owner? content heads f = some i

/-- The methods among the definitions of a class: those that are indented like the first of them. -/
def methodsAmong (owned : List FunctionHead) : List FunctionHead :=
  owned.filter fun f => owned.head?.any fun first => f.indent = first.indent

/-- The definitions at the margin. -/
def marginal (fs : List FunctionHead) : List FunctionHead := fs.filter fun f => f.indent = 0

section Owner

variable {content : List Char} {heads : List ClassHead} {f : FunctionHead} {i j : Nat}

theorem ownerFrom?_cons {h : ClassHead} : ownerFrom? content f i (h :: heads) =
    (ownerFrom? content f (i + 1) heads).or (if MayHold content h f then some i else none) := by
  unfold ownerFrom?
  rw [List.zipIdx_cons, List.filter_cons]
  by_cases hold : MayHold content h f
  · rw [if_pos (by simpa using hold), if_pos hold, List.getLast?_cons]
    cases ((heads.zipIdx (i + 1)).filter fun h => MayHold content h.1 f).getLast? with
    | none => rfl
    | some last => rfl
  · rw [if_neg (by simpa using hold), if_neg hold, Option.or_none]

theorem ownerFrom?_eq_none (h : ∀ head ∈ heads, ¬ MayHold content head f) :
    ownerFrom? content f i heads = none := by
  rw [ownerFrom?, List.filter_eq_nil_iff.2]
  · rfl
  · intro x hx
    simpa using h x.1 (List.fst_mem_of_mem_zipIdx hx)

theorem owner?_of_marginal (hf : f.indent = 0) : owner? content heads f = none :=
  ownerFrom?_eq_none fun _ _ h => Nat.not_lt_zero _ (hf ▸ h.deeper)

/-- The search for the open body finds the owner: it may stop at the first class behind the definition,
since the classes stand in the order of the text. -/
theorem openBodyFrom_eq {bodies : List ClassBody} {found : Option Nat}
    (hsorted : (bodies.map (·.head)).Pairwise fun h h' => h.stop < h'.stop) :
    openBodyFrom content f i found bodies = (ownerFrom? content f i (bodies.map (·.head))).or found := by
  induction bodies generalizing i found with
  | nil => rfl
  | cons b rest ih =>
    rw [List.map_cons, List.pairwise_cons] at hsorted
    obtain ⟨hfirst, hrest⟩ := hsorted
    rw [openBodyFrom, List.map_cons, ownerFrom?_cons]
    by_cases hbehind : f.start < b.head.stop
    · have hnone : ownerFrom? content f (i + 1) (rest.map (·.head)) = none :=
        ownerFrom?_eq_none fun head hhead hold =>
          absurd (hfirst head hhead) (by have := hold.before; omega)
      have hnot : ¬ MayHold content b.head f := fun hold => absurd hold.before (by omega)
      rw [if_pos hbehind, hnone, if_neg hnot]
      rfl
    · rw [if_neg hbehind]
      by_cases hindent : f.indent ≤ b.head.indent
      · have hnot : ¬ MayHold content b.head f := fun hold => absurd hold.deeper (by omega)
        rw [if_pos hindent, ih hrest, if_neg hnot, Option.or_none]
      · rw [if_neg hindent]
        by_cases hopen : isOpenAt content b.head f.start = true
        · have hold : MayHold content b.head f := mayHold_iff.2 ⟨by omega, by omega, hopen⟩
          rw [if_pos hopen, ih hrest, if_pos hold, Option.or_assoc]
          rfl
        · have hnot : ¬ MayHold content b.head f := fun hold => hopen (mayHold_iff.1 hold).2.2
          rw [if_neg hopen, ih hrest, if_neg hnot, Option.or_none]

end Owner

section Outline

variable {content : List Char} {heads : List ClassHead} {done fs : List FunctionHead} {f : FunctionHead}

def bodyOf (h : ClassHead) (owned : List FunctionHead) : ClassBody :=
  ⟨h, owned.head?.map (·.indent), (methodsAmong owned).map (·.fact)⟩

def outlineOf (content : List Char) (heads : List ClassHead) (fs : List FunctionHead) : Outline :=
  ⟨(marginal fs).map (·.fact), heads.zipIdx.map fun h => bodyOf h.1 (ownedBy content heads h.2 fs)⟩

theorem add_bodyOf (h : ClassHead) (owned : List FunctionHead) (f : FunctionHead) :
    (bodyOf h owned).add f = bodyOf h (owned ++ [f]) := by
  cases owned with
  | nil => simp [bodyOf, ClassBody.add, methodsAmong]
  | cons first rest =>
    simp only [bodyOf, ClassBody.add, methodsAmong, List.head?_cons, Option.map_some, Option.getD_some,
      Option.any_some, List.cons_append, List.filter_cons, List.filter_append]
    by_cases hindent : f.indent = first.indent <;> simp [hindent]

theorem heads_outlineOf : (outlineOf content heads fs).bodies.map (·.head) = heads := by
  have hhead : (fun b : ClassBody => b.head) ∘ (fun h : ClassHead × Nat =>
      bodyOf h.1 (ownedBy content heads h.2 fs)) = Prod.fst := rfl
  rw [outlineOf, List.map_map, hhead, List.zipIdx_map_fst]

theorem ownedBy_concat {i : Nat} : ownedBy content heads i (done ++ [f]) =
    ownedBy content heads i done ++ if owner? content heads f = some i then [f] else [] := by
  rw [ownedBy, List.filter_append, List.filter_singleton]
  simp [ownedBy]

/-- One more definition is placed by the rule. -/
theorem add_outlineOf (hsorted : heads.Pairwise fun h h' => h.stop < h'.stop) :
    (outlineOf content heads done).add content f = outlineOf content heads (done ++ [f]) := by
  have hopen : openBodyFrom content f 0 none (outlineOf content heads done).bodies = owner? content heads f := by
    rw [openBodyFrom_eq (by rwa [heads_outlineOf]), heads_outlineOf, Option.or_none]
    rfl
  unfold Outline.add
  rw [hopen]
  cases howner : owner? content heads f with
  | none =>
    have howned : ∀ i, ownedBy content heads i (done ++ [f]) = ownedBy content heads i done := by
      intro i
      rw [ownedBy_concat, howner, if_neg nofun, List.append_nil]
    by_cases hindent : f.indent = 0
    · simp [outlineOf, howned, marginal, hindent]
    · simp [outlineOf, howned, marginal, hindent]
  | some i =>
    have hindent : f.indent ≠ 0 := by
      intro hzero
      rw [owner?_of_marginal hzero] at howner
      cases howner
    have hbodies : (outlineOf content heads done).bodies.modify i (·.add f) =
        (outlineOf content heads (done ++ [f])).bodies := by
      refine List.ext_getElem? fun j => ?_
      rw [List.getElem?_modify]
      simp only [outlineOf, List.getElem?_map, List.getElem?_zipIdx, ownedBy_concat, howner, Option.map_map]
      by_cases hij : i = j
      · cases heads[j]? <;> simp [hij, add_bodyOf]
      · cases heads[j]? <;> simp [hij]
    simp only [hbodies]
    simp [outlineOf, marginal, hindent]

theorem foldl_outlineOf (hsorted : heads.Pairwise fun h h' => h.stop < h'.stop) :
    fs.foldl (Outline.add content) (outlineOf content heads done) = outlineOf content heads (done ++ fs) := by
  induction fs generalizing done with
  | nil => rw [List.append_nil]; rfl
  | cons f rest ih => rw [List.foldl_cons, add_outlineOf hsorted, ih, List.append_assoc, List.singleton_append]

end Outline

section Content

theorem pairwise_functionHeads (content : List Char) :
    (functionHeads content).Pairwise fun f f' => f.start < f'.start :=
  List.pairwise_map.2 (pairwise_start_findAll rfl)

theorem pairwise_classHeads (content : List Char) :
    (classHeads content).Pairwise fun h h' => h.stop < h'.stop :=
  List.pairwise_map.2 (pairwise_stop_findAll rfl)

theorem ofContent_eq (content : List Char) :
    Outline.ofContent content = outlineOf content (classHeads content) (functionHeads content) := by
  have hstart : Outline.ofHeads (classHeads content) = outlineOf content (classHeads content) [] := by
    have hbody : (fun h : ClassHead × Nat => bodyOf h.1 []) = ClassBody.ofHead ∘ Prod.fst := rfl
    simp only [Outline.ofHeads, outlineOf, marginal, ownedBy, List.filter_nil, List.map_nil, hbody]
    rw [← List.map_map, List.zipIdx_map_fst]
  rw [Outline.ofContent, hstart, foldl_outlineOf (pairwise_classHeads content), List.nil_append]

end Content

end CodeAtlas.Source.Python
