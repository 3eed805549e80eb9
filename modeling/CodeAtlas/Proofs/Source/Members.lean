import CodeAtlas.Proofs.Source.Names
import Mathlib.Data.List.Nodup

/-! The members of the classes of a Python source. The functions of its record are the definitions at the
margin, the methods of a class are its definitions that are indented like the first one, and no
definition is in the record twice. -/

namespace CodeAtlas.Source

open Text Text.Regex

namespace Python

section Placed

variable {content : List Char} {heads : List ClassHead} {fs : List FunctionHead}

/-- The definitions that are taken over: those at the margin and the methods. -/
def placed (content : List Char) (heads : List ClassHead) (fs : List FunctionHead) : List FunctionHead :=
  marginal fs ++ (List.range heads.length).flatMap fun i => methodsAmong (ownedBy content heads i fs)

theorem methodsAmong_sublist (i : Nat) : (methodsAmong (ownedBy content heads i fs)).Sublist fs :=
  List.filter_sublist.trans List.filter_sublist

theorem owner?_of_mem_methodsAmong {i : Nat} {f : FunctionHead} (h : f ∈ methodsAmong (ownedBy content heads i fs)) :
    owner? content heads f = some i := by
  simpa using (List.mem_filter.1 (List.mem_filter.1 h).1).2

theorem nodup_placed (h : fs.Nodup) : (placed content heads fs).Nodup := by
  refine List.Nodup.append (h.filter _) (List.nodup_flatMap.2 ⟨fun i _ => ?_, ?_⟩) ?_
  · exact h.sublist (methodsAmong_sublist i)
  · refine List.nodup_range.imp fun {i j} hij f hi hj => hij ?_
    exact Option.some.inj ((owner?_of_mem_methodsAmong hi).symm.trans (owner?_of_mem_methodsAmong hj))
  · intro f hmargin hmethod
    obtain ⟨i, -, hi⟩ := List.mem_flatMap.1 hmethod
    have hnone : owner? content heads f = none := owner?_of_marginal (by simpa using (List.mem_filter.1 hmargin).2)
    cases hnone.symm.trans (owner?_of_mem_methodsAmong hi)

theorem placed_subset : placed content heads fs ⊆ fs := by
  intro f hf
  rcases List.mem_append.1 hf with hmargin | hmethod
  · exact (List.mem_filter.1 hmargin).1
  · obtain ⟨i, -, hi⟩ := List.mem_flatMap.1 hmethod
    exact (methodsAmong_sublist i).subset hi

end Placed

section Indentation

variable {content : List Char} {m : Match}

/-- The first group of a head, where no blank can stand behind it, captures the whole indentation. -/
theorem length_group?_indent {rs : List Regex} (hmentions : (all rs).mentions 1 = false)
    (hhead : ∀ {c caps c' caps'}, Reads (all rs) c caps c' caps' →
      ∃ a rest, c.rest = a :: rest ∧ isBlank a = false)
    (hm : m ∈ (all (.lineStart :: indent :: rs)).findAll content) :
    ((m.group? 1).getD []).length = indentation (content.drop m.start) := by
  obtain ⟨c, hc, hread, hstart⟩ := exists_place_of_mem_findAll hm
  obtain ⟨between, caps, hline, hread⟩ := reads_all_cons.1 hread
  cases hline
  obtain ⟨behind, caps, hindent, hread⟩ := reads_all_cons.1 hread
  obtain ⟨a, rest, hrest, ha⟩ := hhead hread
  unfold indent at hindent
  cases hindent with
  | group hmany =>
    obtain ⟨taken, hahead, htest, rfl⟩ := hmany.of_many
    have hblank : ∀ a ∈ taken, isBlank a = true := by
      intro b hb
      have hspace := htest b hb
      simp only [Bool.or_eq_true, beq_iff_eq] at hspace
      rcases hspace with rfl | rfl <;> rfl
    have hgroup : m.group? 1 = some taken := by
      rw [Match.group?, hread.lookup_eq hmentions, List.lookup_cons_self, Option.map_some, Capture.chars_eq hahead]
    rw [hgroup, Option.getD_some, indentation, hstart, ← hc.rest, hahead.rest, hrest,
      List.takeWhile_append_of_pos hblank, List.takeWhile_cons_of_neg (by simp [ha]), List.append_nil]

theorem indent_functionHead (hm : m ∈ functionRegex.findAll content) :
    (functionHead m).indent = indentation (content.drop m.start) := by
  refine length_group?_indent rfl (fun {c caps c' caps'} hread => ?_) hm
  obtain ⟨between, caps'', hasync, hread⟩ := reads_all_cons.1 hread
  rcases reads_alt.1 hasync with hasync | hempty
  · obtain ⟨_, _, hword, -⟩ := reads_all_cons.1 hasync
    exact ⟨'a', _, hword.of_literal.1, rfl⟩
  · cases hempty
    obtain ⟨_, _, hword, -⟩ := reads_all_cons.1 hread
    exact ⟨'d', _, hword.of_literal.1, rfl⟩

theorem indent_classHead (hm : m ∈ classRegex.findAll content) :
    (classHead m).indent = indentation (content.drop m.start) := by
  refine length_group?_indent rfl (fun {c caps c' caps'} hread => ?_) hm
  obtain ⟨_, _, hword, -⟩ := reads_all_cons.1 hread
  exact ⟨'c', _, hword.of_literal.1, rfl⟩

end Indentation

end Python

/-- The methods of Python classes are assigned as declared. Let the analysis of a Python text succeed. The
functions of its record are the definitions at the margin, and the methods of each class are those of its
definitions that are indented like the first of them, all in the order of the text; a definition belongs
to the last class that may hold it. The record takes over no definition twice. The indentation of a
class head or a definition is the number of blanks in front of it. -/
theorem members_of_analyse {path size : Value} {s : String} {a : Analysis}
    (h : analyse ⟨path, .text "python", .text s, size⟩ = .ok a) :
    let content := s.toList
    let heads := Python.classHeads content
    let definitions := Python.functionHeads content
    a.facts.functions = (Python.marginal definitions).map (·.fact) ∧
    a.facts.classes = heads.zipIdx.map (fun h =>
      ⟨h.1.name, (Python.methodsAmong (Python.ownedBy content heads h.2 definitions)).map (·.fact), h.1.bases⟩) ∧
    a.facts.functions ++ a.facts.classes.flatMap (·.methods) =
      (Python.placed content heads definitions).map (·.fact) ∧
    ((Python.placed content heads definitions).map (·.start)).Nodup ∧
    (definitions.Pairwise fun f f' => f.start < f'.start) ∧ (heads.Pairwise fun h h' => h.stop < h'.stop) ∧
    (∀ m ∈ Python.functionRegex.findAll content,
      (Python.functionHead m).indent = indentation (content.drop m.start)) ∧
    ∀ m ∈ Python.classRegex.findAll content,
      (Python.classHead m).indent = indentation (content.drop m.start) := by
  intro content heads definitions
  obtain ⟨hfunctions, hclasses⟩ := Python.facts_eq (factsOf_of_analyse (by decide) h)
  have hordered := Python.pairwise_functionHeads content
  have hdistinct : (definitions.map (·.start)).Nodup := List.pairwise_map.2 (hordered.imp Nat.ne_of_lt)
  refine ⟨hfunctions, ?_, ?_, ?_, hordered, Python.pairwise_classHeads content,
    fun m hm => Python.indent_functionHead hm, fun m hm => Python.indent_classHead hm⟩
  · rw [hclasses, Python.outlineOf, List.map_map]
    rfl
  · rw [hfunctions, hclasses, Python.placed, List.map_append, List.map_flatMap, List.flatMap_map,
      List.range_eq_range', ← List.zipIdx_map_snd, List.flatMap_map, Python.outlineOf, List.flatMap_map]
    rfl
  · refine (Python.nodup_placed hdistinct.of_map).map_on fun f hf f' hf' hstart => ?_
    exact List.inj_on_of_nodup_map hdistinct (Python.placed_subset hf) (Python.placed_subset hf') hstart

/-- A class with a class in its body, a definition inside of a method, and one at the margin. -/
def nestedSource : String :=
  "class A(B):\n  def f(self):\n    def g(): pass\n  class C:\n    def h(self, x=1): pass\n" ++
    "  def k(self): pass\ndef main(): pass\n"

theorem members_of_nestedSource :
    ∃ a, analyse ⟨.text "a.py", .text "python", .text nestedSource, .int 0⟩ = .ok a ∧
      a.facts.functions = [⟨"main", some []⟩] ∧
      a.facts.classes =
        [⟨"A", [⟨"f", some []⟩, ⟨"k", some []⟩], ["B"]⟩, ⟨"C", [⟨"h", some ["x"]⟩], []⟩] := by
  have hok : (analyse ⟨.text "a.py", .text "python", .text nestedSource, .int 0⟩).isOk = true := by decide +kernel
  cases h : analyse ⟨.text "a.py", .text "python", .text nestedSource, .int 0⟩ with
  | error e =>
    rw [h] at hok
    cases hok
  | ok a =>
    obtain ⟨hfunctions, hclasses, -⟩ := members_of_analyse h
    refine ⟨a, rfl, ?_, ?_⟩
    · rw [hfunctions]
      decide +kernel
    · rw [hclasses]
      decide +kernel

end CodeAtlas.Source
