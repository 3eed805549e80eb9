import CodeAtlas.Proofs.Source.Blocks
import CodeAtlas.Proofs.Source.Names

/-! The functions of a JavaScript source that are declared outside of its classes. A match of a declaration
may take one character before the declaring word, and the spans of the classes are compared with the start of
the match. That makes a difference in one place only: a function that is declared right behind the brace
which closes a class is taken for a part of the class. -/

namespace CodeAtlas.Source

open Text Text.Regex

namespace JavaScript

section Spans

variable {content : List Char} {span : ClassSpan}

theorem exists_drop_span_start (h : span ∈ classSpans content) :
    ∃ rest, content.drop span.head.start = "class".toList ++ rest := by
  obtain ⟨m, hm, rfl⟩ := List.mem_map.1 h
  obtain ⟨c, hc, hread, hstart⟩ := exists_place_of_mem_findAll hm
  obtain ⟨_, _, hedge, hread⟩ := reads_all_cons.1 hread
  cases hedge
  obtain ⟨_, _, hword, -⟩ := reads_all_cons.1 hread
  exact ⟨_, by rw [hstart, ← hc.rest]; exact hword.of_literal.1⟩

/-- The head of a class ends with the brace that opens its block. -/
theorem head_brace {m : Match} (hm : m ∈ classRegex.findAll content) :
    m.start < m.stop ∧ content[m.stop - 1]? = some '\x7b' := by
  obtain ⟨c, hc, hread, -⟩ := exists_place_of_mem_findAll hm
  obtain ⟨between, caps, hbetween, hbrace⟩ := hread.exists_last rfl hc
  obtain ⟨taken, hahead⟩ := hbrace.ahead
  have htaken : taken = ['\x7b'] := List.append_cancel_right (hahead.rest.symm.trans hbrace.of_literal.1)
  have hstop : m.stop = between.position + 1 := by
    rw [htaken] at hahead
    exact hahead.position
  have hdrop : content.drop between.position = '\x7b' :: m.after.rest := by
    rw [← hbetween.rest, hahead.rest, htaken]
    rfl
  refine ⟨start_lt_stop hm rfl, ?_⟩
  rw [hstop, Nat.add_sub_cancel, ← Nat.add_zero between.position, ← List.getElem?_drop, hdrop,
    List.getElem?_cons_zero]

theorem span_stop_spec (h : span ∈ classSpans content) :
    span.head.start < span.stop ∧ (span.stop = content.length ∨ content[span.stop - 1]? = some '\x7d') := by
  obtain ⟨m, hm, rfl⟩ := List.mem_map.1 h
  obtain ⟨hstart, hbrace⟩ := head_brace hm
  have hend : m.stop - 1 < blockEnd content (m.stop - 1) := lt_blockEnd hbrace
  refine ⟨by change m.start < blockEnd content (m.stop - 1); omega, ?_⟩
  obtain ⟨-, ⟨-, hclosed⟩ | ⟨hlength, -⟩⟩ := blockEnd_cases hbrace
  · exact Or.inr hclosed
  · exact Or.inl hlength

end Spans

section Declarations

def declaringWords : List String := ["function", "const", "let", "var"]

/-- Whether a declaring word stands at an index. -/
def declaresAt (content : List Char) (i : Nat) : Bool :=
  declaringWords.any fun w => w.toList.isPrefixOf (content.drop i)

/-- The index where the declaring word of a match begins: the match starts with the word or takes one
character before it. -/
def wordIndex (content : List Char) (m : Match) : Nat :=
  if declaresAt content m.start then m.start else m.start + 1

variable {content : List Char} {m : Match} {span : ClassSpan} {i : Nat}

theorem declaresAt_of_reads {w : String} {c c' : Cursor} {caps caps' : Captures} (hw : w ∈ declaringWords)
    (hc : c.IsIn content) (hread : Reads (literal w) c caps c' caps') : declaresAt content c.position = true := by
  refine List.any_eq_true.2 ⟨w, hw, List.isPrefixOf_iff_prefix.2 ?_⟩
  rw [← hc.rest, hread.of_literal.1]
  exact List.prefix_append _ _

theorem exists_drop_of_declaresAt (h : declaresAt content i = true) :
    ∃ w ∈ declaringWords, w.toList <+: content.drop i := by
  obtain ⟨w, hw, hprefix⟩ := List.any_eq_true.1 h
  exact ⟨w, hw, List.isPrefixOf_iff_prefix.1 hprefix⟩

/-- No declaring word stands where something else than one of their first letters does. -/
theorem declaresAt_of_not_isWord {c : Char} {rest : List Char} (h : content.drop i = c :: rest)
    (hc : isWord c = false) : declaresAt content i = false := by
  by_contra hdeclares
  obtain ⟨w, hw, hprefix⟩ := exists_drop_of_declaresAt (Bool.of_not_eq_false hdeclares)
  have hletters : ∀ w ∈ declaringWords, ∃ a more, w.toList = a :: more ∧ isWord a = true := by
    simp [declaringWords, isWord, isAlphanumeric]
  obtain ⟨a, more, hletter, hword⟩ := hletters w hw
  rw [hletter, h] at hprefix
  rw [(List.cons_prefix_cons.1 hprefix).1, hc] at hword
  cases hword

/-- How a declaration is found: a variable begins with its word; a function does so at the front of a line, or
else has a character before its word that is taken too. -/
theorem declaration_cases (hm : m ∈ functionRegex.findAll content) :
    (m.group? 1 = none ∧ declaresAt content m.start = true) ∨
    ((m.group? 1).isSome ∧ declaresAt content m.start = true ∧
      (m.start = 0 ∨ content[m.start - 1]? = some '\n')) ∨
    ((m.group? 1).isSome ∧ declaresAt content m.start = false ∧ declaresAt content (m.start + 1) = true) := by
  obtain ⟨c, hc, hread, hstart⟩ := exists_place_of_mem_findAll hm
  rw [hstart]
  rcases reads_alt.1 hread with hfunction | hvariable
  · refine Or.inr ?_
    have hcaptured : (m.group? 1).isSome := by
      obtain ⟨i, hi, capture, hcapture⟩ := hfunction.exists_lookup [1] rfl
      rw [Match.group?, ← List.mem_singleton.1 hi, hcapture]
      rfl
    obtain ⟨behind, _, hfront, hrest⟩ := reads_all_cons.1 hfunction
    obtain ⟨_, _, hword, -⟩ := reads_all_cons.1 hrest
    have hdeclares := declaresAt_of_reads (by decide) (hfront.isIn hc) hword
    rcases reads_alt.1 hfront with hline | hone
    · cases hline with
      | lineStart hline => exact Or.inl ⟨hcaptured, hdeclares, hc.newline_of_atLineStart hline⟩
    · obtain ⟨a, ha, hahead, -⟩ := hone.of_one
      have hdrop : content.drop c.position = a :: behind.rest := by
        rw [← hc.rest, hahead.rest]
        rfl
      have hplain : isWord a = false := by
        simp only [Bool.and_eq_true, Bool.not_eq_true'] at ha
        exact ha.1
      have hposition : behind.position = c.position + 1 := hahead.position
      exact Or.inr ⟨hcaptured, declaresAt_of_not_isWord hdrop hplain, hposition ▸ hdeclares⟩
  · refine Or.inl ⟨?_, ?_⟩
    · rw [Match.group?, hvariable.lookup_eq rfl]
      rfl
    · obtain ⟨_, _, hwords, -⟩ := reads_all_cons.1 hvariable
      rcases reads_alt.1 hwords with hconst | hwords
      · exact declaresAt_of_reads (by decide) hc hconst
      · rcases reads_alt.1 hwords with hlet | hvar
        · exact declaresAt_of_reads (by decide) hc hlet
        · exact declaresAt_of_reads (by decide) hc hvar

theorem declaresAt_wordIndex (hm : m ∈ functionRegex.findAll content) :
    declaresAt content (wordIndex content m) = true := by
  unfold wordIndex
  rcases declaration_cases hm with ⟨-, h⟩ | ⟨-, h, -⟩ | ⟨-, hnot, h⟩
  · rwa [if_pos h]
  · rwa [if_pos h]
  · rwa [hnot, if_neg Bool.false_ne_true]

theorem lt_length_of_declaresAt (h : declaresAt content i = true) : i < content.length := by
  obtain ⟨w, hw, hprefix⟩ := exists_drop_of_declaresAt h
  have hwords : ∀ w ∈ declaringWords, 0 < w.toList.length := by decide
  have hlength := hprefix.length_le
  rw [List.length_drop] at hlength
  have := hwords w hw
  omega

theorem declaresAt_span_start (h : span ∈ classSpans content) : declaresAt content span.head.start = false := by
  obtain ⟨rest, hclass⟩ := exists_drop_span_start h
  simp [declaresAt, declaringWords, hclass, List.isPrefixOf]

/-- A match starts in the span of a class if its declaring word is in the span, or if it declares a function
right behind the span. -/
theorem covers_start_iff (hm : m ∈ functionRegex.findAll content) (hspan : span ∈ classSpans content) :
    span.covers m.start = true ↔ span.covers (wordIndex content m) = true ∨
      ((m.group? 1).isSome ∧ span.stop = wordIndex content m) := by
  obtain ⟨hbegin, hend⟩ := span_stop_spec hspan
  unfold wordIndex
  rcases declaration_cases hm with ⟨hvariable, hword⟩ | ⟨-, hword, hline⟩ | ⟨hfunction, hnot, hword⟩
  · simp [hword, hvariable]
  · -- in front of the word is a newline, not the brace of a class
    have hstop : span.stop ≠ m.start := by
      intro heq
      rcases hend with hend | hend
      · exact absurd (lt_length_of_declaresAt hword) (by omega)
      · rcases hline with hline | hline
        · omega
        · rw [heq, hline] at hend
          cases hend
    simp [hword, hstop]
  · have hstart : span.head.start ≠ m.start + 1 := by
      intro heq
      rw [← heq, declaresAt_span_start hspan] at hword
      cases hword
    simp only [hnot, Bool.false_eq_true, if_false, hfunction, true_and, ClassSpan.covers, Bool.and_eq_true,
      decide_eq_true_eq]
    omega

/-- Whether a match declares a function whose word stands right behind a class. -/
def followsClass (content : List Char) (m : Match) : Bool :=
  (m.group? 1).isSome && (classSpans content).any fun span => span.stop = wordIndex content m

/-- Whether the declaring word of a match stands outside of all classes. -/
def isOutside (content : List Char) (m : Match) : Bool :=
  (classSpans content).all fun span => !span.covers (wordIndex content m)

/-- A match starts outside of all classes exactly if its declaring word stands outside and it does not declare
a function right behind a class. -/
theorem any_covers_start (hm : m ∈ functionRegex.findAll content) :
    (classSpans content).any (·.covers m.start) = false ↔
      isOutside content m = true ∧ followsClass content m = false := by
  simp only [List.any_eq_false, isOutside, List.all_eq_true, followsClass, Bool.and_eq_false_iff, Bool.not_eq_true',
    decide_eq_true_eq]
  constructor
  · intro h
    refine ⟨fun span hspan => ?_, ?_⟩
    · have := (covers_start_iff hm hspan).not.1 (h span hspan)
      simpa using (not_or.1 this).1
    · cases hgroup : (m.group? 1).isSome with
      | false => exact Or.inl rfl
      | true =>
        refine Or.inr fun span hspan hstop => h span hspan ((covers_start_iff hm hspan).2 (Or.inr ⟨hgroup, hstop⟩))
  · rintro ⟨houtside, hfollows⟩ span hspan hcovers
    rcases (covers_start_iff hm hspan).1 hcovers with hcovers | ⟨hgroup, hstop⟩
    · rw [houtside span hspan] at hcovers
      cases hcovers
    · rcases hfollows with hnone | hnone
      · rw [hgroup] at hnone
        cases hnone
      · exact hnone span hspan hstop

end Declarations

theorem mem_functionNames_iff {content : List Char} {name : String} :
    name ∈ functionNames content (classSpans content) ↔
      ∃ m ∈ functionRegex.findAll content, eitherName m = name ∧ isKeyword name = false ∧
        isOutside content m = true ∧ followsClass content m = false := by
  rw [functionNames, mem_distinctTexts, List.mem_map]
  constructor
  · rintro ⟨m, hm, rfl⟩
    obtain ⟨hm, htest⟩ := List.mem_filter.1 hm
    simp only [Bool.and_eq_true, Bool.not_eq_true'] at htest
    exact ⟨m, hm, rfl, htest.1, (any_covers_start hm).1 htest.2⟩
  · rintro ⟨m, hm, rfl, hkeyword, hplace⟩
    refine ⟨m, List.mem_filter.2 ⟨hm, ?_⟩, rfl⟩
    rw [hkeyword, (any_covers_start hm).2 hplace]
    rfl

end JavaScript

/-- Which functions of a JavaScript or TypeScript text are kept. Its analysis succeeds, and a name is among the
functions exactly if it is no keyword and has a declaration whose word stands outside of all classes, but
not a function right behind the brace that closes a class. A class reaches from its keyword on. -/
theorem functions_of_analyse {path size : Value} {language s : String}
    (hlanguage : language = "javascript" ∨ language = "typescript") :
    ∃ a, analyse ⟨path, .text language, .text s, size⟩ = .ok a ∧
      (∀ name, name ∈ a.facts.functions.map (·.name) ↔
        ∃ m ∈ JavaScript.functionRegex.findAll s.toList, JavaScript.eitherName m = name ∧
          JavaScript.isKeyword name = false ∧ JavaScript.isOutside s.toList m = true ∧
          JavaScript.followsClass s.toList m = false) ∧
      (∀ m ∈ JavaScript.functionRegex.findAll s.toList,
        JavaScript.declaresAt s.toList (JavaScript.wordIndex s.toList m) = true) ∧
      ∀ span ∈ JavaScript.classSpans s.toList,
        ∃ rest, s.toList.drop span.head.start = "class".toList ++ rest := by
  have hfacts : factsOf (.text language) (.text s) = .ok (JavaScript.facts s.toList) := by
    rcases hlanguage with rfl | rfl <;> rfl
  have hne : language ≠ "" := by rcases hlanguage with rfl | rfl <;> decide
  have hok : analyse ⟨path, .text language, .text s, size⟩ =
      .ok ⟨path, .text language, JavaScript.facts s.toList, size⟩ := by
    refine Except.bind_eq_ok.2 ⟨JavaScript.facts s.toList, ?_, ?_⟩
    · rwa [Value.orElse, Value.isFalsy_text hne, Value.orElse_empty]
    · rw [Value.orElse, Value.isFalsy_text hne]
      rfl
  refine ⟨_, hok, fun name => ?_, fun m hm => JavaScript.declaresAt_wordIndex hm,
    fun span hspan => JavaScript.exists_drop_span_start hspan⟩
  rw [← JavaScript.mem_functionNames_iff]
  simp [JavaScript.facts]

def spacedScript : String :=
  "class A \x7b m() \x7b const x = y => 1; \x7d \x7d\nfunction f() \x7b\x7d\nlet g = () => 1;"

theorem functions_of_spacedScript :
    ∃ a, analyse ⟨.text "a.ts", .text "typescript", .text spacedScript, .int 0⟩ = .ok a ∧
      "f" ∈ a.facts.functions.map (·.name) ∧ "g" ∈ a.facts.functions.map (·.name) ∧
      "x" ∉ a.facts.functions.map (·.name) := by
  obtain ⟨a, ha, hnames, -⟩ :=
    @functions_of_analyse (.text "a.ts") (.int 0) "typescript" spacedScript (Or.inr rfl)
  refine ⟨a, ha, ?_, ?_, ?_⟩
  · rw [hnames]
    decide +kernel
  · rw [hnames]
    decide +kernel
  · rw [hnames]
    decide +kernel

def minifiedScript : String := "class A\x7b\x7dfunction f()\x7b\x7d"

/-- The function behind the class is declared outside of it, and is not found. -/
theorem functions_of_minifiedScript :
    (∃ m ∈ JavaScript.functionRegex.findAll minifiedScript.toList, JavaScript.eitherName m = "f" ∧
      JavaScript.isKeyword "f" = false ∧ JavaScript.isOutside minifiedScript.toList m = true) ∧
    (JavaScript.facts minifiedScript.toList).functions = [] := by
  decide +kernel

end CodeAtlas.Source
