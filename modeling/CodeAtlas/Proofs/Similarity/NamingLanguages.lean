import CodeAtlas.Similarity.NamingStyle
import Mathlib.Data.List.Basic

/-! The naming styles as languages. The conventions overlap, and the first that admits a name counts. What is left
to each of them is said here without the others: a name without marks is in pascal or camel case, and
the other three need their mark at least once. So the languages are disjoint, and every name that is in
none of them is mixed. -/

namespace CodeAtlas.NamingStyle

/-- The names of the five conventions, by the characters that they are made of. -/
inductive Written : NamingStyle → List Char → Prop
  | pascal {c : Char} {rest : List Char} (hc : c.isUpper) (hrest : ∀ d ∈ rest, d.isAlphanum) :
      Written pascal (c :: rest)
  | camel {c : Char} {rest : List Char} (hc : c.isLower) (hrest : ∀ d ∈ rest, d.isAlphanum) :
      Written camel (c :: rest)
  | snake {c : Char} {rest : List Char} (hc : c.isLower)
      (hrest : ∀ d ∈ rest, d.isLower ∨ d.isDigit ∨ d = '_') (hmark : '_' ∈ rest) : Written snake (c :: rest)
  | constant {c : Char} {rest : List Char} (hc : c.isUpper)
      (hrest : ∀ d ∈ rest, d.isUpper ∨ d.isDigit ∨ d = '_') (hmark : '_' ∈ rest) : Written constant (c :: rest)
  | kebab {c : Char} {rest : List Char} (hc : c.isLower)
      (hrest : ∀ d ∈ rest, d.isLower ∨ d.isDigit ∨ d = '-') (hmark : '-' ∈ rest) : Written kebab (c :: rest)

section Characters

variable {c d : Char}

theorem isUpper_eq (c : Char) : isUpper c = c.isUpper := (Bool.decide_and _ _).symm

theorem isLower_eq (c : Char) : isLower c = c.isLower := rfl

theorem isDigit_eq (c : Char) : isDigit c = c.isDigit := rfl

theorem isAlphanum_iff : d.isAlphanum = true ↔ d.isUpper = true ∨ d.isLower = true ∨ d.isDigit = true := by
  change (d.isUpper || d.isLower || d.isDigit) = true ↔ _
  rw [Bool.or_eq_true, Bool.or_eq_true, or_assoc]

theorem isLower_of_isUpper (h : c.isUpper = true) : c.isLower = false := by
  have hle : c.val ≤ 'Z'.val := (of_decide_eq_true h).2
  refine Bool.and_eq_false_iff.2 (Or.inl (decide_eq_false fun hlower => ?_))
  exact absurd (UInt32.le_trans hlower hle) (by decide)

theorem isUpper_of_isLower (h : c.isLower = true) : c.isUpper = false := by
  by_contra hupper
  rw [isLower_of_isUpper (Bool.of_not_eq_false hupper)] at h
  cases h

end Characters

section Admits

variable {style style' : NamingStyle} {c d mark : Char} {rest cs : List Char}

theorem admits_pascal_iff :
    pascal.admits (c :: rest) = true ↔ c.isUpper ∧ ∀ d ∈ rest, d.isAlphanum := by
  simp [admits, starts, goesOn, isUpper_eq, isLower_eq, isDigit_eq, isAlphanum_iff, or_assoc]

theorem admits_camel_iff :
    camel.admits (c :: rest) = true ↔ c.isLower ∧ ∀ d ∈ rest, d.isAlphanum := by
  simp [admits, starts, goesOn, isUpper_eq, isLower_eq, isDigit_eq, isAlphanum_iff, or_assoc]

theorem admits_snake_iff :
    snake.admits (c :: rest) = true ↔ c.isLower ∧ ∀ d ∈ rest, d.isLower ∨ d.isDigit ∨ d = '_' := by
  simp [admits, starts, goesOn, isLower_eq, isDigit_eq, or_assoc]

theorem admits_constant_iff :
    constant.admits (c :: rest) = true ↔ c.isUpper ∧ ∀ d ∈ rest, d.isUpper ∨ d.isDigit ∨ d = '_' := by
  simp [admits, starts, goesOn, isUpper_eq, isDigit_eq, or_assoc]

theorem admits_kebab_iff :
    kebab.admits (c :: rest) = true ↔ c.isLower ∧ ∀ d ∈ rest, d.isLower ∨ d.isDigit ∨ d = '-' := by
  simp [admits, starts, goesOn, isLower_eq, isDigit_eq, or_assoc]

theorem not_admits_of_starts (hc : style.starts c = false) : style.admits (c :: rest) = false := by
  rw [admits, hc, Bool.false_and]

theorem not_admits_of_mem (hd : d ∈ rest) (hstyle : style.goesOn d = false) : style.admits (c :: rest) = false := by
  rw [admits, Bool.and_eq_false_iff, List.all_eq_false]
  exact Or.inr ⟨d, hd, by rw [hstyle]; exact Bool.false_ne_true⟩

theorem not_admits_of_isLower (hc : c.isLower = true) :
    pascal.admits (c :: rest) = false ∧ constant.admits (c :: rest) = false := by
  have hstart : isUpper c = false := by rw [isUpper_eq, isUpper_of_isLower hc]
  exact ⟨not_admits_of_starts hstart, not_admits_of_starts hstart⟩

theorem not_admits_of_isUpper (hc : c.isUpper = true) :
    camel.admits (c :: rest) = false ∧ snake.admits (c :: rest) = false ∧ kebab.admits (c :: rest) = false := by
  have hstart : isLower c = false := by rw [isLower_eq, isLower_of_isUpper hc]
  exact ⟨not_admits_of_starts hstart, not_admits_of_starts hstart, not_admits_of_starts hstart⟩

def first? (cs : List Char) : Option NamingStyle := [pascal, camel, snake, constant, kebab].find? (·.admits cs)

/-- A name in the language of a convention is admitted by it, and by none before it: either the first character
or a mark is against those. -/
theorem first?_of_written (h : Written style cs) : first? cs = some style := by
  unfold first?
  cases h with
  | pascal hc hrest =>
    have hpascal := admits_pascal_iff.2 ⟨hc, hrest⟩
    simp [hpascal]
  | camel hc hrest =>
    have hcamel := admits_camel_iff.2 ⟨hc, hrest⟩
    simp [not_admits_of_isLower hc, hcamel]
  | @snake c rest hc hrest hmark =>
    have hcamel : camel.admits (c :: rest) = false := not_admits_of_mem hmark (by decide)
    have hsnake := admits_snake_iff.2 ⟨hc, hrest⟩
    simp [not_admits_of_isLower hc, hcamel, hsnake]
  | @constant c rest hc hrest hmark =>
    have hpascal : pascal.admits (c :: rest) = false := not_admits_of_mem hmark (by decide)
    have hconstant := admits_constant_iff.2 ⟨hc, hrest⟩
    simp [hpascal, not_admits_of_isUpper hc, hconstant]
  | @kebab c rest hc hrest hmark =>
    have hcamel : camel.admits (c :: rest) = false := not_admits_of_mem hmark (by decide)
    have hsnake : snake.admits (c :: rest) = false := not_admits_of_mem hmark (by decide)
    have hkebab := admits_kebab_iff.2 ⟨hc, hrest⟩
    simp [not_admits_of_isLower hc, hcamel, hsnake, hkebab]

theorem Written.unique (h : Written style cs) (h' : Written style' cs) : style = style' :=
  Option.some.inj ((first?_of_written h).symm.trans (first?_of_written h'))

theorem exists_cons_of_first? (h : first? cs = some style) :
    style ≠ mixed ∧ ∃ c rest, cs = c :: rest ∧ style.admits (c :: rest) = true := by
  have hmem : style ∈ [pascal, camel, snake, constant, kebab] := List.mem_of_find?_eq_some h
  have hadmits : style.admits cs = true := (List.find?_eq_some_iff_append.1 h).1
  have hne : style ≠ mixed := by
    rintro rfl
    exact absurd hmem (by decide)
  refine ⟨hne, ?_⟩
  cases cs with
  | nil => exact absurd (of_decide_eq_true hadmits) hne
  | cons c rest => exact ⟨c, rest, rfl, hadmits⟩

theorem isAlphanum_of_notMem (hmark : mark ∉ rest)
    (h : ∀ d ∈ rest, d.isUpper ∨ d.isLower ∨ d.isDigit ∨ d = mark) : ∀ d ∈ rest, d.isAlphanum := by
  intro d hd
  have hne : d ≠ mark := fun heq => hmark (heq ▸ hd)
  rw [isAlphanum_iff]
  simpa [hne] using h d hd

/-- A name whose first convention is this one is in its language: without the mark an earlier one would do. -/
theorem written_of_first? (h : first? cs = some style) : Written style cs := by
  obtain ⟨hne, c, rest, rfl, hadmits⟩ := exists_cons_of_first? h
  have hearlier : ∀ style', style' ≠ style → ¬ Written style' (c :: rest) := fun style' hne' hwritten =>
    hne' (Option.some.inj ((first?_of_written hwritten).symm.trans h))
  cases style with
  | pascal =>
    obtain ⟨hc, hrest⟩ := admits_pascal_iff.1 hadmits
    exact .pascal hc hrest
  | camel =>
    obtain ⟨hc, hrest⟩ := admits_camel_iff.1 hadmits
    exact .camel hc hrest
  | snake =>
    obtain ⟨hc, hrest⟩ := admits_snake_iff.1 hadmits
    refine .snake hc hrest ?_
    by_contra hmark
    exact hearlier camel (by decide) (.camel hc (isAlphanum_of_notMem hmark fun d hd => Or.inr (hrest d hd)))
  | constant =>
    obtain ⟨hc, hrest⟩ := admits_constant_iff.1 hadmits
    refine .constant hc hrest ?_
    by_contra hmark
    refine hearlier pascal (by decide) (.pascal hc (isAlphanum_of_notMem hmark fun d hd => ?_))
    exact (hrest d hd).imp_right Or.inr
  | kebab =>
    obtain ⟨hc, hrest⟩ := admits_kebab_iff.1 hadmits
    refine .kebab hc hrest ?_
    by_contra hmark
    exact hearlier camel (by decide) (.camel hc (isAlphanum_of_notMem hmark fun d hd => Or.inr (hrest d hd)))
  | mixed => exact absurd rfl hne

theorem first?_eq_some_iff : first? cs = some style ↔ Written style cs := ⟨written_of_first?, first?_of_written⟩

end Admits

section Names

variable {s : String}

theorem of_eq (s : String) : of s = (first? (dropFinalNewline s.toList)).getD mixed := rfl

theorem dropFinalNewline_of_ne {cs : List Char} (h : cs.getLast? ≠ some '\n') : dropFinalNewline cs = cs := if_neg h

theorem dropFinalNewline_concat (cs : List Char) : dropFinalNewline (cs ++ ['\n']) = cs := by
  rw [dropFinalNewline, if_pos List.getLast?_concat, List.dropLast_concat]

/-- The style of a name that does not end in a newline is the convention in whose language it is; the languages
are disjoint, and a name in none of them is mixed. A newline at the end changes nothing. -/
theorem of_eq_iff_written (h : s.toList.getLast? ≠ some '\n') :
    (∀ style, style ≠ mixed → (of s = style ↔ Written style s.toList)) ∧
    (of s = mixed ↔ ∀ style, ¬ Written style s.toList) ∧
    (∀ style style', Written style s.toList → Written style' s.toList → style = style') ∧
    of (s ++ "\n") = of s := by
  have hstyle : of s = (first? s.toList).getD mixed := by rw [of_eq, dropFinalNewline_of_ne h]
  have hnewline : of (s ++ "\n") = of s := by
    rw [of_eq, String.toList_append, hstyle]
    exact congrArg (fun cs => (first? cs).getD mixed) (dropFinalNewline_concat s.toList)
  refine ⟨fun style hne => ?_, ?_, fun style style' hw hw' => hw.unique hw', hnewline⟩
  · rw [hstyle, ← first?_eq_some_iff]
    cases hfirst : first? s.toList with
    | none => simpa using hne.symm
    | some found => simp
  · rw [hstyle]
    simp only [← first?_eq_some_iff]
    cases hfirst : first? s.toList with
    | none => simp
    | some found => simpa using (exists_cons_of_first? hfirst).1

/-- A constant, with and without a newline at its end. -/
theorem of_eq_iff_written_maxSize :
    "MAX_SIZE".toList.getLast? ≠ some '\n' ∧ Written constant "MAX_SIZE".toList ∧
      ¬ Written pascal "MAX_SIZE".toList ∧ of "MAX_SIZE\n" = constant := by
  have hlast : "MAX_SIZE".toList.getLast? ≠ some '\n' := by decide
  obtain ⟨hstyles, -, hdisjoint, hnewline⟩ := of_eq_iff_written hlast
  have hconstant : of "MAX_SIZE" = constant := by decide
  have hwritten := (hstyles constant (by decide)).1 hconstant
  refine ⟨hlast, hwritten, fun hpascal => ?_, hnewline.trans hconstant⟩
  cases hdisjoint _ _ hwritten hpascal

end Names

end CodeAtlas.NamingStyle
