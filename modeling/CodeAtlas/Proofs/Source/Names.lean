import CodeAtlas.Proofs.Graph.Import
import CodeAtlas.Proofs.Source.Outline
import CodeAtlas.Source.Analysis

/-! The names that are read out of source files. Every head that an expression finds has captured a name,
so all facts of a file have usable names; imports are named once each, and so are the functions of a
JavaScript file, among which there are no keywords. -/

namespace CodeAtlas

open Text

theorem ofList_ne_empty {cs : List Char} (h : cs ≠ []) : String.ofList cs ≠ "" := by
  intro heq
  exact h (by simpa using congrArg String.toList heq)

theorem Value.orElse_empty (s : String) : (Value.text s).orElse (.text "") = .text s := by
  by_cases hempty : s = ""
  · rw [hempty]
    rfl
  · rw [Value.orElse, Value.isFalsy_text hempty]
    rfl

theorem Text.Match.text_ne_empty {r : Regex} {s : List Char} {m : Match} {i : Nat} (h : m ∈ r.findAll s)
    (hcaptures : r.captures [i] = true) (hfills : r.fills [i] = true) : m.text i ≠ "" := by
  obtain ⟨j, hj, part, hpart⟩ := Regex.exists_group? h hcaptures
  cases List.mem_singleton.1 hj
  rw [Match.text, hpart]
  exact ofList_ne_empty (Regex.group?_ne_nil h hfills List.mem_cons_self hpart)

/-- What was found in a file and can be used: all facts have names, and no import is named twice. -/
structure SourceFacts.Usable (f : SourceFacts) : Prop where
  functions : ∀ x ∈ f.functions, x.name ≠ ""
  classes : ∀ c ∈ f.classes, c.name ≠ ""
  imports : "" ∉ f.imports
  distinct : f.imports.Nodup

namespace Source

section Distinct

variable {texts seen : List String} {t : String}

/-- Texts are taken over once each. -/
theorem foldl_distinctTexts (hseen : seen.Nodup) :
    let all := texts.foldl (fun seen t => if seen.contains t then seen else seen ++ [t]) seen
    all.Nodup ∧ ∀ t, t ∈ all ↔ t ∈ seen ∨ t ∈ texts := by
  induction texts generalizing seen with
  | nil => exact ⟨hseen, fun t => by simp⟩
  | cons x rest ih =>
    rw [List.foldl_cons]
    by_cases hx : x ∈ seen
    · rw [if_pos (List.contains_iff_mem.2 hx)]
      obtain ⟨hnodup, hmem⟩ := ih hseen
      refine ⟨hnodup, fun t => ?_⟩
      rw [hmem, List.mem_cons]
      constructor
      · rintro (h | h)
        · exact Or.inl h
        · exact Or.inr (Or.inr h)
      · rintro (h | rfl | h)
        · exact Or.inl h
        · exact Or.inl hx
        · exact Or.inr h
    · rw [if_neg fun h => hx (List.contains_iff_mem.1 h)]
      obtain ⟨hnodup, hmem⟩ := ih (hseen.append (List.nodup_singleton x) (by simpa using hx))
      refine ⟨hnodup, fun t => ?_⟩
      rw [hmem, List.mem_append, List.mem_singleton, List.mem_cons, or_assoc]

theorem nodup_distinctTexts : (distinctTexts texts).Nodup := (foldl_distinctTexts List.nodup_nil).1

theorem mem_distinctTexts : t ∈ distinctTexts texts ↔ t ∈ texts := by
  have hmem : t ∈ distinctTexts texts ↔ t ∈ [] ∨ t ∈ texts := (foldl_distinctTexts List.nodup_nil).2 t
  simpa using hmem

end Distinct

namespace JavaScript

variable {content : List Char}

theorem eitherName_ne_empty {r : Regex} {m : Match} (h : m ∈ r.findAll content)
    (hcaptures : r.captures [1, 2] = true) (hfills : r.fills [1, 2] = true) : eitherName m ≠ "" := by
  refine ofList_ne_empty ?_
  cases hfirst : m.group? 1 with
  | some first => exact Regex.group?_ne_nil h hfills (by simp) hfirst
  | none =>
    obtain ⟨part, hpart⟩ := Regex.exists_second_group? h hcaptures hfirst
    rw [Option.getD_none, hpart]
    exact Regex.group?_ne_nil h hfills (by simp) hpart

theorem exists_match_of_mem_functionNames {spans : List ClassSpan} {name : String}
    (h : name ∈ functionNames content spans) :
    ∃ m ∈ functionRegex.findAll content, isKeyword (eitherName m) = false ∧ eitherName m = name := by
  obtain ⟨m, hm, rfl⟩ := List.mem_map.1 (mem_distinctTexts.1 h)
  obtain ⟨hm, htest⟩ := List.mem_filter.1 hm
  exact ⟨m, hm, by simpa using (Bool.and_eq_true_iff.1 htest).1, rfl⟩

theorem usable_facts (content : List Char) : (facts content).Usable where
  functions x hx := by
    obtain ⟨name, hname, rfl⟩ := List.mem_map.1 hx
    obtain ⟨m, hm, -, rfl⟩ := exists_match_of_mem_functionNames hname
    exact eitherName_ne_empty hm rfl rfl
  classes c hc := by
    obtain ⟨span, hspan, rfl⟩ := List.mem_map.1 hc
    obtain ⟨m, hm, rfl⟩ := List.mem_map.1 hspan
    exact Match.text_ne_empty hm rfl rfl
  imports hmem := by
    obtain ⟨m, hm, hempty⟩ := List.mem_map.1 (mem_distinctTexts.1 hmem)
    exact eitherName_ne_empty hm rfl rfl hempty
  distinct := nodup_distinctTexts

/-- The functions of a file have different names, and no function and no method is named like a keyword. -/
theorem names_of_facts (content : List Char) :
    ((facts content).functions.map (·.name)).Nodup ∧
    (∀ f ∈ (facts content).functions, isKeyword f.name = false) ∧
    ∀ c ∈ (facts content).classes, ∀ method ∈ c.methods, isKeyword method.name = false := by
  refine ⟨?_, fun f hf => ?_, fun c hc method hmethod => ?_⟩
  · rw [facts, List.map_map]
    have hid : ((·.name) ∘ fun name => (⟨name, none⟩ : FunctionFact)) = id := rfl
    rw [hid, List.map_id]
    exact nodup_distinctTexts
  · obtain ⟨name, hname, rfl⟩ := List.mem_map.1 hf
    obtain ⟨m, -, hkeyword, rfl⟩ := exists_match_of_mem_functionNames hname
    exact hkeyword
  · obtain ⟨span, -, rfl⟩ := List.mem_map.1 hc
    obtain ⟨m, hm, rfl⟩ := List.mem_map.1 hmethod
    simpa using (List.mem_filter.1 hm).2

end JavaScript

namespace Python

variable {content : List Char} {f : SourceFacts}

theorem name_of_mem_functionHeads {h : FunctionHead} (hh : h ∈ functionHeads content) :
    h.fact.name ≠ "" := by
  obtain ⟨m, hm, rfl⟩ := List.mem_map.1 hh
  exact Match.text_ne_empty hm rfl rfl

theorem name_of_mem_classHeads {h : ClassHead} (hh : h ∈ classHeads content) : h.name ≠ "" := by
  obtain ⟨m, hm, rfl⟩ := List.mem_map.1 hh
  exact Match.text_ne_empty hm rfl rfl

theorem facts_eq (h : facts content = .ok f) :
    let outline := outlineOf content (classHeads content) (functionHeads content)
    f.functions = outline.functions ∧ f.classes = outline.bodies.map (·.fact) := by
  obtain ⟨imports, -, h⟩ := Except.bind_eq_ok.1 h
  cases h
  rw [ofContent_eq]
  exact ⟨rfl, rfl⟩

theorem usable_facts (h : facts content = .ok f) : f.Usable := by
  obtain ⟨hfunctions, hclasses⟩ := facts_eq h
  obtain ⟨imports, -, h⟩ := Except.bind_eq_ok.1 h
  refine ⟨fun x hx => ?_, fun c hc => ?_, ?_, ?_⟩
  · rw [hfunctions] at hx
    obtain ⟨head, hhead, rfl⟩ := List.mem_map.1 hx
    exact name_of_mem_functionHeads (List.mem_filter.1 hhead).1
  · rw [hclasses, outlineOf, List.map_map] at hc
    obtain ⟨⟨head, i⟩, hhead, rfl⟩ := List.mem_map.1 hc
    exact name_of_mem_classHeads (List.fst_mem_of_mem_zipIdx hhead)
  · cases h
    intro hmem
    simpa using (List.mem_filter.1 (mem_distinctTexts.1 hmem)).2
  · cases h
    exact nodup_distinctTexts

end Python

variable {language content : Value} {f : SourceFacts}

/-- The facts of a file are usable, whatever language it is in. -/
theorem usable_factsOf (h : factsOf language content = .ok f) : f.Usable := by
  unfold factsOf at h
  split at h
  · exact Python.usable_facts h
  · cases h
    exact JavaScript.usable_facts _
  · cases h
    exact JavaScript.usable_facts _
  · cases h
  · cases h
  · cases h
  · cases h
    exact ⟨nofun, nofun, nofun, List.nodup_nil⟩

theorem factsOf_of_analyse {path size : Value} {language content : String} {a : Analysis} (hlanguage : language ≠ "")
    (h : analyse ⟨path, .text language, .text content, size⟩ = .ok a) :
    factsOf (.text language) (.text content) = .ok a.facts := by
  obtain ⟨facts, hfacts, ha⟩ := Except.bind_eq_ok.1 h
  cases ha
  rwa [Value.orElse, Value.isFalsy_text hlanguage, Value.orElse_empty] at hfacts

end Source

end CodeAtlas
