import CodeAtlas.Proofs.Source.Names
import CodeAtlas.Proofs.Text.Pieces
import Mathlib.Data.List.Flatten

/-! The names of declared parameters. A list of parameters is written out with commas between them, and what is
read back begins, for each of them, with its name; whatever a comma in its annotation or its default cuts
off is read as a parameter of its own. -/

namespace CodeAtlas.Source

open Text

/-- A declared parameter. Blanks may stand in front of it and behind its name, and the texts of its annotation
and of its default are taken with the blanks around them. -/
structure Parameter where
  margin : List Char := []
  stars : Nat := 0
  name : List Char
  gap : List Char := []
  annotation : Option (List Char) := none
  default : Option (List Char) := none
  margin_blank : ∀ c ∈ margin, isBlank c = true := by exact List.all_eq_true.1 (by decide)
  name_ne_nil : name ≠ [] := by simp
  name_word : ∀ c ∈ name, isWord c = true := by exact List.all_eq_true.1 (by decide)
  gap_blank : ∀ c ∈ gap, isBlank c = true := by exact List.all_eq_true.1 (by decide)

namespace Parameter

def bare (p : Parameter) : List Char := List.replicate p.stars '*' ++ p.name

/-- What follows the name: an annotation and a default. -/
def tail (p : Parameter) : List Char :=
  (p.annotation.map (':' :: ·)).getD [] ++ (p.default.map ('=' :: ·)).getD []

def text (p : Parameter) : List Char := p.margin ++ (p.bare ++ p.gap) ++ p.tail

/-- The text of a list of parameters. -/
def render (ps : List Parameter) : List Char := List.intercalate [','] (ps.map text)

/-- The names of the parameters but for receivers. -/
def names (ps : List Parameter) : List String :=
  (ps.map fun p => String.ofList p.name).filter fun name => !receivers.contains name

/-- The names that are read out of what commas cut off from an annotation and a default. -/
def strays (p : Parameter) : List String :=
  (((splitCommas p.tail).drop 1).map paramName).filter fun name => name ≠ "" && !receivers.contains name

variable {p : Parameter} {ps : List Parameter} {piece : List Char}

theorem bare_ne_nil : p.bare ≠ [] := List.append_ne_nil_of_right_ne_nil _ p.name_ne_nil

theorem mem_bare {c : Char} (h : c ∈ p.bare) : c = '*' ∨ isWord c = true :=
  (List.mem_append.1 h).imp List.eq_of_mem_replicate (p.name_word c)

theorem isBlank_of_mem_bare {c : Char} (h : c ∈ p.bare) : isBlank c = false := by
  rcases mem_bare h with rfl | hword
  · rfl
  · exact isBlank_of_isWord hword

/-- No mark of an annotation or a default, and no comma, stands before what follows the name. -/
theorem ne_of_mem_front {c mark : Char} (h : c ∈ p.margin ++ (p.bare ++ p.gap)) (hmark : mark ∈ ['=', ':', ',']) :
    c ≠ mark := by
  rintro rfl
  have hplain : isBlank c = false ∧ c ≠ '*' ∧ isWord c = false := by
    simp only [List.mem_cons, List.not_mem_nil, or_false] at hmark
    rcases hmark with rfl | rfl | rfl <;> decide
  obtain ⟨hblank, hstar, hword⟩ := hplain
  rcases List.mem_append.1 h with h | h
  · rw [p.margin_blank c h] at hblank
    cases hblank
  rcases List.mem_append.1 h with h | h
  · rcases mem_bare h with h | h
    · exact hstar h
    · rw [hword] at h
      cases h
  · rw [p.gap_blank c h] at hblank
    cases hblank

theorem dropWhile_bare : p.bare.dropWhile (· = '*') = p.name := by
  rw [bare, List.dropWhile_append_of_pos fun c hc => by simpa using List.eq_of_mem_replicate hc]
  obtain ⟨c, rest, h⟩ := List.exists_cons_of_ne_nil p.name_ne_nil
  have hword : isWord c = true := p.name_word c (h ▸ List.mem_cons_self)
  rw [h, List.dropWhile_cons_of_neg]
  rintro hstar
  rw [of_decide_eq_true hstar] at hword
  cases hword

/-- A piece of text after the front of a parameter does not change the name. -/
theorem paramName_front (hpiece : ∀ c ∈ piece.head?, c = '=' ∨ c = ':') :
    paramName (p.margin ++ (p.bare ++ p.gap) ++ piece) = String.ofList p.name := by
  have hbare : ∀ c ∈ p.bare, isBlank c = false := fun _ => isBlank_of_mem_bare
  have htrim : trim (p.bare ++ p.gap) = p.bare := by
    simpa using trim_of_bare (List.forall_mem_nil _) hbare bare_ne_nil p.gap_blank
  have hfront : ∀ c ∈ p.bare ++ p.gap, (decide (c ≠ '=') && decide (c ≠ ':')) = true := by
    intro c hc
    have hmem := List.mem_append_right p.margin hc
    simpa using ⟨ne_of_mem_front hmem (by simp), ne_of_mem_front hmem (by simp)⟩
  have hhead : trim ((trim (p.margin ++ (p.bare ++ p.gap) ++ piece)).takeWhile fun c => c ≠ '=' && c ≠ ':') =
      p.bare := by
    cases piece with
    | nil =>
      rw [List.append_nil, trim_of_bare p.margin_blank hbare bare_ne_nil p.gap_blank,
        List.takeWhile_eq_self_iff.2 fun c hc => hfront c (List.mem_append_left _ hc)]
      simpa using trim_of_bare (List.forall_mem_nil _) hbare bare_ne_nil (List.forall_mem_nil _)
    | cons mark more =>
      have hmark := hpiece mark rfl
      have hblank : isBlank mark = false := by rcases hmark with rfl | rfl <;> rfl
      have hstop : ¬ (decide (mark ≠ '=') && decide (mark ≠ ':')) = true := by
        rcases hmark with rfl | rfl <;> decide
      have htrimmed : trim (p.margin ++ (p.bare ++ p.gap) ++ mark :: more) =
          (p.bare ++ p.gap) ++ mark :: trimRight more := by
        rw [List.append_assoc, List.append_assoc, trim_eq, trimLeft_append p.margin_blank,
          trimLeft_of_bare hbare bare_ne_nil, ← List.append_assoc, trimRight_append_cons hblank]
      rw [htrimmed, List.takeWhile_append_of_pos hfront,
        List.takeWhile_cons_of_neg (p := fun c => decide (c ≠ '=') && decide (c ≠ ':')) hstop, List.append_nil, htrim]
  simp only [paramName, hhead, dropWhile_bare]

/-- The first of the pieces that commas cut what follows the name into, with the others. -/
theorem exists_splitCommas_tail : ∃ piece, splitCommas p.tail = piece :: (splitCommas p.tail).drop 1 ∧
    ∀ c ∈ piece.head?, c = '=' ∨ c = ':' := by
  have hmarked : ∀ {mark : Char} {more : List Char}, mark ≠ ',' → (mark = '=' ∨ mark = ':') →
      ∃ piece, splitCommas (mark :: more) = piece :: (splitCommas (mark :: more)).drop 1 ∧
        ∀ c ∈ piece.head?, c = '=' ∨ c = ':' := by
    intro mark more hcomma hmark
    obtain ⟨part, parts, h⟩ := List.exists_cons_of_ne_nil (splitAtChar_ne_nil ',' more)
    refine ⟨mark :: part, ?_, fun c hc => ?_⟩
    · rw [splitCommas, splitAtChar_cons_of_ne hcomma h, List.drop_succ_cons, List.drop_zero]
    · rwa [← Option.some.inj hc]
  unfold tail
  cases p.annotation with
  | some note => exact hmarked (by decide) (Or.inr rfl)
  | none =>
    cases p.default with
    | some value => exact hmarked (by decide) (Or.inl rfl)
    | none => exact ⟨[], rfl, nofun⟩

theorem params_text : params p.text = names [p] ++ p.strays := by
  obtain ⟨piece, hpiece, hhead⟩ := exists_splitCommas_tail (p := p)
  have hcomma : ',' ∉ p.margin ++ (p.bare ++ p.gap) := fun h => ne_of_mem_front h (by simp) rfl
  have hname : (decide (String.ofList p.name ≠ "") && !receivers.contains (String.ofList p.name)) =
      !receivers.contains (String.ofList p.name) := by
    rw [decide_eq_true (ofList_ne_empty p.name_ne_nil), Bool.true_and]
  rw [params, splitCommas, text, splitAtChar_append hcomma hpiece, List.map_cons, paramName_front hhead,
    List.filter_cons, hname, names, List.map_singleton, List.filter_singleton]
  cases receivers.contains (String.ofList p.name) <;> rfl

/-- What is read from a list of parameters: of each its name, and then the strays. -/
theorem params_render (ps : List Parameter) : params (render ps) = ps.flatMap fun p => names [p] ++ p.strays := by
  cases ps with
  | nil => rfl
  | cons p rest =>
    have hsplit : splitCommas (render (p :: rest)) = (p :: rest).flatMap fun p => splitCommas p.text := by
      rw [splitCommas, render, splitAtChar_intercalate (by simp), List.flatMap_map]
      rfl
    have hparams : params (render (p :: rest)) = (p :: rest).flatMap fun p => params p.text := by
      rw [params, hsplit, List.map_flatMap, List.filter_flatMap]
      rfl
    rw [hparams]
    simp only [params_text]

theorem names_eq_flatMap (ps : List Parameter) : names ps = ps.flatMap fun p => names [p] := by
  induction ps with
  | nil => rfl
  | cons p rest ih =>
    rw [List.flatMap_cons, ← ih, names, names, names, List.map_cons, List.filter_cons]
    split <;> simp_all

theorem strays_of_notMem (h : ',' ∉ p.tail) : p.strays = [] := by
  rw [strays, splitCommas, splitAtChar_of_notMem h]
  rfl

/-- Lists with additions are the lists without them only if nothing is added. -/
theorem flatMap_append_eq_iff {α β : Type} {f g : α → List β} {l : List α} :
    (l.flatMap fun a => f a ++ g a) = l.flatMap f ↔ ∀ a ∈ l, g a = [] := by
  constructor
  · intro h
    induction l with
    | nil => nofun
    | cons a rest ih =>
      rw [List.flatMap_cons, List.flatMap_cons, List.append_assoc, List.append_cancel_left_eq] at h
      have hle : (rest.flatMap f).length ≤ (rest.flatMap fun a => f a ++ g a).length :=
        (List.Sublist.flatMap_right rest fun a _ => List.sublist_append_left _ _).length_le
      have hlength := congrArg List.length h
      rw [List.length_append] at hlength
      have ha : g a = [] := List.length_eq_zero_iff.1 (by omega)
      rw [ha, List.nil_append] at h
      exact List.forall_mem_cons.2 ⟨ha, ih h⟩
  · intro h
    exact List.flatMap_congr fun a ha => by rw [h a ha, List.append_nil]

end Parameter

/-- The names of declared parameters, without receivers, are read in order, and they are all that is read
exactly if no name is read out of what commas cut off from the annotations and the defaults; so they are
all if no annotation and no default holds a comma. -/
theorem params_of_declared (ps : List Parameter) :
    (Parameter.names ps).Sublist (params (Parameter.render ps)) ∧
    (params (Parameter.render ps) = Parameter.names ps ↔ ∀ p ∈ ps, p.strays = []) ∧
    ((∀ p ∈ ps, ',' ∉ p.tail) → params (Parameter.render ps) = Parameter.names ps) := by
  have hexact : params (Parameter.render ps) = Parameter.names ps ↔ ∀ p ∈ ps, p.strays = [] := by
    rw [Parameter.params_render, Parameter.names_eq_flatMap, Parameter.flatMap_append_eq_iff]
  refine ⟨?_, hexact, fun h => hexact.2 fun p hp => Parameter.strays_of_notMem (h p hp)⟩
  rw [Parameter.params_render, Parameter.names_eq_flatMap]
  exact List.Sublist.flatMap_right ps fun p _ => List.sublist_append_left _ _

/-- The parameters in "self, user_id: List[int] = [], *args, **kwargs". -/
def methodParameters : List Parameter := [
  { name := "self".toList },
  { margin := [' '], name := "user_id".toList, annotation := some " List[int] ".toList,
    default := some " []".toList },
  { margin := [' '], stars := 1, name := "args".toList },
  { margin := [' '], stars := 2, name := "kwargs".toList }]

theorem params_of_methodParameters :
    Parameter.render methodParameters = "self, user_id: List[int] = [], *args, **kwargs".toList ∧
    (∀ p ∈ methodParameters, ',' ∉ p.tail) ∧
    params (Parameter.render methodParameters) = ["user_id", "args", "kwargs"] := by
  have hcomma : ∀ p ∈ methodParameters, ',' ∉ p.tail := by decide +kernel
  refine ⟨by decide +kernel, hcomma, ?_⟩
  rw [(params_of_declared methodParameters).2.2 hcomma]
  decide +kernel

/-- The parameter in "a: Dict[str, int]". -/
def dictParameter : Parameter := { name := ['a'], annotation := some " Dict[str, int]".toList }

/-- The comma in an annotation makes a parameter of what follows it. -/
theorem params_of_dictParameter :
    Parameter.render [dictParameter] = "a: Dict[str, int]".toList ∧ Parameter.names [dictParameter] = ["a"] ∧
      params (Parameter.render [dictParameter]) = ["a", "int]"] := by
  decide +kernel

end CodeAtlas.Source
