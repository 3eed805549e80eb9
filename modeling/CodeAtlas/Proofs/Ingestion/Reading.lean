import CodeAtlas.Ingestion.Build
import CodeAtlas.Proofs.Ingestion.Statements

/-! What an open value says as a record, told by its fields alone: which value a field holds, what is left to the
components, which items make up a list, and by which name a fact goes. Reading a value agrees with it. -/

namespace CodeAtlas

namespace Value

/-- Whether a value is an object with this value in the field; of two fields of one name the first counts. -/
def Holds (v : Value) (name : String) (w : Value) : Prop :=
  ∃ before after, v = .object (before ++ (.text name, w) :: after) ∧ ∀ e ∈ before, e.1 ≠ .text name

def Lacks (v : Value) (name : String) : Prop := ∀ w, ¬ v.Holds name w

theorem holds_object_iff {entries : List (Scalar × Value)} {name : String} {w : Value} :
    (Value.object entries).Holds name w ↔ lookup? (.text name) entries = some w := by
  constructor
  · rintro ⟨before, after, heq, hbefore⟩
    cases heq
    induction before with
    | nil => exact if_pos rfl
    | cons e rest ih =>
      have hne : ¬ e.1.canon = (Scalar.text name).canon := fun h =>
        hbefore e List.mem_cons_self (Scalar.canon_eq_text_iff.1 h)
      rw [List.cons_append, lookup?, if_neg hne]
      exact ih fun e he => hbefore e (List.mem_cons_of_mem _ he)
  · intro h
    induction entries with
    | nil => cases h
    | cons e rest ih =>
      obtain ⟨k, u⟩ := e
      rw [lookup?] at h
      split at h
      · rename_i hk
        cases Scalar.canon_eq_text_iff.1 hk
        cases h
        exact ⟨[], rest, rfl, by simp⟩
      · rename_i hk
        obtain ⟨before, after, heq, hbefore⟩ := ih h
        cases heq
        refine ⟨(k, u) :: before, after, rfl, fun e he => ?_⟩
        rcases List.mem_cons.1 he with rfl | he
        · exact fun heq => hk (congrArg Scalar.canon heq)
        · exact hbefore e he

theorem holds_iff_field? {v w : Value} {name : String} : v.Holds name w ↔ v.field? name = .ok (some w) := by
  cases v with
  | object entries => rw [holds_object_iff, field?, Except.ok.injEq]
  | scalar k => exact iff_of_false (fun ⟨_, _, h, _⟩ => by cases h) (fun h => by cases h)
  | list items => exact iff_of_false (fun ⟨_, _, h, _⟩ => by cases h) (fun h => by cases h)

theorem Holds.field_eq {v w : Value} {name : String} (h : v.Holds name w) : v.field name = .ok w := by
  rw [field, holds_iff_field?.1 h]
  rfl

theorem Holds.unique {v w w' : Value} {name : String} (h : v.Holds name w) (h' : v.Holds name w') : w = w' := by
  rw [holds_iff_field?] at h h'
  cases h.symm.trans h'
  rfl

/-- An object with a field counts, as it is not empty. -/
theorem Holds.isFalsy_eq_false {v w : Value} {name : String} (h : v.Holds name w) : v.isFalsy = false := by
  obtain ⟨before, after, rfl, -⟩ := h
  cases before <;> rfl

end Value

namespace Ingestion

/-- The value that a record gives in a field: its own, or that of its components where it has none. -/
inductive Gives (v : Value) (name : String) : Value → Prop where
  | own {w : Value} (h : v.Holds name w) : Gives v name w
  | component {components w : Value} (hown : v.Lacks name) (hcomponents : v.Holds "components" components)
      (h : components.Holds name w) : Gives v name w

/-- The items that the values of a source make up: those of a list, or the value itself as the one item. -/
inductive Lists (source : Value → Prop) : List Value → Prop where
  | items {items : List Value} (h : source (.list items)) : Lists source items
  | single {w : Value} (h : source w) (hnull : w ≠ .null) (hlist : ∀ items, w ≠ .list items) : Lists source [w]
  | none (h : ∀ w, source w → w = .null) : Lists source []

/-- The value of a source, or the default where it has none that counts. -/
inductive Settles (source : Value → Prop) (default : Value) : Value → Prop where
  | given {w : Value} (h : source w) (hw : w.isFalsy = false) : Settles source default w
  | default (h : ∀ w, source w → w.isFalsy = true) : Settles source default default

/-- The name by which a fact goes: a text that is not empty stands for itself, an object has a field for it. -/
inductive NamedAs : Value → String → Prop where
  | bare {name : String} (h : name ≠ "") : NamedAs (.text name) name
  | field {fact w : Value} (h : fact.Holds "name" w) (hw : w.isFalsy = false) : NamedAs fact w.shown

/-- The record that a value describes. -/
structure Describes (v : Value) (r : Record) : Prop where
  path : v.Holds "path" r.path
  named : r.path.isFalsy = false
  language : Settles (v.Holds "language") (.text "text") r.language
  size : Settles (Gives v "size") (.int 0) r.size
  functions : Lists (Gives v "functions") r.functions
  classes : Lists (Gives v "classes") r.classes
  imports : Lists (Gives v "imports") r.imports

section Sources

variable {source : Value → Prop} {o : Option Value} {default w : Value} {items : List Value}
  (hsource : ∀ w, source w ↔ o = some w)

include hsource

/-- A source of at most one value lists what the value is as a list. -/
theorem lists_iff : Lists source items ↔ (o.getD .null).asList = items := by
  constructor
  · intro h
    cases h with
    | items h =>
      rw [(hsource _).1 h]
      rfl
    | @single w h hnull hlist =>
      rw [(hsource _).1 h]
      cases w with
      | scalar k =>
        cases k with
        | null => exact absurd rfl hnull
        | _ => rfl
      | list items => exact absurd rfl (hlist items)
      | object entries => rfl
    | none h =>
      cases o with
      | none => rfl
      | some w =>
        rw [h w ((hsource w).2 rfl)]
        rfl
  · rintro rfl
    cases o with
    | none => exact .none fun w h => by cases (hsource w).1 h
    | some w =>
      have hw := (hsource w).2 rfl
      cases w with
      | scalar k =>
        cases k with
        | null => exact .none fun w' h => by cases (hsource w').1 h; rfl
        | _ => exact .single hw (by simp) (by simp)
      | list items => exact .items hw
      | object entries => exact .single hw (by simp) (by simp)

theorem settles_iff {absent : Value} (habsent : absent.isFalsy = true) :
    Settles source default w ↔ (o.getD absent).orElse default = w := by
  constructor
  · rintro (⟨h, hw⟩ | h)
    · rw [(hsource _).1 h]
      exact if_neg (by rw [Option.getD_some, hw]; exact Bool.false_ne_true)
    · cases o with
      | none => exact if_pos habsent
      | some w => exact if_pos (h w ((hsource w).2 rfl))
  · rintro rfl
    cases o with
    | none =>
      rw [Option.getD_none, Value.orElse, if_pos habsent]
      exact .default fun w h => by cases (hsource w).1 h
    | some w =>
      rw [Option.getD_some, Value.orElse]
      split
      · rename_i hw
        exact .default fun w' h => by cases (hsource w').1 h; exact hw
      · rename_i hw
        exact .given ((hsource w).2 rfl) (Bool.eq_false_iff.2 hw)

end Sources

theorem exists_option_of_unique {source : Value → Prop} (h : ∀ w w', source w → source w' → w = w') :
    ∃ o, ∀ w, source w ↔ o = some w := by
  by_cases hsome : ∃ w, source w
  · obtain ⟨w, hw⟩ := hsome
    refine ⟨some w, fun w' => ⟨fun hw' => congrArg some (h w w' hw hw'), ?_⟩⟩
    rintro ⟨⟩
    exact hw
  · exact ⟨none, fun w => iff_of_false (fun hw => hsome ⟨w, hw⟩) nofun⟩

section Unique

variable {source : Value → Prop} (hunique : ∀ w w', source w → source w' → w = w')

include hunique

theorem Lists.unique {items items' : List Value} (h : Lists source items) (h' : Lists source items') :
    items = items' := by
  obtain ⟨o, ho⟩ := exists_option_of_unique hunique
  exact ((lists_iff ho).1 h).symm.trans ((lists_iff ho).1 h')

theorem Settles.unique {default w w' : Value} (h : Settles source default w) (h' : Settles source default w') :
    w = w' := by
  obtain ⟨o, ho⟩ := exists_option_of_unique hunique
  exact ((@settles_iff _ _ _ _ ho .null rfl).1 h).symm.trans ((settles_iff ho rfl).1 h')

end Unique

theorem namedAs_iff {fact : Value} {name : String} : NamedAs fact name ↔ factName? fact = some name := by
  constructor
  · rintro (h | ⟨h, hw⟩)
    · simp [factName?, h]
    · cases fact with
      | object entries =>
        simp only [factName?, Value.holds_object_iff.1 h, hw, Bool.false_eq_true, if_false]
      | scalar k => cases Value.holds_iff_field?.1 h
      | list items => cases Value.holds_iff_field?.1 h
  · intro h
    unfold factName? at h
    split at h
    · rename_i s
      split at h
      · cases h
      · rename_i hs
        cases h
        exact .bare (by simpa using hs)
    · split at h
      · rename_i hlookup
        split at h
        · cases h
        · rename_i hw
          cases h
          exact .field (Value.holds_object_iff.2 hlookup) (Bool.eq_false_iff.2 hw)
      · cases h
    · cases h

section Records

variable {v : Value} {r r' : Record} {o : Option Record}

/-- What reading takes for a field: the value of the components stands in where there is no own one. -/
theorem gives_iff {entries : List (Scalar × Value)} {components w : Value} {name : String} {given : Option Value}
    {choose : Option Value → Option Value → Option Value} (hchoose : ∀ fallback own, choose fallback own = own.or fallback)
    (hcomponents : (Value.object entries).field "components" = .ok components)
    (hgiven : (do
      let fallback ← (components.orElse (.object [])).field? name
      let own ← (Value.object entries).field? name
      return choose fallback own : Checked (Option Value)) = .ok given) :
    Gives (.object entries) name w ↔ given = some w := by
  obtain ⟨fallback, hfallback, hgiven⟩ := Except.bind_eq_ok.1 hgiven
  obtain ⟨own, hown, hgiven⟩ := Except.bind_eq_ok.1 hgiven
  cases hgiven
  rw [hchoose]
  have hholds : ∀ w, (Value.object entries).Holds name w ↔ own = some w := by
    intro w
    rw [Value.holds_iff_field?, hown, Except.ok.injEq]
  cases own with
  | some u =>
    rw [Option.some_or]
    constructor
    · rintro (h | ⟨hlacks, -, -⟩)
      · exact (hholds w).1 h
      · exact absurd ((hholds u).2 rfl) (hlacks u)
    · exact fun h => .own ((hholds w).2 h)
  | none =>
    have hfound : fallback = some w ↔ (components.orElse (.object [])).Holds name w := by
      rw [Value.holds_iff_field?, hfallback, Except.ok.injEq]
    rw [Option.none_or, hfound]
    constructor
    · rintro (h | ⟨-, hc, h⟩)
      · cases (hholds w).1 h
      · cases hcomponents
        have hfalsy := h.isFalsy_eq_false
        rwa [Value.holds_object_iff.1 hc, Option.getD_some, Value.orElse, if_neg (Bool.eq_false_iff.1 hfalsy)]
    · intro h
      cases hcomponents
      rw [Value.orElse] at h
      split at h
      · cases Value.holds_object_iff.1 h
      · rename_i hcounts
        cases hlookup : lookup? (.text "components") entries with
        | none => exact absurd (by rw [hlookup]; rfl) hcounts
        | some c =>
          rw [hlookup] at h
          exact .component (fun w hw => by cases (hholds w).1 hw) (Value.holds_object_iff.2 hlookup) h

/-- Reading gives the record that the value describes. -/
theorem describes_of_read? (h : Record.read? v = .ok (some r)) : Describes v r := by
  cases v with
  | scalar k => cases h
  | list items => cases h
  | object entries =>
    unfold Record.read? at h
    obtain ⟨components, hcomponents, h⟩ := Except.bind_eq_ok.1 h
    obtain ⟨functions, hfunctions, h⟩ := Except.bind_eq_ok.1 h
    obtain ⟨classes, hclasses, h⟩ := Except.bind_eq_ok.1 h
    obtain ⟨imports, himports, h⟩ := Except.bind_eq_ok.1 h
    obtain ⟨path, hpath, h⟩ := Except.bind_eq_ok.1 h
    obtain ⟨language, hlanguage, h⟩ := Except.bind_eq_ok.1 h
    obtain ⟨size, hsize, h⟩ := Except.bind_eq_ok.1 h
    cases hpath
    cases hlanguage
    split at h
    · cases h
    · rename_i hnamed
      cases h
      have hholds : ∀ w, (Value.object entries).Holds "language" w ↔ lookup? (.text "language") entries = some w :=
        fun w => Value.holds_object_iff
      refine ⟨?_, Bool.eq_false_iff.2 hnamed, ?_, ?_, ?_, ?_, ?_⟩
      · cases hlookup : lookup? (.text "path") entries with
        | none => exact absurd (by rw [hlookup]; rfl) hnamed
        | some path => exact Value.holds_object_iff.2 hlookup
      · exact (settles_iff hholds rfl).2 rfl
      · exact (settles_iff (fun w => gives_iff (fun _ own => by cases own <;> rfl) hcomponents hsize) rfl).2 rfl
      · exact (lists_iff fun w => gives_iff (fun _ own => by cases own <;> rfl) hcomponents hfunctions).2 rfl
      · exact (lists_iff fun w => gives_iff (fun _ own => by cases own <;> rfl) hcomponents hclasses).2 rfl
      · exact (lists_iff fun w => gives_iff (fun _ own => by cases own <;> rfl) hcomponents himports).2 rfl

theorem Gives.unique {name : String} {w w' : Value} (h : Gives v name w) (h' : Gives v name w') : w = w' := by
  rcases h with h | ⟨hlacks, hc, h⟩ <;> rcases h' with h' | ⟨hlacks', hc', h'⟩
  · exact h.unique h'
  · exact absurd h (hlacks' w)
  · exact absurd h' (hlacks w')
  · cases hc.unique hc'
    exact h.unique h'

theorem Describes.unique (h : Describes v r) (h' : Describes v r') : r = r' := by
  have hgives : ∀ name w w', Gives v name w → Gives v name w' → w = w' := fun _ _ _ => Gives.unique
  have hpath := h.path.unique h'.path
  have hlanguage := h.language.unique (fun _ _ => Value.Holds.unique) h'.language
  have hsize := h.size.unique (hgives "size") h'.size
  have hfunctions := h.functions.unique (hgives "functions") h'.functions
  have hclasses := h.classes.unique (hgives "classes") h'.classes
  have himports := h.imports.unique (hgives "imports") h'.imports
  cases r
  cases r'
  cases hpath
  cases hlanguage
  cases hsize
  cases hfunctions
  cases hclasses
  cases himports
  rfl

theorem describes_iff (h : Record.read? v = .ok o) : Describes v r ↔ o = some r := by
  constructor
  · intro hr
    obtain ⟨r', rfl, -⟩ := path_of_read? h hr.path.field_eq hr.named
    rw [hr.unique (describes_of_read? h)]
  · rintro rfl
    exact describes_of_read? h

end Records

def Mentions (r : Record) : Entity → Prop
  | .file path => r.path.shown = path
  | .function path name => r.path.shown = path ∧ ∃ fact ∈ r.functions, NamedAs fact name
  | .classDecl path name => r.path.shown = path ∧ ∃ fact ∈ r.classes, NamedAs fact name
  | .dependency importPath => .text importPath ∈ r.imports ∧ importPath ≠ ""

/-- The facts that a record states: functions and classes are part of their file, and the file depends on what it
imports. -/
inductive States (r : Record) : Fact → Prop where
  | function {path name : String} (h : Mentions r (.function path name)) :
    States r ⟨.function path name, .file path, .partOf⟩
  | classDecl {path name : String} (h : Mentions r (.classDecl path name)) :
    States r ⟨.classDecl path name, .file path, .partOf⟩
  | dependency {path importPath : String} (hpath : r.path.shown = path) (h : Mentions r (.dependency importPath)) :
    States r ⟨.file path, .dependency importPath, .dependsOn⟩

def MentionedBy (x : Entity) (v : Value) : Prop := ∃ r, Describes v r ∧ Mentions r x

def Mentioned (records : List Value) (x : Entity) : Prop := ∃ v ∈ records, MentionedBy x v

def Stated (records : List Value) (f : Fact) : Prop := ∃ v ∈ records, ∃ r, Describes v r ∧ States r f

section Statements

variable {path : String} {entity : String → Entity} {draft : String → Value → NodeDraft} {r : Record}
  {x : Entity} {f : Fact}

theorem exists_mention_factStatements {facts : List Value} :
    (∃ p, .mention x p ∈ facts.flatMap (factStatements entity path draft)) ↔
      ∃ fact ∈ facts, ∃ name, NamedAs fact name ∧ x = entity name := by
  simp only [List.mem_flatMap, factStatements]
  constructor
  · rintro ⟨p, fact, hfact, hx⟩
    cases hname : factName? fact with
    | none => simp [hname] at hx
    | some name =>
      simp only [hname, List.mem_cons, Statement.mention.injEq, reduceCtorEq, List.not_mem_nil, or_false] at hx
      exact ⟨fact, hfact, name, namedAs_iff.2 hname, hx.1⟩
  · rintro ⟨fact, hfact, name, hname, rfl⟩
    exact ⟨(draft name fact).properties, fact, hfact, by simp [namedAs_iff.1 hname]⟩

theorem fact_mem_factStatements {facts : List Value} :
    .fact f ∈ facts.flatMap (factStatements entity path draft) ↔
      ∃ fact ∈ facts, ∃ name, NamedAs fact name ∧ f = ⟨entity name, .file path, .partOf⟩ := by
  simp only [List.mem_flatMap, factStatements]
  constructor
  · rintro ⟨fact, hfact, hf⟩
    cases hname : factName? fact with
    | none => simp [hname] at hf
    | some name =>
      simp only [hname, List.mem_cons, reduceCtorEq, Statement.fact.injEq, List.not_mem_nil, or_false,
        false_or] at hf
      exact ⟨fact, hfact, name, namedAs_iff.2 hname, hf⟩
  · rintro ⟨fact, hfact, name, hname, rfl⟩
    exact ⟨fact, hfact, by simp [namedAs_iff.1 hname]⟩

theorem exists_mention_importStatements {language : Value} {imports : List Value} :
    (∃ p, .mention x p ∈ imports.flatMap (importStatements path language)) ↔
      ∃ importPath, .text importPath ∈ imports ∧ importPath ≠ "" ∧ x = .dependency importPath := by
  simp only [List.mem_flatMap, importStatements]
  constructor
  · rintro ⟨p, entry, hentry, hx⟩
    cases hname : importName? entry with
    | none => simp [hname] at hx
    | some importPath =>
      obtain ⟨rfl, hne⟩ := importName?_eq_some.1 hname
      simp only [hname, List.mem_cons, Statement.mention.injEq, reduceCtorEq, List.not_mem_nil, or_false] at hx
      exact ⟨importPath, hentry, hne, hx.1⟩
  · rintro ⟨importPath, hentry, hne, rfl⟩
    have hname := importName?_eq_some.2 ⟨rfl, hne⟩
    exact ⟨(dependencyDraft language importPath).properties, _, hentry, by simp [hname]⟩

theorem fact_mem_importStatements {language : Value} {imports : List Value} :
    .fact f ∈ imports.flatMap (importStatements path language) ↔
      ∃ importPath, .text importPath ∈ imports ∧ importPath ≠ "" ∧
        f = ⟨.file path, .dependency importPath, .dependsOn⟩ := by
  simp only [List.mem_flatMap, importStatements]
  constructor
  · rintro ⟨entry, hentry, hf⟩
    cases hname : importName? entry with
    | none => simp [hname] at hf
    | some importPath =>
      obtain ⟨rfl, hne⟩ := importName?_eq_some.1 hname
      simp only [hname, List.mem_cons, reduceCtorEq, Statement.fact.injEq, List.not_mem_nil, or_false,
        false_or] at hf
      exact ⟨importPath, hentry, hne, hf⟩
  · rintro ⟨importPath, hentry, hne, rfl⟩
    have hname := importName?_eq_some.2 ⟨rfl, hne⟩
    exact ⟨_, hentry, by simp [hname]⟩

theorem exists_mention_recordStatements :
    (∃ p, .mention x p ∈ recordStatements r) ↔
      x = .file r.path.shown ∨
      (∃ fact ∈ r.functions, ∃ name, NamedAs fact name ∧ x = .function r.path.shown name) ∨
      (∃ fact ∈ r.classes, ∃ name, NamedAs fact name ∧ x = .classDecl r.path.shown name) ∨
      ∃ importPath, .text importPath ∈ r.imports ∧ importPath ≠ "" ∧ x = .dependency importPath := by
  simp only [recordStatements, List.mem_cons, List.mem_append, exists_or, exists_mention_factStatements,
    exists_mention_importStatements, Statement.mention.injEq, exists_and_left, exists_eq, and_true, or_assoc]

theorem fact_mem_recordStatements :
    .fact f ∈ recordStatements r ↔
      (∃ fact ∈ r.functions, ∃ name, NamedAs fact name ∧
        f = ⟨.function r.path.shown name, .file r.path.shown, .partOf⟩) ∨
      (∃ fact ∈ r.classes, ∃ name, NamedAs fact name ∧
        f = ⟨.classDecl r.path.shown name, .file r.path.shown, .partOf⟩) ∨
      ∃ importPath, .text importPath ∈ r.imports ∧ importPath ≠ "" ∧
        f = ⟨.file r.path.shown, .dependency importPath, .dependsOn⟩ := by
  simp only [recordStatements, List.mem_cons, List.mem_append, reduceCtorEq, false_or,
    fact_mem_factStatements, fact_mem_importStatements, or_assoc]

theorem mentions_iff : Mentions r x ↔ ∃ p, .mention x p ∈ recordStatements r := by
  rw [exists_mention_recordStatements]
  constructor
  · intro h
    cases x with
    | file path => exact .inl (congrArg Entity.file h.symm)
    | function path name =>
      obtain ⟨rfl, fact, hfact, hname⟩ := h
      exact .inr (.inl ⟨fact, hfact, name, hname, rfl⟩)
    | classDecl path name =>
      obtain ⟨rfl, fact, hfact, hname⟩ := h
      exact .inr (.inr (.inl ⟨fact, hfact, name, hname, rfl⟩))
    | dependency importPath => exact .inr (.inr (.inr ⟨importPath, h.1, h.2, rfl⟩))
  · rintro (rfl | ⟨fact, hfact, name, hname, rfl⟩ | ⟨fact, hfact, name, hname, rfl⟩ |
      ⟨importPath, himport, hne, rfl⟩)
    · rfl
    · exact ⟨rfl, fact, hfact, hname⟩
    · exact ⟨rfl, fact, hfact, hname⟩
    · exact ⟨himport, hne⟩

theorem states_iff : States r f ↔ .fact f ∈ recordStatements r := by
  rw [fact_mem_recordStatements]
  constructor
  · rintro (⟨rfl, fact, hfact, hname⟩ | ⟨rfl, fact, hfact, hname⟩ | ⟨rfl, himport, hne⟩)
    · exact .inl ⟨fact, hfact, _, hname, rfl⟩
    · exact .inr (.inl ⟨fact, hfact, _, hname, rfl⟩)
    · exact .inr (.inr ⟨_, himport, hne, rfl⟩)
  · rintro (⟨fact, hfact, name, hname, rfl⟩ | ⟨fact, hfact, name, hname, rfl⟩ |
      ⟨importPath, himport, hne, rfl⟩)
    · exact .function ⟨rfl, fact, hfact, hname⟩
    · exact .classDecl ⟨rfl, fact, hfact, hname⟩
    · exact .dependency rfl ⟨himport, hne⟩

theorem isOk_read? {records : List Value}
    (hread : ∀ v ∈ records, ∃ r path, Record.read? v = .ok (some r) ∧ r.path = .text path) :
    ∀ v ∈ records, ∃ o, Record.read? v = .ok o := fun v hv => by
  obtain ⟨r, -, hr, -⟩ := hread v hv
  exact ⟨_, hr⟩

section Records

variable {records : List Value} (hread : ∀ v ∈ records, ∃ o, Record.read? v = .ok o)

include hread

theorem mem_readRecords_iff : r ∈ readRecords records ↔ ∃ v ∈ records, Describes v r := by
  rw [readRecords, List.mem_filterMap]
  refine exists_congr fun v => and_congr_right fun hv => ?_
  obtain ⟨o, ho⟩ := hread v hv
  rw [describes_iff ho, record?, ho]

theorem mentioned_iff : Mentioned records x ↔ ∃ p, .mention x p ∈ statements records := by
  simp only [statements, List.mem_flatMap, mem_readRecords_iff hread]
  constructor
  · rintro ⟨v, hv, r, hr, h⟩
    obtain ⟨p, hp⟩ := mentions_iff.1 h
    exact ⟨p, r, ⟨v, hv, hr⟩, hp⟩
  · rintro ⟨p, r, ⟨v, hv, hr⟩, hp⟩
    exact ⟨v, hv, r, hr, mentions_iff.2 ⟨p, hp⟩⟩

theorem stated_iff : Stated records f ↔ .fact f ∈ statements records := by
  simp only [statements, List.mem_flatMap, mem_readRecords_iff hread]
  constructor
  · rintro ⟨v, hv, r, hr, h⟩
    exact ⟨r, ⟨v, hv, hr⟩, states_iff.1 h⟩
  · rintro ⟨r, ⟨v, hv, hr⟩, h⟩
    exact ⟨v, hv, r, hr, states_iff.2 h⟩

end Records

end Statements

end Ingestion

namespace Analysis

/-- The record that an analysis gives. -/
def record (a : Analysis) : Record where
  path := a.path
  language := a.language.orElse (.text "text")
  size := a.size.orElse (.int 0)
  functions := a.facts.functions.map (·.toValue)
  classes := a.facts.classes.map (·.toValue)
  imports := a.facts.imports.map .text

theorem read?_toValue (a : Analysis) :
    Record.read? a.toValue = .ok (if a.path.isFalsy then none else some a.record) := rfl

theorem exists_read?_of_mem {analyses : List Analysis} {v : Value} (h : v ∈ analyses.map Analysis.toValue) :
    ∃ r?, Record.read? v = .ok r? := by
  obtain ⟨a, -, rfl⟩ := List.mem_map.1 h
  exact ⟨_, a.read?_toValue⟩

end Analysis

end CodeAtlas
