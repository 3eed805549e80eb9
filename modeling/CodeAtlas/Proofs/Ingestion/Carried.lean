import CodeAtlas.Proofs.Ingestion.Reading
import CodeAtlas.Proofs.Ingestion.Reflects

/-! The properties that records give to what they mention. Of a file, a function or a class the last record with a
word on it counts, and there the last fact of the name; of a dependency the first record that imports it. What is
decisive among the statements comes to the same. -/

namespace CodeAtlas

namespace Ingestion

def IsFirst {α : Type} (P : α → Prop) (xs : List α) (a : α) : Prop :=
  ∃ before after, xs = before ++ a :: after ∧ P a ∧ ∀ b ∈ before, ¬ P b

def IsLast {α : Type} (P : α → Prop) (xs : List α) (a : α) : Prop := IsFirst P xs.reverse a

/-- The properties that an entity is to carry: what the last record that mentions it says of it, and there the last
fact of its name; of a dependency, what the first record that imports it makes of it. -/
inductive Carries (records : List Value) : Entity → Properties → Prop where
  | file {path : String} {v : Value} {r : Record} (hv : IsLast (MentionedBy (.file path)) records v)
      (hr : Describes v r) :
    Carries records (.file path) (.ofFields [
      ("language", r.language),
      ("size", r.size),
      ("complexity", .int ↑(1 + 2 * r.functions.length + 3 * r.classes.length + r.imports.length))])
  | function {path name : String} {v : Value} {r : Record} {fact complexity : Value} {parameters : List Value}
      (hv : IsLast (MentionedBy (.function path name)) records v) (hr : Describes v r)
      (hfact : IsLast (NamedAs · name) r.functions fact)
      (hparameters : Lists (fun w => fact.Holds "params" w ∨ fact.Lacks "params" ∧ fact.Holds "parameters" w)
        parameters)
      (hcomplexity : Settles (fact.Holds "complexity") (.int 1) complexity) :
    Carries records (.function path name) (.ofFields [
      ("file", .text path),
      ("parameters", .list parameters),
      ("complexity", complexity)])
  | classDecl {path name : String} {v : Value} {r : Record} {fact : Value} {methods inheritance : List Value}
      (hv : IsLast (MentionedBy (.classDecl path name)) records v) (hr : Describes v r)
      (hfact : IsLast (NamedAs · name) r.classes fact)
      (hmethods : Lists (fact.Holds "methods") methods)
      (hinheritance : Lists (fact.Holds "inheritance") inheritance) :
    Carries records (.classDecl path name) (.ofFields [
      ("file", .text path),
      ("methods", .list methods),
      ("inheritance", .list inheritance)])
  | dependency {importPath : String} {v : Value} {r : Record} {external dotted : Bool}
      (hv : IsFirst (MentionedBy (.dependency importPath)) records v) (hr : Describes v r)
      (hexternal : external = true ↔ importPath.toList.head? ≠ some '.')
      (hdotted : dotted = true ↔ r.language = .text "python") :
    Carries records (.dependency importPath) (.ofFields [
      ("external", .bool external),
      ("package", .text (packageOf dotted importPath))])

section Carries

variable {α β : Type} {P Q : α → Prop} {xs : List α} {a a' : α}

theorem IsFirst.congr (h : IsFirst P xs a) (hPQ : ∀ b ∈ xs, P b ↔ Q b) : IsFirst Q xs a := by
  obtain ⟨before, after, rfl, ha, hbefore⟩ := h
  exact ⟨before, after, rfl, (hPQ a (by simp)).1 ha, fun b hb hQ => hbefore b hb ((hPQ b (by simp [hb])).2 hQ)⟩

theorem IsLast.congr (h : IsLast P xs a) (hPQ : ∀ b ∈ xs, P b ↔ Q b) : IsLast Q xs a :=
  IsFirst.congr h fun b hb => hPQ b (List.mem_reverse.1 hb)

theorem IsFirst.mem_and (h : IsFirst P xs a) : a ∈ xs ∧ P a := by
  obtain ⟨before, after, rfl, ha, -⟩ := h
  exact ⟨by simp, ha⟩

theorem IsLast.mem_and (h : IsLast P xs a) : a ∈ xs ∧ P a :=
  (IsFirst.mem_and h).imp_left List.mem_reverse.1

theorem IsFirst.unique (h : IsFirst P xs a) (h' : IsFirst P xs a') : a = a' := by
  obtain ⟨before, after, rfl, ha, hbefore⟩ := h
  obtain ⟨before', after', heq, ha', hbefore'⟩ := h'
  rcases List.append_eq_append_iff.1 heq with ⟨between, rfl, hrest⟩ | ⟨between, rfl, hrest⟩
  · cases between with
    | nil => exact (List.cons.inj hrest).1
    | cons b rest =>
      cases (List.cons.inj hrest).1
      exact absurd ha (hbefore' a (by simp))
  · cases between with
    | nil => exact (List.cons.inj hrest).1.symm
    | cons b rest =>
      cases (List.cons.inj hrest).1
      exact absurd ha' (hbefore a' (by simp))

theorem IsLast.unique (h : IsLast P xs a) (h' : IsLast P xs a') : a = a' := IsFirst.unique h h'

theorem exists_isFirst_of_findSome? {f : α → Option β} {b : β} (h : xs.findSome? f = some b) :
    ∃ a, IsFirst (fun a => f a ≠ none) xs a ∧ f a = some b := by
  obtain ⟨before, a, after, rfl, ha, hbefore⟩ := List.findSome?_eq_some_iff.1 h
  exact ⟨a, ⟨before, after, rfl, by simp [ha], fun b hb => not_not_intro (hbefore b hb)⟩, ha⟩

theorem exists_isFirst_of_head?_flatMap {f : α → List β} {b : β} (h : (xs.flatMap f).head? = some b) :
    ∃ a, IsFirst (fun a => f a ≠ []) xs a ∧ (f a).head? = some b := by
  rw [List.head?_flatMap] at h
  obtain ⟨a, hfirst, ha⟩ := exists_isFirst_of_findSome? h
  exact ⟨a, hfirst.congr fun a _ => not_congr List.head?_eq_none_iff, ha⟩

theorem exists_isLast_of_getLast?_flatMap {f : α → List β} {b : β} (h : (xs.flatMap f).getLast? = some b) :
    ∃ a, IsLast (fun a => f a ≠ []) xs a ∧ (f a).getLast? = some b := by
  rw [List.getLast?_flatMap] at h
  obtain ⟨a, hlast, ha⟩ := exists_isFirst_of_findSome? h
  exact ⟨a, hlast.congr fun a _ => not_congr List.getLast?_eq_none_iff, ha⟩

/-- What an entity is to carry is settled by the records. -/
theorem Carries.unique {records : List Value} {x : Entity} {p p' : Properties} (h : Carries records x p)
    (h' : Carries records x p') : p = p' := by
  cases h with
  | file hv hr =>
    cases h' with
    | file hv' hr' =>
      cases hv.unique hv'
      cases hr.unique hr'
      rfl
  | @function path name v r fact _ _ hv hr hfact hparameters hcomplexity =>
    cases h' with
    | function hv' hr' hfact' hparameters' hcomplexity' =>
      cases hv.unique hv'
      cases hr.unique hr'
      cases hfact.unique hfact'
      have hgiven : ∀ w w', (fact.Holds "params" w ∨ fact.Lacks "params" ∧ fact.Holds "parameters" w) →
          (fact.Holds "params" w' ∨ fact.Lacks "params" ∧ fact.Holds "parameters" w') → w = w' := by
        rintro w w' (h | ⟨hlacks, h⟩) (h' | ⟨hlacks', h'⟩)
        · exact h.unique h'
        · exact absurd h (hlacks' w)
        · exact absurd h' (hlacks w')
        · exact h.unique h'
      rw [hparameters.unique hgiven hparameters', hcomplexity.unique (fun _ _ => Value.Holds.unique) hcomplexity']
  | classDecl hv hr hfact hmethods hinheritance =>
    cases h' with
    | classDecl hv' hr' hfact' hmethods' hinheritance' =>
      cases hv.unique hv'
      cases hr.unique hr'
      cases hfact.unique hfact'
      rw [hmethods.unique (fun _ _ => Value.Holds.unique) hmethods',
        hinheritance.unique (fun _ _ => Value.Holds.unique) hinheritance']
  | dependency hv hr hexternal hdotted =>
    cases h' with
    | dependency hv' hr' hexternal' hdotted' =>
      cases hv.unique hv'
      cases hr.unique hr'
      rw [Bool.eq_iff_iff.2 (hexternal.trans hexternal'.symm), Bool.eq_iff_iff.2 (hdotted.trans hdotted'.symm)]

end Carries

section Decisive

variable {records : List Value} {x : Entity} {v fact : Value} {r : Record} {p : Properties} {path name importPath : String}

theorem given_statements :
    given (statements records) x = (readRecords records).flatMap fun r => given (recordStatements r) x := by
  simp [given, statements, List.filterMap_flatMap]

def givenBy (x : Entity) (v : Value) : List Properties :=
  (record? v).toList.flatMap fun r => given (recordStatements r) x

theorem given_statements_eq_flatMap : given (statements records) x = records.flatMap (givenBy x) := by
  rw [given_statements, readRecords, List.filterMap_eq_flatMap_toList, List.flatMap_assoc]
  rfl

theorem givenBy_eq (h : Record.read? v = .ok (some r)) : givenBy x v = given (recordStatements r) x := by
  rw [givenBy, record?_eq_some.2 h]
  exact List.append_nil _

theorem givenBy_ne_nil_iff (h : ∃ o, Record.read? v = .ok o) : givenBy x v ≠ [] ↔ MentionedBy x v := by
  obtain ⟨o, ho⟩ := h
  simp only [MentionedBy, describes_iff ho]
  cases o with
  | none => simp [givenBy, record?, ho]
  | some r => simp [givenBy_eq ho, given_ne_nil_iff, mentions_iff]

theorem MentionedBy.exists_describes (h : MentionedBy x v) (hread : ∃ o, Record.read? v = .ok o) :
    ∃ r, Describes v r ∧ Mentions r x ∧ givenBy x v = given (recordStatements r) x := by
  obtain ⟨r, hr, hx⟩ := h
  obtain ⟨o, ho⟩ := hread
  cases (describes_iff ho).1 hr
  exact ⟨r, hr, hx, givenBy_eq ho⟩

theorem exists_last_of_decisive (hread : ∀ v ∈ records, ∃ o, Record.read? v = .ok o) (hx : x.keepsFirst = false)
    (h : decisive (statements records) x = some p) :
    ∃ v r, IsLast (MentionedBy x) records v ∧ Describes v r ∧ Mentions r x ∧
      (given (recordStatements r) x).getLast? = some p := by
  rw [decisive, hx, if_neg Bool.false_ne_true, given_statements_eq_flatMap] at h
  obtain ⟨v, hlast, hv⟩ := exists_isLast_of_getLast?_flatMap h
  have hlast := hlast.congr fun v hv => givenBy_ne_nil_iff (hread v hv)
  obtain ⟨r, hr, hx, hgiven⟩ := hlast.mem_and.2.exists_describes (hread v hlast.mem_and.1)
  exact ⟨v, r, hlast, hr, hx, hgiven ▸ hv⟩

theorem exists_first_of_decisive (hread : ∀ v ∈ records, ∃ o, Record.read? v = .ok o) (hx : x.keepsFirst = true)
    (h : decisive (statements records) x = some p) :
    ∃ v r, IsFirst (MentionedBy x) records v ∧ Describes v r ∧ Mentions r x ∧
      (given (recordStatements r) x).head? = some p := by
  rw [decisive, hx, if_pos rfl, given_statements_eq_flatMap] at h
  obtain ⟨v, hfirst, hv⟩ := exists_isFirst_of_head?_flatMap h
  have hfirst := hfirst.congr fun v hv => givenBy_ne_nil_iff (hread v hv)
  obtain ⟨r, hr, hx, hgiven⟩ := hfirst.mem_and.2.exists_describes (hread v hfirst.mem_and.1)
  exact ⟨v, r, hfirst, hr, hx, hgiven ▸ hv⟩

/-- What a list of facts says of the entity of a name comes from the last fact of that name. -/
theorem exists_last_fact {entity : String → Entity} (hentity : ∀ a b, entity a = entity b → a = b)
    {draft : String → Value → NodeDraft} {facts : List Value}
    (h : (given (facts.flatMap (factStatements entity path draft)) (entity name)).getLast? = some p) :
    ∃ fact, IsLast (NamedAs · name) facts fact ∧ (draft name fact).properties = p := by
  have hgiven : ∀ fact, given (factStatements entity path draft fact) (entity name) ≠ [] ↔ NamedAs fact name := by
    intro fact
    rw [given_ne_nil_iff, ← List.flatMap_singleton (factStatements entity path draft) fact,
      exists_mention_factStatements]
    constructor
    · rintro ⟨fact', hfact, name', hname, heq⟩
      cases List.mem_singleton.1 hfact
      cases hentity _ _ heq
      exact hname
    · exact fun h => ⟨fact, List.mem_singleton_self fact, name, h, rfl⟩
  rw [given, List.filterMap_flatMap] at h
  obtain ⟨fact, hlast, hfact⟩ := exists_isLast_of_getLast?_flatMap h
  have hlast := hlast.congr fun fact _ => hgiven fact
  refine ⟨fact, hlast, ?_⟩
  rw [factStatements, namedAs_iff.1 hlast.mem_and.2] at hfact
  simpa [List.filterMap_cons, Statement.given?] using hfact

theorem mem_given_iff {ss : List Statement} : p ∈ given ss x ↔ .mention x p ∈ ss := by
  simp only [given, List.mem_filterMap]
  constructor
  · rintro ⟨s, hs, h⟩
    cases s with
    | fact f => cases h
    | mention y q =>
      simp only [Statement.given?, Option.ite_none_right_eq_some, Option.some.injEq] at h
      obtain ⟨rfl, rfl⟩ := h
      exact hs
  · exact fun h => ⟨_, h, if_pos rfl⟩

/-- A record gives a dependency what its language makes of the import. -/
theorem mention_dependency_mem_recordStatements (h : .mention (.dependency importPath) p ∈ recordStatements r) :
    .text importPath ∈ r.imports ∧ p = (dependencyDraft r.language importPath).properties := by
  rcases List.mem_cons.1 h with h | h
  · cases h
  rcases List.mem_append.1 h with h | h
  · rcases List.mem_append.1 h with h | h
    · obtain ⟨_, _, _, _, hx⟩ := exists_mention_factStatements.1 ⟨p, h⟩
      cases hx
    · obtain ⟨_, _, _, _, hx⟩ := exists_mention_factStatements.1 ⟨p, h⟩
      cases hx
  · obtain ⟨entry, hentry, h⟩ := List.mem_flatMap.1 h
    unfold importStatements at h
    cases hname : importName? entry with
    | none => simp [hname] at h
    | some name =>
      obtain ⟨rfl, -⟩ := importName?_eq_some.1 hname
      simp only [hname, List.mem_cons, Statement.mention.injEq, Entity.dependency.injEq, reduceCtorEq,
        List.not_mem_nil, or_false] at h
      obtain ⟨rfl, rfl⟩ := h
      exact ⟨hentry, rfl⟩

theorem given_eq_nil {ss : List Statement} (h : ¬ ∃ p, .mention x p ∈ ss) : given ss x = [] := by
  by_contra hne
  exact h (given_ne_nil_iff.1 hne)

theorem given_factStatements_eq_nil {entity : String → Entity} {draft : String → Value → NodeDraft}
    {facts : List Value} (h : ∀ name, x ≠ entity name) :
    given (facts.flatMap (factStatements entity path draft)) x = [] := by
  refine given_eq_nil fun hx => ?_
  obtain ⟨-, -, name, -, rfl⟩ := exists_mention_factStatements.1 hx
  exact h name rfl

theorem given_importStatements_eq_nil {language : Value} {imports : List Value}
    (h : ∀ importPath, x ≠ .dependency importPath) :
    given (imports.flatMap (importStatements path language)) x = [] := by
  refine given_eq_nil fun hx => ?_
  obtain ⟨importPath, -, -, rfl⟩ := exists_mention_importStatements.1 hx
  exact h importPath rfl

theorem given_recordStatements (r : Record) (x : Entity) : given (recordStatements r) x =
    given [.mention (.file r.path.shown) (fileDraft r).properties] x ++
      (given (r.functions.flatMap (factStatements (.function r.path.shown) r.path.shown (functionDraft r.path))) x ++
        given (r.classes.flatMap (factStatements (.classDecl r.path.shown) r.path.shown (classDraft r.path))) x ++
        given (r.imports.flatMap (importStatements r.path.shown r.language)) x) := by
  simp only [given, recordStatements, ← List.filterMap_append, List.singleton_append]

theorem given_record_file : given (recordStatements r) (.file r.path.shown) = [(fileDraft r).properties] := by
  have hfunctions : ∀ name, Entity.file r.path.shown ≠ .function r.path.shown name := nofun
  have hclasses : ∀ name, Entity.file r.path.shown ≠ .classDecl r.path.shown name := nofun
  have himports : ∀ importPath, Entity.file r.path.shown ≠ .dependency importPath := nofun
  rw [given_recordStatements, given_factStatements_eq_nil hfunctions, given_factStatements_eq_nil hclasses,
    given_importStatements_eq_nil himports]
  simp [given, Statement.given?]

theorem given_record_function : given (recordStatements r) (.function r.path.shown name) =
    given (r.functions.flatMap (factStatements (.function r.path.shown) r.path.shown (functionDraft r.path)))
      (.function r.path.shown name) := by
  have hclasses : ∀ a, Entity.function r.path.shown name ≠ .classDecl r.path.shown a := nofun
  have himports : ∀ importPath, Entity.function r.path.shown name ≠ .dependency importPath := nofun
  rw [given_recordStatements, given_factStatements_eq_nil hclasses, given_importStatements_eq_nil himports]
  simp [given, Statement.given?]

theorem given_record_classDecl : given (recordStatements r) (.classDecl r.path.shown name) =
    given (r.classes.flatMap (factStatements (.classDecl r.path.shown) r.path.shown (classDraft r.path)))
      (.classDecl r.path.shown name) := by
  have hfunctions : ∀ a, Entity.classDecl r.path.shown name ≠ .function r.path.shown a := nofun
  have himports : ∀ importPath, Entity.classDecl r.path.shown name ≠ .dependency importPath := nofun
  rw [given_recordStatements, given_factStatements_eq_nil hfunctions, given_importStatements_eq_nil himports]
  simp [given, Statement.given?]

theorem path_eq_of_describes (hread : ∃ r path, Record.read? v = .ok (some r) ∧ r.path = .text path)
    (hr : Describes v r) (hpath : r.path.shown = path) : r.path = .text path := by
  obtain ⟨r', path', hr', hpath'⟩ := hread
  cases (describes_iff hr').1 hr
  rw [hpath'] at hpath
  rw [hpath', ← hpath]
  rfl

theorem holds_iff_factField? {w : Value} : fact.Holds name w ↔ factField? name fact = some w := by
  cases fact with
  | object entries => exact Value.holds_object_iff
  | scalar k => exact iff_of_false (fun h => by cases Value.holds_iff_field?.1 h) nofun
  | list items => exact iff_of_false (fun h => by cases Value.holds_iff_field?.1 h) nofun

theorem lists_factField (fact : Value) (name : String) :
    Lists (fact.Holds name) ((factField? name fact).getD .null).asList :=
  (lists_iff fun _ => holds_iff_factField?).2 rfl

theorem settles_factField (fact : Value) (name : String) (default : Value) :
    Settles (fact.Holds name) default (((factField? name fact).getD .null).orElse default) :=
  (@settles_iff _ _ _ _ (fun _ => holds_iff_factField?) .null rfl).2 rfl

theorem lists_parameters (fact : Value) :
    Lists (fun w => fact.Holds "params" w ∨ fact.Lacks "params" ∧ fact.Holds "parameters" w)
      ((factField? "params" fact).getD ((factField? "parameters" fact).getD .null)).asList := by
  have hsource : ∀ w, fact.Holds "params" w ∨ fact.Lacks "params" ∧ fact.Holds "parameters" w ↔
      (factField? "params" fact).or (factField? "parameters" fact) = some w := by
    intro w
    simp only [Value.Lacks, holds_iff_factField?]
    cases factField? "params" fact <;> simp
  have hlists := (lists_iff hsource).2 rfl
  rwa [Option.getD_or] at hlists

theorem exists_properties_dependency (language : Value) (importPath : String) : ∃ external dotted : Bool,
    (external = true ↔ importPath.toList.head? ≠ some '.') ∧ (dotted = true ↔ language = .text "python") ∧
      (dependencyDraft language importPath).properties =
        .ofFields [("external", .bool external), ("package", .text (packageOf dotted importPath))] := by
  cases language with
  | scalar k =>
    cases k with
    | text s => exact ⟨_, _, decide_eq_true_iff, by simp [isDotted], rfl⟩
    | _ => exact ⟨_, false, decide_eq_true_iff, by simp, rfl⟩
  | list items => exact ⟨_, false, decide_eq_true_iff, by simp, rfl⟩
  | object entries => exact ⟨_, false, decide_eq_true_iff, by simp, rfl⟩

/-- What is decisive is what is to be carried. -/
theorem carries_of_decisive
    (hread : ∀ v ∈ records, ∃ r path, Record.read? v = .ok (some r) ∧ r.path = .text path)
    (h : decisive (statements records) x = some p) : Carries records x p := by
  have hok := isOk_read? hread
  cases x with
  | file path =>
    obtain ⟨v, r, hlast, hr, rfl, hp⟩ := exists_last_of_decisive hok rfl h
    rw [given_record_file] at hp
    cases hp
    exact .file hlast hr
  | function path name =>
    obtain ⟨v, r, hlast, hr, ⟨hpath, -⟩, hp⟩ := exists_last_of_decisive hok rfl h
    have hshown := path_eq_of_describes (hread v hlast.mem_and.1) hr hpath
    rw [← hpath, given_record_function] at hp
    obtain ⟨fact, hfact, rfl⟩ := exists_last_fact (fun a b hab => by cases hab; rfl) hp
    have hcarries := Carries.function hlast hr hfact (lists_parameters fact) (settles_factField fact "complexity" _)
    rw [← hshown] at hcarries
    exact hcarries
  | classDecl path name =>
    obtain ⟨v, r, hlast, hr, ⟨hpath, -⟩, hp⟩ := exists_last_of_decisive hok rfl h
    have hshown := path_eq_of_describes (hread v hlast.mem_and.1) hr hpath
    rw [← hpath, given_record_classDecl] at hp
    obtain ⟨fact, hfact, rfl⟩ := exists_last_fact (fun a b hab => by cases hab; rfl) hp
    have hcarries := Carries.classDecl hlast hr hfact (lists_factField fact "methods")
      (lists_factField fact "inheritance")
    rw [← hshown] at hcarries
    exact hcarries
  | dependency importPath =>
    obtain ⟨v, r, hfirst, hr, -, hp⟩ := exists_first_of_decisive hok rfl h
    obtain ⟨-, rfl⟩ := mention_dependency_mem_recordStatements (mem_given_iff.1 (List.mem_of_mem_head? hp))
    obtain ⟨external, dotted, hexternal, hdotted, hproperties⟩ := exists_properties_dependency r.language importPath
    exact hproperties ▸ .dependency hfirst hr hexternal hdotted

end Decisive

end Ingestion

end CodeAtlas
