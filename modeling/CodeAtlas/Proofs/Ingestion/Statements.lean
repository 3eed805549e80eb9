import CodeAtlas.Proofs.Graph.Identity
import CodeAtlas.Proofs.Ingestion.Writes

/-! What analysis records say, apart from any graph: a list of statements that mention entities with their
properties and relate them by facts. Ingestion writes exactly these statements, in this order. -/

namespace CodeAtlas

namespace Ingestion

/-- What a record can speak of; functions and classes of one name in two files are different. -/
inductive Entity where
  | file (path : String)
  | function (path name : String)
  | classDecl (path name : String)
  | dependency (importPath : String)
  deriving DecidableEq

namespace Entity

def kind : Entity → NodeKind
  | file _ => .file
  | function .. => .function
  | classDecl .. => .classDecl
  | dependency _ => .dependency

def name : Entity → String
  | file path => path
  | function _ name => name
  | classDecl _ name => name
  | dependency importPath => importPath

def identifier : Entity → String
  | file path => path
  | function path name => path ++ ":" ++ name
  | classDecl path name => path ++ ":" ++ name
  | dependency importPath => importPath

def text (x : Entity) : String := nodeText x.kind.name x.identifier

def id (x : Entity) : String := contentId x.text

/-- Whether the first mention of an entity counts; for the others the last one does. -/
def keepsFirst : Entity → Bool
  | dependency _ => true
  | _ => false

def draft (x : Entity) (properties : Properties) : NodeDraft where
  kind := x.kind
  name := some (.text x.name)
  properties := properties

theorem kind_ne_concept (x : Entity) : x.kind ≠ .concept := by cases x <;> simp [kind]

end Entity

/-- A relationship between two entities. -/
structure Fact where
  source : Entity
  target : Entity
  kind : RelationKind
  deriving DecidableEq

namespace Fact

def text (f : Fact) : String := edgeText f.source.id f.target.id f.kind.name

def id (f : Fact) : String := contentId f.text

def edge (now : String) (f : Fact) : Edge :=
  Graph.relationship now (.text f.source.id) (.text f.target.id) f.kind ∅ 1.0

@[simp] theorem edge_id {now : String} {f : Fact} : (f.edge now).id = .text f.id := rfl

end Fact

/-- One thing that records say. -/
inductive Statement where
  | mention (x : Entity) (properties : Properties)
  | fact (f : Fact)

namespace Statement

def write : Statement → Write
  | mention x properties =>
    if x.keepsFirst then .newNode (.text x.id) (x.draft properties)
    else .node (.text x.id) (x.draft properties)
  | fact f => .link (.text f.source.id) (.text f.target.id) f.kind ∅

def text : Statement → String
  | mention x _ => x.text
  | fact f => f.text

def named? : Statement → Option (String × String)
  | mention (.function path name) _ => some (path, name)
  | mention (.classDecl path name) _ => some (path, name)
  | _ => none

def given? (x : Entity) : Statement → Option Properties
  | mention y properties => if y = x then some properties else none
  | fact _ => none

end Statement

/-- What a named fact of a file says. -/
def factStatements (entity : String → Entity) (path : String)
    (draft : String → Value → NodeDraft) (fact : Value) : List Statement :=
  match factName? fact with
  | none => []
  | some name =>
    [.mention (entity name) (draft name fact).properties,
      .fact ⟨entity name, .file path, .partOf⟩]

def importStatements (path : String) (language entry : Value) : List Statement :=
  match importName? entry with
  | none => []
  | some importPath =>
    [.mention (.dependency importPath) (dependencyDraft language importPath).properties,
      .fact ⟨.file path, .dependency importPath, .dependsOn⟩]

def recordStatements (r : Record) : List Statement :=
  let path := r.path.shown
  .mention (.file path) (fileDraft r).properties ::
    (r.functions.flatMap (factStatements (.function path) path (functionDraft r.path)) ++
      r.classes.flatMap (factStatements (.classDecl path) path (classDraft r.path)) ++
      r.imports.flatMap (importStatements path r.language))

def record? (v : Value) : Option Record :=
  match Record.read? v with
  | .ok r => r
  | .error _ => none

theorem record?_eq_some {v : Value} {r : Record} : record? v = some r ↔ Record.read? v = .ok (some r) := by
  rw [record?]
  cases Record.read? v <;> simp

def readRecords (records : List Value) : List Record := records.filterMap record?

def statements (records : List Value) : List Statement :=
  (readRecords records).flatMap recordStatements

def given (ss : List Statement) (x : Entity) : List Properties := ss.filterMap (Statement.given? x)

def decisive (ss : List Statement) (x : Entity) : Option Properties :=
  if x.keepsFirst then (given ss x).head? else (given ss x).getLast?

def hashedTexts (records : List Value) : List String := (statements records).map Statement.text

def namedPairs (records : List Value) : List (String × String) :=
  (statements records).filterMap Statement.named?

/-- Whether a value is an object with a path that is a text and not empty. -/
def hasTextPath : Value → Bool
  | .object entries =>
    match lookup? (.text "path") entries with
    | some (.text path) => !path.isEmpty
    | _ => false
  | _ => false

section Writes

variable {path : String} {entity : String → Entity} {draft : String → Value → NodeDraft}

theorem factWrites_eq {fact : Value} (hfirst : ∀ name, (entity name).keepsFirst = false)
    (hdraft : ∀ name fact, draft name fact = (entity name).draft (draft name fact).properties) :
    factWrites (.text (Entity.file path).id) (fun name => (entity name).id) draft fact =
      (factStatements entity path draft fact).map Statement.write := by
  unfold factWrites factStatements
  cases factName? fact with
  | none => rfl
  | some name =>
    have hwrite : (Statement.mention (entity name) (draft name fact).properties).write =
        .node (.text (entity name).id) (draft name fact) := by
      rw [Statement.write, hfirst, ← hdraft]
      rfl
    simp only [List.map_cons, List.map_nil, hwrite]
    rfl

theorem importWrites_eq {language entry : Value} :
    importWrites (.text (Entity.file path).id) language entry =
      (importStatements path language entry).map Statement.write := by
  unfold importWrites importStatements
  cases importName? entry <;> rfl

/-- Ingesting a record writes what the record says. -/
theorem recordWrites_eq {r : Record} (h : r.path = .text path) :
    recordWrites r = (recordStatements r).map Statement.write := by
  have hshown : r.path.shown = path := by
    rw [h]
    rfl
  have hfile : fileId r.path = (Entity.file path).id := by rw [h]; rfl
  have hfunction : functionId r.path = fun name => (Entity.function path name).id := by rw [h]; rfl
  have hclass : classId r.path = fun name => (Entity.classDecl path name).id := by rw [h]; rfl
  have hdraft : fileDraft r = (Entity.file path).draft (fileDraft r).properties := by
    unfold fileDraft
    rw [h]
    rfl
  simp only [recordWrites, recordStatements, hshown, hfile, hfunction, hclass, List.map_cons,
    List.map_append, List.map_flatMap]
  congr 1
  · rw [Statement.write, ← hdraft]
    rfl
  · congr 1
    · congr 1
      · refine congrArg (List.flatMap · r.functions) (funext fun fact => ?_)
        exact factWrites_eq (fun _ => rfl) fun _ _ => rfl
      · refine congrArg (List.flatMap · r.classes) (funext fun fact => ?_)
        exact factWrites_eq (fun _ => rfl) fun _ _ => rfl
    · refine congrArg (List.flatMap · r.imports) (funext fun entry => ?_)
      exact importWrites_eq

end Writes

/-- What reading a value makes of its path: a value whose path counts as absent gives no record. -/
theorem read?_cases {v : Value} {o : Option Record} {path : Value} (h : Record.read? v = .ok o)
    (hpath : v.field "path" = .ok path) :
    (path.isFalsy = true ∧ o = none) ∨ (path.isFalsy = false ∧ ∃ r, o = some r ∧ r.path = path) := by
  cases v with
  | scalar k => cases hpath
  | list items => cases hpath
  | object entries =>
    unfold Record.read? at h
    obtain ⟨components, -, h⟩ := Except.bind_eq_ok.1 h
    obtain ⟨functions, -, h⟩ := Except.bind_eq_ok.1 h
    obtain ⟨classes, -, h⟩ := Except.bind_eq_ok.1 h
    obtain ⟨imports, -, h⟩ := Except.bind_eq_ok.1 h
    obtain ⟨path', hpath', h⟩ := Except.bind_eq_ok.1 h
    obtain ⟨language, -, h⟩ := Except.bind_eq_ok.1 h
    obtain ⟨size, -, h⟩ := Except.bind_eq_ok.1 h
    cases hpath.symm.trans hpath'
    cases hfalsy : path.isFalsy with
    | true =>
      rw [hfalsy] at h
      cases h
      exact Or.inl ⟨rfl, rfl⟩
    | false =>
      rw [hfalsy] at h
      cases h
      exact Or.inr ⟨rfl, _, rfl, rfl⟩

theorem path_of_read? {v : Value} {o : Option Record} {path : Value} (h : Record.read? v = .ok o)
    (hpath : v.field "path" = .ok path) (hne : path.isFalsy = false) :
    ∃ r, o = some r ∧ r.path = path := by
  rcases read?_cases h hpath with ⟨hfalsy, -⟩ | ⟨-, hr⟩
  · cases hfalsy.symm.trans hne
  · exact hr

theorem field_path_of_read? {v : Value} {r : Record} (h : Record.read? v = .ok (some r)) :
    v.field "path" = .ok r.path := by
  cases v with
  | scalar k => cases h
  | list items => cases h
  | object entries =>
    obtain ⟨path, hpath⟩ : ∃ path, Value.field "path" (.object entries) = .ok path := ⟨_, rfl⟩
    rcases read?_cases h hpath with ⟨-, hnone⟩ | ⟨-, r', hr, rfl⟩
    · cases hnone
    · cases hr
      exact hpath

theorem exists_path_of_hasTextPath {v : Value} (h : hasTextPath v = true) :
    ∃ path, path ≠ "" ∧ v.field "path" = .ok (.text path) := by
  unfold hasTextPath at h
  split at h
  · rename_i entries
    split at h
    · rename_i path hlookup
      refine ⟨path, ?_, ?_⟩
      · rintro rfl
        cases h
      · change Except.ok ((lookup? (.text "path") entries).getD .null) = _
        rw [hlookup]
        rfl
    · cases h
  · cases h

theorem read?_of_hasTextPath {v : Value} {o : Option Record} (hv : hasTextPath v = true)
    (h : Record.read? v = .ok o) : ∃ r path, o = some r ∧ r.path = .text path := by
  obtain ⟨path, hne, hfield⟩ := exists_path_of_hasTextPath hv
  obtain ⟨r, hr, hpath⟩ := path_of_read? h hfield (Value.isFalsy_text hne)
  exact ⟨r, path, hr, hpath⟩

/-- Where every value gives a record with a textual path, ingestion writes what they say. -/
theorem writes_eq {records : List Value}
    (h : ∀ v ∈ records, ∃ r path, Record.read? v = .ok (some r) ∧ r.path = .text path) :
    writes records = (statements records).map Statement.write := by
  induction records with
  | nil => rfl
  | cons v rest ih =>
    obtain ⟨r, path, hr, hpath⟩ := h v List.mem_cons_self
    have hrecord : record? v = some r := by rw [record?, hr]
    have hwrites : valueWrites v = (recordStatements r).map Statement.write := by
      rw [valueWrites, hr]
      exact recordWrites_eq hpath
    have hrest := ih fun w hw => h w (List.mem_cons_of_mem _ hw)
    unfold writes statements readRecords at hrest ⊢
    rw [List.flatMap_cons, List.filterMap_cons, hrecord, hwrites, hrest]
    simp

theorem exists_read?_of_run {now : String} {g g' : Graph} {records : List Value}
    (hrun : (Write.runAll now (writes records)).run g = .ok () g') : ∀ v ∈ records, ∃ o, Record.read? v = .ok o := by
  intro v hv
  cases h : Record.read? v with
  | ok o => exact ⟨o, rfl⟩
  | error e =>
    have hstop : Write.stop e ∈ writes records := by
      refine List.mem_flatMap.2 ⟨v, hv, ?_⟩
      rw [valueWrites, h]
      exact List.mem_singleton.2 rfl
    exact absurd hstop (Write.stop_notMem_of_run hrun)

theorem read?_of_run {now : String} {g g' : Graph} {records : List Value}
    (hpaths : ∀ v ∈ records, hasTextPath v = true)
    (hrun : (Write.runAll now (writes records)).run g = .ok () g') :
    ∀ v ∈ records, ∃ r path, Record.read? v = .ok (some r) ∧ r.path = .text path := by
  intro v hv
  obtain ⟨o, h⟩ := exists_read?_of_run hrun v hv
  obtain ⟨r, path, rfl, hpath⟩ := read?_of_hasTextPath (hpaths v hv) h
  exact ⟨r, path, h, hpath⟩

end Ingestion

end CodeAtlas
