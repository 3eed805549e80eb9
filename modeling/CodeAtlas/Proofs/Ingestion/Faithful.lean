import CodeAtlas.Proofs.Ingestion.Carried
import Mathlib.Data.List.Perm.Basic

/-! Ingestion is faithful: started on the empty graph it leaves exactly one node for every entity that the
records mention and one edge for every fact that they state, whatever the records repeat. What can go
wrong is that two texts share an id, or that two pairs of path and name make the same text. -/

namespace CodeAtlas

namespace Ingestion

theorem text_mem_hashedTexts {records : List Value} {s : Statement} (h : s ∈ statements records) :
    s.text ∈ hashedTexts records :=
  List.mem_map_of_mem h

theorem hasTextPath_of_holds {v : Value} {path : String} (h : v.Holds "path" (.text path)) (hne : path ≠ "") :
    hasTextPath v = true := by
  cases v with
  | object entries => simp [hasTextPath, Value.holds_object_iff.1 h, hne]
  | scalar k => cases Value.holds_iff_field?.1 h
  | list items => cases Value.holds_iff_field?.1 h

section Identity

variable {records : List Value}
  (hnames : ∀ a ∈ namedPairs records, ∀ b ∈ namedPairs records,
    a.1 ++ ":" ++ a.2 = b.1 ++ ":" ++ b.2 → a = b)
  (hdigest : ∀ t ∈ hashedTexts records, ∀ t' ∈ hashedTexts records,
    contentId t = contentId t' → t = t')

include hnames hdigest

/-- Where pairs of path and name have their own texts and texts their own ids, so have entities. -/
theorem distinguished_statements : Distinguished (statements records) := by
  intro x p y q hx hy hid
  have htext : x.text = y.text :=
    hdigest x.text (text_mem_hashedTexts hx) y.text (text_mem_hashedTexts hy) hid
  obtain ⟨hkind, hidentifier⟩ := nodeText_injective htext
  have hpair : ∀ a b, Statement.named? (.mention x p) = some a →
      Statement.named? (.mention y q) = some b → a.1 ++ ":" ++ a.2 = b.1 ++ ":" ++ b.2 → a = b :=
    fun a b ha hb => hnames a (List.mem_filterMap.2 ⟨_, hx, ha⟩) b (List.mem_filterMap.2 ⟨_, hy, hb⟩)
  cases x with
  | file path =>
    cases y with
    | file path' => exact congrArg Entity.file hidentifier
    | _ => cases hkind
  | function path name =>
    cases y with
    | function path' name' =>
      cases hpair (path, name) (path', name') rfl rfl hidentifier
      rfl
    | _ => cases hkind
  | classDecl path name =>
    cases y with
    | classDecl path' name' =>
      cases hpair (path, name) (path', name') rfl rfl hidentifier
      rfl
    | _ => cases hkind
  | dependency importPath =>
    cases y with
    | dependency importPath' => exact congrArg Entity.dependency hidentifier
    | _ => cases hkind

/-- So have facts: the id of an edge comes from those of its ends. -/
theorem fact_injective {f f' : Fact} (hf : .fact f ∈ statements records)
    (hf' : .fact f' ∈ statements records) (hid : f.id = f'.id) : f = f' := by
  have hd := distinguished_statements hnames hdigest
  have hends : ∀ f, .fact f ∈ statements records →
      (∃ p, .mention f.source p ∈ statements records) ∧
        ∃ p, .mention f.target p ∈ statements records := by
    intro f hf
    have hmentioned := (grounded_statements [] records).mentioned hf
    simpa using hmentioned
  have hmem : f.text ∈ hashedTexts records := text_mem_hashedTexts (s := .fact f) hf
  have hmem' : f'.text ∈ hashedTexts records := text_mem_hashedTexts (s := .fact f') hf'
  have htext : f.text = f'.text := hdigest _ hmem _ hmem' hid
  obtain ⟨hsource, htarget, hkind⟩ := edgeText_injective
    ((length_contentId _).trans (length_contentId _).symm)
    ((length_contentId _).trans (length_contentId _).symm) htext
  obtain ⟨⟨p, hp⟩, q, hq⟩ := hends f hf
  obtain ⟨⟨p', hp'⟩, q', hq'⟩ := hends f' hf'
  have hs := hd _ p _ p' hp hp' hsource
  have ht := hd _ q _ q' hq hq' htarget
  cases f
  cases f'
  cases hs
  cases ht
  cases hkind
  rfl

end Identity

/-- Where every value gives a record with a textual path and entities have their own ids, ingestion returns,
and the graph holds what the records say. -/
theorem exists_ingest (now : String) {records : List Value}
    (hread : ∀ v ∈ records, ∃ r path, Record.read? v = .ok (some r) ∧ r.path = .text path)
    (hd : Distinguished (statements records)) :
    ∃ report g, (ingest now records).run .empty = .ok report g ∧
      Reflects now (statements records) g := by
  have hall : Distinguished ([] ++ statements records) := hd
  obtain ⟨g, hrun, hreflects⟩ := (reflects_empty now).runAll hall (grounded_statements [] records)
    fun x hx => absurd hx List.not_mem_nil
  rw [← writes_eq hread, ← ingest_effect Graph.linked_empty.nodes_keyed, Change.effect] at hrun
  cases hresult : (ingest now records).run .empty with
  | ok report g' =>
    rw [hresult] at hrun
    cases hrun
    exact ⟨report, g, rfl, hreflects⟩
  | error e g' =>
    rw [hresult] at hrun
    cases hrun

/-- The functions and classes that records name, each with its file. -/
def Named (records : List Value) (path name : String) : Prop :=
  Mentioned records (.function path name) ∨ Mentioned records (.classDecl path name)

/-- The texts that ids are made from when records are ingested. -/
def Hashed (records : List Value) (t : String) : Prop :=
  (∃ x, Mentioned records x ∧ x.text = t) ∨ ∃ f, Stated records f ∧ f.text = t

section Read

variable {records : List Value} (hread : ∀ v ∈ records, ∃ o, Record.read? v = .ok o)

include hread

theorem mem_namedPairs_iff {path name : String} : (path, name) ∈ namedPairs records ↔ Named records path name := by
  rw [namedPairs, List.mem_filterMap, Named, mentioned_iff hread, mentioned_iff hread]
  constructor
  · rintro ⟨s, hs, hpair⟩
    cases s with
    | fact f => cases hpair
    | mention x p =>
      cases x with
      | function path name =>
        cases hpair
        exact .inl ⟨p, hs⟩
      | classDecl path name =>
        cases hpair
        exact .inr ⟨p, hs⟩
      | _ => cases hpair
  · rintro (⟨p, hp⟩ | ⟨p, hp⟩)
    · exact ⟨_, hp, rfl⟩
    · exact ⟨_, hp, rfl⟩

theorem mem_hashedTexts_iff {t : String} : t ∈ hashedTexts records ↔ Hashed records t := by
  rw [hashedTexts, List.mem_map]
  constructor
  · rintro ⟨s, hs, rfl⟩
    cases s with
    | mention x p => exact .inl ⟨x, (mentioned_iff hread).2 ⟨p, hs⟩, rfl⟩
    | fact f => exact .inr ⟨f, (stated_iff hread).2 hs, rfl⟩
  · rintro (⟨x, hx, rfl⟩ | ⟨f, hf, rfl⟩)
    · obtain ⟨p, hp⟩ := (mentioned_iff hread).1 hx
      exact ⟨_, hp, rfl⟩
    · exact ⟨_, (stated_iff hread).1 hf, rfl⟩

end Read

/-- Every record is read; the nodes are exactly the entities that the records mention, each with the
properties of its last mention, or of its first if it is a dependency; and the edges are exactly the
facts that the records state. -/
theorem nodes_and_edges_of_ingest {now : String} {records : List Value} {report : IngestionReport}
    {g : Graph} (hrun : (ingest now records).run .empty = .ok report g)
    (hpaths : ∀ v ∈ records, ∃ path, v.Holds "path" (.text path) ∧ path ≠ "")
    (hnames : ∀ path name path' name', Named records path name → Named records path' name' →
      path ++ ":" ++ name = path' ++ ":" ++ name' → path = path' ∧ name = name')
    (hdigest : ∀ t t', Hashed records t → Hashed records t' → contentId t = contentId t' → t = t') :
    (∀ v ∈ records, ∃ r, Describes v r) ∧
    (∃ xs : List Entity, xs.Nodup ∧ (∀ x, x ∈ xs ↔ Mentioned records x) ∧
      List.Forall₂ (fun x n => n.id = .text x.id ∧ n.kind = x.kind ∧ n.name = .text x.name ∧
        Carries records x n.properties) xs g.nodes.values) ∧
    ∃ fs : List Fact, fs.Nodup ∧ (∀ f, f ∈ fs ↔ Stated records f) ∧
      List.Forall₂ (fun f e => e = f.edge now) fs g.edges.values := by
  have heffect : (Write.runAll now (writes records)).run .empty = .ok () g := by
    rw [← ingest_effect Graph.linked_empty.nodes_keyed, Change.effect, hrun]
  have hpaths' : ∀ v ∈ records, hasTextPath v = true := by
    intro v hv
    obtain ⟨path, hpath, hne⟩ := hpaths v hv
    exact hasTextPath_of_holds hpath hne
  -- the run did not break off, so no value stood for an unreadable record
  have hread := read?_of_run hpaths' heffect
  have hok := isOk_read? hread
  have hpairs : ∀ a ∈ namedPairs records, ∀ b ∈ namedPairs records,
      a.1 ++ ":" ++ a.2 = b.1 ++ ":" ++ b.2 → a = b := fun a ha b hb htext =>
    Prod.ext_iff.2
      (hnames _ _ _ _ ((mem_namedPairs_iff hok).1 ha) ((mem_namedPairs_iff hok).1 hb) htext)
  have htexts : ∀ t ∈ hashedTexts records, ∀ t' ∈ hashedTexts records, contentId t = contentId t' → t = t' :=
    fun t ht t' ht' => hdigest t t' ((mem_hashedTexts_iff hok).1 ht) ((mem_hashedTexts_iff hok).1 ht')
  have hd := distinguished_statements hpairs htexts
  obtain ⟨report', g', hrun', hreflects⟩ := exists_ingest now hread hd
  cases hrun.symm.trans hrun'
  refine ⟨fun v hv => ?_, ?_, ?_⟩
  · obtain ⟨r, -, hr, -⟩ := hread v hv
    exact ⟨r, describes_of_read? hr⟩
  · refine Table.exists_listing Entity.id ?_ ?_ ?_
    · intro k n hn
      obtain ⟨x, p, hx, hk, hkind, hname, hprops⟩ := hreflects.shown k n hn
      have hid : n.id = .text x.id := by
        have hkey := hreflects.keyed k n hn
        rw [hk] at hkey
        exact Scalar.canon_eq_text_iff.1 hkey
      exact ⟨x, (mentioned_iff hok).2 ⟨p, hx⟩, hk, hid, hkind, hname, carries_of_decisive hread hprops⟩
    · intro x hx
      obtain ⟨p, hp⟩ := (mentioned_iff hok).1 hx
      exact hreflects.mentioned x p hp
    · intro x y hx hy hid
      obtain ⟨p, hp⟩ := (mentioned_iff hok).1 hx
      obtain ⟨q, hq⟩ := (mentioned_iff hok).1 hy
      exact hd x p y q hp hq hid
  · refine Table.exists_listing Fact.id ?_ ?_ ?_
    · intro k e he
      obtain ⟨f, hf, hk, hedge⟩ := hreflects.stated k e he
      exact ⟨f, (stated_iff hok).2 hf, hk, hedge⟩
    · exact fun f hf => hreflects.stored f ((stated_iff hok).1 hf)
    · intro f f' hf hf' hid
      exact fact_injective hpairs htexts ((stated_iff hok).1 hf) ((stated_iff hok).1 hf') hid

/-- A file that names one function twice and leaves an import, stated twice, to its components. -/
def sampleRecord : Value := .fields [
  ("path", .text "a.py"),
  ("functions", .list [.text "f", .fields [("name", .text "f"), ("params", .text "x")]]),
  ("components", .fields [("imports", .list [.text "os", .text "os"])])]

def sampleRecords : List Value := [sampleRecord]

def sampleReading : Record where
  path := .text "a.py"
  language := .text "text"
  size := .int 0
  functions := [.text "f", .fields [("name", .text "f"), ("params", .text "x")]]
  classes := []
  imports := [.text "os", .text "os"]

/-- What the sample says: its entities with their properties, and its facts. -/
def sampleNodes : List (Entity × Properties) := [
  (.file "a.py", .ofFields [("language", .text "text"), ("size", .int 0), ("complexity", .int 7)]),
  (.function "a.py" "f",
    .ofFields [("file", .text "a.py"), ("parameters", .list [.text "x"]), ("complexity", .int 1)]),
  (.dependency "os", .ofFields [("external", .bool true), ("package", .text "os")])]

def sampleFacts : List Fact := [
  ⟨.function "a.py" "f", .file "a.py", .partOf⟩,
  ⟨.file "a.py", .dependency "os", .dependsOn⟩]

section Sample

variable {x : Entity} {f : Fact} {p : Properties}

theorem read?_sampleRecord : Record.read? sampleRecord = .ok (some sampleReading) := rfl

theorem describes_sampleRecord : Describes sampleRecord sampleReading := describes_of_read? read?_sampleRecord

theorem read?_sampleRecords :
    ∀ v ∈ sampleRecords, ∃ r path, Record.read? v = .ok (some r) ∧ r.path = .text path := fun v hv => by
  rw [List.mem_singleton.1 hv]
  exact ⟨sampleReading, "a.py", read?_sampleRecord, rfl⟩

theorem statements_sampleRecords : statements sampleRecords = [
    .mention (.file "a.py") (fileDraft sampleReading).properties,
    .mention (.function "a.py" "f") (functionDraft (.text "a.py") "f" (.text "f")).properties,
    .fact ⟨.function "a.py" "f", .file "a.py", .partOf⟩,
    .mention (.function "a.py" "f")
      (functionDraft (.text "a.py") "f" (.fields [("name", .text "f"), ("params", .text "x")])).properties,
    .fact ⟨.function "a.py" "f", .file "a.py", .partOf⟩,
    .mention (.dependency "os") (dependencyDraft (.text "text") "os").properties,
    .fact ⟨.file "a.py", .dependency "os", .dependsOn⟩,
    .mention (.dependency "os") (dependencyDraft (.text "text") "os").properties,
    .fact ⟨.file "a.py", .dependency "os", .dependsOn⟩] := rfl

theorem mentioned_sampleRecords : Mentioned sampleRecords x ↔ x ∈ sampleNodes.map Prod.fst := by
  rw [mentioned_iff (isOk_read? read?_sampleRecords), statements_sampleRecords]
  simp [sampleNodes, exists_or]

theorem stated_sampleRecords : Stated sampleRecords f ↔ f ∈ sampleFacts := by
  rw [stated_iff (isOk_read? read?_sampleRecords), statements_sampleRecords]
  simp [sampleFacts]

theorem isLast_sampleRecord (hx : Mentions sampleReading x) : IsLast (MentionedBy x) sampleRecords sampleRecord :=
  ⟨[], [], rfl, ⟨_, describes_sampleRecord, hx⟩, nofun⟩

theorem carries_sampleRecords : ∀ e ∈ sampleNodes, Carries sampleRecords e.1 e.2 := by
  have hfact : (Value.fields [("name", .text "f"), ("params", .text "x")]).Holds "params" (.text "x") :=
    ⟨[(.text "name", .text "f")], [], rfl, by simp⟩
  have hnamed : NamedAs (.fields [("name", .text "f"), ("params", .text "x")]) "f" := namedAs_iff.2 rfl
  intro e he
  simp only [sampleNodes, List.mem_cons, List.not_mem_nil, or_false] at he
  rcases he with rfl | rfl | rfl
  · exact .file (isLast_sampleRecord rfl) describes_sampleRecord
  · refine .function (isLast_sampleRecord ⟨rfl, _, List.mem_cons_self, .bare (by decide)⟩) describes_sampleRecord
      ⟨[], _, rfl, hnamed, nofun⟩ (.single (.inl hfact) (by simp) (by simp)) (.default fun w hw => ?_)
    cases Value.holds_object_iff.1 hw
  · have hfirst : IsFirst (MentionedBy (.dependency "os")) sampleRecords sampleRecord :=
      ⟨[], [], rfl, ⟨_, describes_sampleRecord, List.mem_cons_self, by decide⟩, nofun⟩
    exact @Carries.dependency _ _ _ _ true false hfirst describes_sampleRecord (by decide) (by simp [sampleReading])

end Sample

set_option maxRecDepth 100000 in
theorem contentIds_sampleRecords :
    contentId "file:a.py" = "43df36487a746315" ∧
      contentId "function:a.py:f" = "c78bc4d4984a65dc" ∧
      contentId "dependency:os" = "92fa1be8e7a3ce13" ∧
      contentId (edgeText "c78bc4d4984a65dc" "43df36487a746315" "PART_OF") = "ef3414a06b753901" ∧
      contentId (edgeText "43df36487a746315" "92fa1be8e7a3ce13" "DEPENDS_ON") =
        "a129310a97238519" := by
  decide +kernel

theorem contentId_sampleRecords : ∀ t ∈ hashedTexts sampleRecords, ∀ t' ∈ hashedTexts sampleRecords,
    contentId t = contentId t' → t = t' := by
  obtain ⟨hfile, hfunction, hdependency, hpart, himport⟩ := contentIds_sampleRecords
  have htexts : hashedTexts sampleRecords = [
      "file:a.py", "function:a.py:f",
      edgeText (contentId "function:a.py:f") (contentId "file:a.py") "PART_OF", "function:a.py:f",
      edgeText (contentId "function:a.py:f") (contentId "file:a.py") "PART_OF",
      "dependency:os", edgeText (contentId "file:a.py") (contentId "dependency:os") "DEPENDS_ON",
      "dependency:os", edgeText (contentId "file:a.py") (contentId "dependency:os") "DEPENDS_ON"] :=
    rfl
  have hids : ∀ p ∈ (hashedTexts sampleRecords).map (fun t => (t, contentId t)),
      ∀ q ∈ (hashedTexts sampleRecords).map (fun t => (t, contentId t)), p.2 = q.2 → p.1 = q.1 := by
    simp only [htexts, List.map_cons, List.map_nil, hfile, hfunction, hdependency, hpart, himport]
    decide
  intro t ht t' ht' hid
  exact hids _ (List.mem_map_of_mem ht) _ (List.mem_map_of_mem ht') hid

theorem map_eq_of_forall₂ {α β γ : Type} {R : α → β → Prop} {as : List α} {bs : List β} {f : α → γ} {k : β → γ}
    (h : List.Forall₂ R as bs) (hk : ∀ a ∈ as, ∀ b, R a b → k b = f a) : bs.map k = as.map f := by
  induction h with
  | nil => rfl
  | @cons a b as bs hab _ ih =>
    rw [List.map_cons, List.map_cons, hk a List.mem_cons_self b hab,
      ih fun a ha => hk a (List.mem_cons_of_mem _ ha)]

/-- The ingestion of the sample leaves the nodes and edges that it says. -/
theorem nodes_and_edges_of_ingest_sampleRecords :
    ∃ report g, (ingest "t0" sampleRecords).run .empty = .ok report g ∧
      (g.nodes.values.map fun n => (n.id, n.kind, n.name, n.properties)).Perm
        (sampleNodes.map fun e => (.text e.1.id, e.1.kind, .text e.1.name, e.2)) ∧
      g.edges.values.Perm (sampleFacts.map (Fact.edge "t0")) := by
  have hpairs : ∀ a ∈ namedPairs sampleRecords, ∀ b ∈ namedPairs sampleRecords,
      a.1 ++ ":" ++ a.2 = b.1 ++ ":" ++ b.2 → a = b := by decide
  have hd : Distinguished (statements sampleRecords) := distinguished_statements hpairs contentId_sampleRecords
  obtain ⟨report, g, hrun, -⟩ := exists_ingest "t0" read?_sampleRecords hd
  have hok := isOk_read? read?_sampleRecords
  obtain ⟨-, ⟨xs, hnodup, hmem, hnodes⟩, fs, hfacts, hstated, hedges⟩ := nodes_and_edges_of_ingest hrun
    (fun v hv => ⟨"a.py", List.mem_singleton.1 hv ▸ describes_sampleRecord.path, by decide⟩)
    (fun path name path' name' h h' htext => Prod.ext_iff.1 <| hpairs _ ((mem_namedPairs_iff hok).2 h) _
      ((mem_namedPairs_iff hok).2 h') htext)
    (fun t t' ht ht' => contentId_sampleRecords t ((mem_hashedTexts_iff hok).2 ht) t'
      ((mem_hashedTexts_iff hok).2 ht'))
  refine ⟨report, g, hrun, ?_, ?_⟩
  · have hperm : (sampleNodes.map Prod.fst).Perm xs := (List.perm_ext_iff_of_nodup (by decide) hnodup).2 fun x =>
      mentioned_sampleRecords.symm.trans (hmem x).symm
    obtain ⟨ns, hns, hvalues⟩ := List.perm_comp_forall₂ hperm hnodes
    rw [List.forall₂_map_left_iff] at hns
    rw [← map_eq_of_forall₂ hns fun e he n hn => ?_]
    · exact (hvalues.map _).symm
    · obtain ⟨hid, hkind, hname, hcarries⟩ := hn
      rw [hid, hkind, hname, hcarries.unique (carries_sampleRecords e he)]
  · have hperm : sampleFacts.Perm fs := (List.perm_ext_iff_of_nodup (by decide) hfacts).2 fun f =>
      stated_sampleRecords.symm.trans (hstated f).symm
    have hvalues := map_eq_of_forall₂ hedges fun f _ e (he : id e = f.edge "t0") => he
    rw [List.map_id] at hvalues
    rw [hvalues]
    exact (hperm.map _).symm

end Ingestion

end CodeAtlas
