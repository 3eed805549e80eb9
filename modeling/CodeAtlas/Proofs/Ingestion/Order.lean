import CodeAtlas.Proofs.Graph.Connections
import CodeAtlas.Proofs.Ingestion.Faithful
import Mathlib.Data.List.Perm.Basic

/-! Ingestion and the order of the files. Where every file has its own record, only dependencies are shared
between records, and only the package of a dependency is owed to the file that imports it first: its
language decides how the package is read off the import. Everything else that ingestion leaves is the
same for every order. -/

namespace CodeAtlas

theorem flatMap_eq_of_perm {α β : Type} {f : α → List β} {as bs : List α} (h : as.Perm bs)
    (hf : as.Pairwise fun a b => f a = [] ∨ f b = []) : as.flatMap f = bs.flatMap f := by
  induction h with
  | nil => rfl
  | cons a _ ih => rw [List.flatMap_cons, List.flatMap_cons, ih (List.pairwise_cons.1 hf).2]
  | swap a b rest =>
    have hab : f b = [] ∨ f a = [] := (List.pairwise_cons.1 hf).1 a List.mem_cons_self
    rcases hab with h | h <;> simp [h]
  | trans h _ ih ih' =>
    have hmiddle := (h.pairwise_iff fun {_ _} hab => hab.symm).1 hf
    rw [ih hf, ih' hmiddle]

/-- Two options are related if what is in one has a counterpart in the other, and the other way round. -/
theorem rel_of_forall {α β : Type} {R : α → β → Prop} {a : Option α} {b : Option β}
    (h : ∀ x, a = some x → ∃ y, b = some y ∧ R x y) (h' : ∀ y, b = some y → ∃ x, a = some x) :
    Option.Rel R a b := by
  cases a with
  | some x =>
    obtain ⟨y, rfl, hxy⟩ := h x rfl
    exact .some hxy
  | none =>
    cases b with
    | none => exact .none
    | some y =>
      obtain ⟨x, hx⟩ := h' y rfl
      cases hx

namespace Ingestion

/-- The file that an entity belongs to; dependencies belong to none. -/
def Entity.path? : Entity → Option String
  | file path => some path
  | function path _ => some path
  | classDecl path _ => some path
  | dependency _ => none

/-- Whether no id stands for two entities or for two facts. -/
structure DistinctIds (records : List Value) : Prop where
  entities : ∀ x y, Mentioned records x → Mentioned records y → x.id = y.id → x = y
  facts : ∀ f f', Stated records f → Stated records f' → f.id = f'.id → f = f'

/-- Whether two files that import a name give different properties to the dependency. -/
def Disputed (records : List Value) (importPath : String) : Prop :=
  ∃ r ∈ readRecords records, ∃ r' ∈ readRecords records,
    .text importPath ∈ r.imports ∧ .text importPath ∈ r'.imports ∧
    (dependencyDraft r.language importPath).properties ≠
      (dependencyDraft r'.language importPath).properties

/-- Whether two nodes differ in nothing but their times and, if the files that import a dependency disagree
on its package, in that package. -/
structure SameNode (records : List Value) (n n' : Node) : Prop where
  id : n'.id = n.id
  kind : n'.kind = n.kind
  name : n'.name = n.name
  connections : ∀ x, n'.connections.contains x = n.connections.contains x
  properties : n'.properties = n.properties ∨ ∃ importPath package,
    n.id = .text (Entity.dependency importPath).id ∧ Disputed records importPath ∧
      n'.properties = n.properties.insert (.text "package") package

section Given

variable {records records' : List Value} {x : Entity} {path importPath : String} {p : Properties}

theorem path?_of_given_ne_nil {r : Record} (hpath : r.path = .text path) (hx : x.keepsFirst = false)
    (h : given (recordStatements r) x ≠ []) : x.path? = some path := by
  have hshown : r.path.shown = path := by
    rw [hpath]
    rfl
  rcases exists_mention_recordStatements.1 (given_ne_nil_iff.1 h) with
    rfl | ⟨-, -, name, -, rfl⟩ | ⟨-, -, name, -, rfl⟩ | ⟨importPath, -, -, rfl⟩
  · exact congrArg some hshown
  · exact congrArg some hshown
  · exact congrArg some hshown
  · cases hx

/-- What is decisive about an entity of a file does not depend on the order of the files. -/
theorem decisive_eq_of_perm (hperm : (readRecords records).Perm (readRecords records'))
    (hpath : ∀ r ∈ readRecords records, ∃ path, r.path = .text path)
    (hdistinct : (readRecords records).Pairwise fun r r' => r.path ≠ r'.path)
    (hx : x.keepsFirst = false) :
    decisive (statements records) x = decisive (statements records') x := by
  have hgiven : given (statements records) x = given (statements records') x := by
    rw [given_statements, given_statements]
    refine flatMap_eq_of_perm hperm (hdistinct.imp_of_mem fun {r r'} hr hr' hne => ?_)
    by_contra hboth
    rw [not_or] at hboth
    obtain ⟨path, hp⟩ := hpath r hr
    obtain ⟨path', hp'⟩ := hpath r' hr'
    have howner := path?_of_given_ne_nil hp hx hboth.1
    have howner' := path?_of_given_ne_nil hp' hx hboth.2
    refine hne ?_
    rw [hp, hp', Option.some.inj (howner.symm.trans howner')]
  rw [decisive, decisive, hgiven]

/-- The decisive properties of a dependency come from a file that imports it. -/
theorem exists_importer (h : decisive (statements records) (.dependency importPath) = some p) :
    ∃ r ∈ readRecords records, .text importPath ∈ r.imports ∧
      p = (dependencyDraft r.language importPath).properties := by
  have hgiven : p ∈ given (statements records) (.dependency importPath) := List.mem_of_head? h
  rw [given_statements] at hgiven
  obtain ⟨r, hr, hgiven⟩ := List.mem_flatMap.1 hgiven
  obtain ⟨s, hs, hp⟩ := List.mem_filterMap.1 hgiven
  cases s with
  | fact f => cases hp
  | mention y q =>
    by_cases hy : y = .dependency importPath
    · subst hy
      simp only [Statement.given?, if_true, Option.some.injEq] at hp
      exact ⟨r, hr, mention_dependency_mem_recordStatements (hp ▸ hs)⟩
    · simp [Statement.given?, hy] at hp

theorem dependencyDraft_properties_eq (language language' : Value) (importPath : String) :
    ∃ package, (dependencyDraft language' importPath).properties =
      (dependencyDraft language importPath).properties.insert (.text "package") package :=
  ⟨_, rfl⟩

theorem exists_mention_of_decisive {ss : List Statement} (h : decisive ss x = some p) :
    ∃ q, .mention x q ∈ ss := by
  refine given_ne_nil_iff.1 fun hnil => ?_
  rw [decisive, hnil] at h
  split at h <;> cases h

/-- In another order of the files an entity gets the same properties, but for a package on which the files
that import it disagree. -/
theorem properties_of_perm {p' : Properties} (hperm : (readRecords records).Perm (readRecords records'))
    (hpath : ∀ r ∈ readRecords records, ∃ path, r.path = .text path)
    (hdistinct : (readRecords records).Pairwise fun r r' => r.path ≠ r'.path)
    (hp : decisive (statements records) x = some p)
    (hp' : decisive (statements records') x = some p') :
    p' = p ∨ ∃ importPath package, x = .dependency importPath ∧ Disputed records importPath ∧
      p' = p.insert (.text "package") package := by
  cases hfirst : x.keepsFirst with
  | false =>
    rw [decisive_eq_of_perm hperm hpath hdistinct hfirst, hp'] at hp
    exact Or.inl (Option.some.inj hp)
  | true =>
    cases x with
    | dependency importPath =>
      obtain ⟨r, hr, himport, rfl⟩ := exists_importer hp
      obtain ⟨r', hr', himport', rfl⟩ := exists_importer hp'
      by_cases heq : (dependencyDraft r'.language importPath).properties =
          (dependencyDraft r.language importPath).properties
      · exact Or.inl heq
      · obtain ⟨package, hpackage⟩ := dependencyDraft_properties_eq r.language r'.language importPath
        have hdisputed : Disputed records importPath :=
          ⟨r, hr, r', hperm.mem_iff.2 hr', himport, himport', Ne.symm heq⟩
        exact Or.inr ⟨importPath, package, rfl, hdisputed, hpackage⟩
    | _ => cases hfirst

end Given

section Graphs

variable {now now' : String} {ss ss' : List Statement} {g g' : Graph}

theorem Statement.write_mention (x : Entity) (p : Properties) :
    (mention x p).write = .newNode (.text x.id) (x.draft p) ∨
      (mention x p).write = .node (.text x.id) (x.draft p) := by
  rw [write]
  cases x.keepsFirst
  · exact Or.inr rfl
  · exact Or.inl rfl

theorem Distinguished.of_mem_iff (h : Distinguished ss) (hsame : ∀ s, s ∈ ss ↔ s ∈ ss') :
    Distinguished ss' :=
  fun x p y q hx hy => h x p y q ((hsame _).2 hx) ((hsame _).2 hy)

theorem Reflects.exists_node {x : Entity} {p : Properties} (h : Reflects now ss g)
    (hd : Distinguished ss) (hx : .mention x p ∈ ss) :
    ∃ n, g.nodes.get? (.text x.id) = some n ∧ n.kind = x.kind ∧ n.name = .text x.name ∧
      decisive ss x = some n.properties := by
  obtain ⟨n, hn⟩ := Graph.hasNode_iff.1 (h.mentioned x p hx)
  obtain ⟨y, q, hy, hid, hshown⟩ := h.shown _ n hn
  have hxy := hd x p y q hx hy (Scalar.text.inj hid)
  subst hxy
  exact ⟨n, hn, hshown⟩

/-- Graphs that hold the same statements have nodes for the same entities. -/
theorem Reflects.rel_nodes (h : Reflects now ss g) (h' : Reflects now' ss' g')
    (hsame : ∀ s, s ∈ ss ↔ s ∈ ss') (hd : Distinguished ss) (k : Scalar) :
    Option.Rel (fun n n' => ∃ x, k = .text x.id ∧ n.kind = x.kind ∧ n'.kind = x.kind ∧
        n.name = .text x.name ∧ n'.name = .text x.name ∧
        decisive ss x = some n.properties ∧ decisive ss' x = some n'.properties)
      (g.nodes.get? k) (g'.nodes.get? k) := by
  refine rel_of_forall (fun n hn => ?_) fun n' hn' => ?_
  · obtain ⟨x, p, hx, rfl, hkind, hname, hprops⟩ := h.shown k n hn
    obtain ⟨n', hn', hkind', hname', hprops'⟩ :=
      h'.exists_node (hd.of_mem_iff hsame) ((hsame _).1 hx)
    exact ⟨n', hn', x, rfl, hkind, hkind', hname, hname', hprops, hprops'⟩
  · obtain ⟨x, p, hx, rfl, -⟩ := h'.shown k n' hn'
    exact Graph.hasNode_iff.1 (h.mentioned x p ((hsame _).2 hx))

/-- They have edges for the same facts. -/
theorem Reflects.rel_edges (h : Reflects now ss g) (h' : Reflects now' ss' g')
    (hsame : ∀ s, s ∈ ss ↔ s ∈ ss')
    (hfacts : ∀ f f', .fact f ∈ ss → .fact f' ∈ ss → f.id = f'.id → f = f') (k : Scalar) :
    Option.Rel (fun e e' => ∃ f : Fact, e = f.edge now ∧ e' = f.edge now')
      (g.edges.get? k) (g'.edges.get? k) := by
  refine rel_of_forall (fun e he => ?_) fun e' he' => ?_
  · obtain ⟨f, hf, rfl, rfl⟩ := h.stated k e he
    obtain ⟨e', he'⟩ := Table.contains_iff.1 (h'.stored f ((hsame _).1 hf))
    obtain ⟨f', hf', hid, rfl⟩ := h'.stated _ e' he'
    have hff' := hfacts f f' hf ((hsame _).2 hf') (Scalar.text.inj hid)
    subst hff'
    exact ⟨_, he', f, rfl, rfl⟩
  · obtain ⟨f, hf, rfl, -⟩ := h'.stated k e' he'
    exact Table.contains_iff.1 (h.stored f ((hsame _).2 hf))

/-- Writing statements stores edges of facts that are stated, and so every node lists exactly the edges that
touch it if facts have their own ids. -/
theorem exact_of_run (hrun : (Write.runAll now (ss.map Statement.write)).run .empty = .ok () g)
    (hfacts : ∀ f f', .fact f ∈ ss → .fact f' ∈ ss → f.id = f'.id → f = f') : g.Exact := by
  have hdrafts : ∀ w ∈ ss.map Statement.write, w.Drafts fun id _ => id.IsText := by
    intro w hw
    obtain ⟨s, -, rfl⟩ := List.mem_map.1 hw
    cases s with
    | mention x p => rcases Statement.write_mention x p with h | h <;> exact h ▸ ⟨_, rfl⟩
    | fact f => trivial
  have hempty : Graph.Recorded .empty [] := ⟨.empty, Graph.textIds_empty, fun _ h => nomatch h⟩
  have hkept : Kept now (fun id _ => id.IsText) Graph.Recorded := Graph.recorded_kept
  have hrec := hkept.runAll hdrafts hempty
  rw [Change.after_of_ok hrun, List.nil_append] at hrec
  have hstored : ∀ e ∈ Write.storedAll now (ss.map Statement.write) .empty,
      ∃ f, .fact f ∈ ss ∧ e = f.edge now := by
    intro e he
    obtain ⟨w, hw, g', hg'⟩ := Write.exists_of_mem_storedAll he
    obtain ⟨s, hs, rfl⟩ := List.mem_map.1 hw
    cases s with
    | mention x p => rcases Statement.write_mention x p with h | h <;> cases h ▸ hg'
    | fact f =>
      have hstrength : Graph.strengthOf ∅ = .ok 1.0 := rfl
      rw [Statement.write] at hg'
      obtain ⟨x, hx, rfl⟩ := Write.stored?_link_eq_some hg'
      cases hstrength.symm.trans hx
      exact ⟨f, hs, rfl⟩
  refine hrec.account.exact hrec.stored_texts fun e he e' he' hid => ?_
  obtain ⟨f, hf, rfl⟩ := hstored e he
  obtain ⟨f', hf', rfl⟩ := hstored e' he'
  cases hfacts f f' hf hf' (Scalar.text.inj hid)
  exact ⟨rfl, rfl⟩

end Graphs

section Permuted

variable {now now' : String} {records records' : List Value} {report : IngestionReport} {g g' : Graph}

theorem exists_path_of_mem_readRecords
    (hread : ∀ v ∈ records, ∃ r path, Record.read? v = .ok (some r) ∧ r.path = .text path) :
    ∀ r ∈ readRecords records, ∃ path, r.path = .text path := by
  intro r hr
  obtain ⟨v, hv, hvr⟩ := List.mem_filterMap.1 hr
  obtain ⟨r', path, hr', hpath⟩ := hread v hv
  rw [record?, hr'] at hvr
  cases hvr
  exact ⟨path, hpath⟩

theorem DistinctIds.distinguished (h : DistinctIds records) (hok : ∀ v ∈ records, ∃ o, Record.read? v = .ok o) :
    Distinguished (statements records) := fun x p y q hx hy =>
  h.entities x y ((mentioned_iff hok).2 ⟨p, hx⟩) ((mentioned_iff hok).2 ⟨q, hy⟩)

theorem DistinctIds.fact_injective (h : DistinctIds records) (hok : ∀ v ∈ records, ∃ o, Record.read? v = .ok o)
    (f f' : Fact) (hf : .fact f ∈ statements records) (hf' : .fact f' ∈ statements records)
    (hid : f.id = f'.id) : f = f' :=
  h.facts f f' ((stated_iff hok).2 hf) ((stated_iff hok).2 hf') hid

theorem exact_of_ingest (hrun : (ingest now records).run .empty = .ok report g)
    (hread : ∀ v ∈ records, ∃ r path, Record.read? v = .ok (some r) ∧ r.path = .text path)
    (hfacts : ∀ f f', .fact f ∈ statements records → .fact f' ∈ statements records →
      f.id = f'.id → f = f') : g.Exact := by
  have heffect : (Write.runAll now ((statements records).map Statement.write)).run .empty = .ok () g := by
    rw [← writes_eq hread, ← ingest_effect Graph.linked_empty.nodes_keyed, Change.effect, hrun]
  exact exact_of_run heffect hfacts

/-- Where edges are the same but for their times, so are the connections of nodes of the same id. -/
theorem contains_connections_eq {k : Scalar} {n n' : Node} (hexact : g.Exact) (hexact' : g'.Exact)
    (hedges : ∀ k, Option.Rel (fun e e' => ∃ f : Fact, e = f.edge now ∧ e' = f.edge now')
      (g.edges.get? k) (g'.edges.get? k))
    (hn : g.nodes.get? k = some n) (hn' : g'.nodes.get? k = some n') (hid : n'.id = n.id) (x : Scalar) :
    n'.connections.contains x = n.connections.contains x := by
  have htouch : (∃ e', g'.edges.get? x = some e' ∧ e'.Touches n.id) ↔
      ∃ e, g.edges.get? x = some e ∧ e.Touches n.id := by
    have hrel := hedges x
    generalize g.edges.get? x = a at hrel ⊢
    generalize g'.edges.get? x = b at hrel ⊢
    cases hrel with
    | none => simp
    | some hf =>
      obtain ⟨f, rfl, rfl⟩ := hf
      simp [Fact.edge, Graph.relationship, Edge.Touches]
  rw [Bool.eq_iff_iff, hexact' k n' hn', hexact k n hn, hid, htouch]

theorem pairwise_path_readRecords
    (hdistinct : records.Pairwise fun v w => v.field "path" ≠ w.field "path") :
    (readRecords records).Pairwise fun r r' => r.path ≠ r'.path := by
  refine List.pairwise_filterMap.2 (hdistinct.imp fun {v w} hne r hr r' hr' heq => ?_)
  refine hne ?_
  rw [field_path_of_read? (record?_eq_some.1 hr), field_path_of_read? (record?_eq_some.1 hr'), heq]

/-- Records of different files leave the same graph in every order: the same nodes, but for their times and
for packages on which the files disagree, and the same edges, but for their times. -/
theorem ingest_of_perm (hrun : (ingest now records).run .empty = .ok report g)
    (hpaths : ∀ v ∈ records, hasTextPath v = true)
    (hdistinct : records.Pairwise fun v w => v.field "path" ≠ w.field "path")
    (hids : DistinctIds records) (hperm : records.Perm records') (now' : String) :
    ∃ report' g', (ingest now' records').run .empty = .ok report' g' ∧
      (∀ k, Option.Rel (SameNode records) (g.nodes.get? k) (g'.nodes.get? k)) ∧
      ∀ k, Option.Rel (fun e e' => e' = { e with created := e'.created })
        (g.edges.get? k) (g'.edges.get? k) := by
  have heffect : (Write.runAll now (writes records)).run .empty = .ok () g := by
    rw [← ingest_effect Graph.linked_empty.nodes_keyed, Change.effect_of_ok hrun]
  have hread := read?_of_run hpaths heffect
  have hpath := exists_path_of_mem_readRecords hread
  have hreads : (readRecords records).Perm (readRecords records') := hperm.filterMap record?
  have hsame : ∀ s, s ∈ statements records ↔ s ∈ statements records' :=
    fun s => (hreads.flatMap_right recordStatements).mem_iff
  have hd := hids.distinguished (isOk_read? hread)
  have hfacts := hids.fact_injective (isOk_read? hread)
  obtain ⟨report₀, g₀, hrun₀, h⟩ := exists_ingest now hread hd
  cases hrun.symm.trans hrun₀
  obtain ⟨report', g', hrun', h'⟩ := exists_ingest now' (fun v hv => hread v (hperm.mem_iff.2 hv))
    (hd.of_mem_iff hsame)
  have hexact := exact_of_ingest hrun hread hfacts
  have hexact' := exact_of_ingest hrun' (fun v hv => hread v (hperm.mem_iff.2 hv))
    fun f f' hf hf' => hfacts f f' ((hsame _).2 hf) ((hsame _).2 hf')
  have hedges := h.rel_edges h' hsame hfacts
  refine ⟨report', g', hrun', fun k => ?_, fun k => ?_⟩
  · have hrel := h.rel_nodes h' hsame hd k
    generalize hn : g.nodes.get? k = a at hrel ⊢
    generalize hn' : g'.nodes.get? k = b at hrel ⊢
    cases hrel with
    | none => exact .none
    | @some n n' hx =>
      obtain ⟨x, rfl, hkind, hkind', hname, hname', hprops, hprops'⟩ := hx
      have hid : n.id = .text x.id := Scalar.canon_eq_text_iff.1 (h.keyed _ n hn)
      have hid' : n'.id = .text x.id := Scalar.canon_eq_text_iff.1 (h'.keyed _ n' hn')
      refine .some ⟨hid'.trans hid.symm, hkind'.trans hkind.symm, hname'.trans hname.symm, ?_, ?_⟩
      · exact contains_connections_eq hexact hexact' hedges hn hn' (hid'.trans hid.symm)
      · have hpaths := pairwise_path_readRecords hdistinct
        refine (properties_of_perm hreads hpath hpaths hprops hprops').imp_right ?_
        rintro ⟨importPath, package, rfl, hdisputed, hpackage⟩
        exact ⟨importPath, package, hid, hdisputed, hpackage⟩
  · have hrel := hedges k
    generalize g.edges.get? k = a at hrel ⊢
    generalize g'.edges.get? k = b at hrel ⊢
    cases hrel with
    | none => exact .none
    | some hf =>
      obtain ⟨f, rfl, rfl⟩ := hf
      exact .some rfl

end Permuted

/-- Where pairs of path and name have their own texts and texts their own ids, no id stands for two things. -/
theorem distinctIds_of_contentId {records : List Value}
    (hok : ∀ v ∈ records, ∃ o, Record.read? v = .ok o)
    (hnames : ∀ a ∈ namedPairs records, ∀ b ∈ namedPairs records,
      a.1 ++ ":" ++ a.2 = b.1 ++ ":" ++ b.2 → a = b)
    (hdigest : ∀ t ∈ hashedTexts records, ∀ t' ∈ hashedTexts records,
      contentId t = contentId t' → t = t') : DistinctIds records where
  entities x y hx hy hid := by
    obtain ⟨p, hp⟩ := (mentioned_iff hok).1 hx
    obtain ⟨q, hq⟩ := (mentioned_iff hok).1 hy
    exact distinguished_statements hnames hdigest x p y q hp hq hid
  facts _ _ hf hf' hid :=
    fact_injective hnames hdigest ((stated_iff hok).1 hf) ((stated_iff hok).1 hf') hid

/-- Two files of different languages with the same import. -/
def mixedRecords : List Value := [
  .fields [("path", .text "a.py"), ("language", .text "python"),
    ("imports", .list [.text "os.path"])],
  .fields [("path", .text "b.js"), ("language", .text "javascript"),
    ("imports", .list [.text "os.path"])]]

theorem read?_mixedRecords :
    ∀ v ∈ mixedRecords, ∃ r path, Record.read? v = .ok (some r) ∧ r.path = .text path := by
  intro v hv
  simp only [mixedRecords, List.mem_cons, List.not_mem_nil, or_false] at hv
  rcases hv with rfl | rfl
  · exact ⟨_, _, rfl, rfl⟩
  · exact ⟨_, _, rfl, rfl⟩

set_option maxRecDepth 100000 in
theorem contentIds_mixedRecords :
    contentId "file:a.py" = "43df36487a746315" ∧
      contentId "file:b.js" = "5de9429d702ec9fa" ∧
      contentId "dependency:os.path" = "e00512af09193c52" ∧
      contentId (edgeText "43df36487a746315" "e00512af09193c52" "DEPENDS_ON") =
        "cb5de990f654df65" ∧
      contentId (edgeText "5de9429d702ec9fa" "e00512af09193c52" "DEPENDS_ON") =
        "2b80fb4a3d89cc54" := by
  decide +kernel

theorem distinctIds_mixedRecords : DistinctIds mixedRecords := by
  obtain ⟨hfile, hfile', hdependency, hedge, hedge'⟩ := contentIds_mixedRecords
  have htexts : hashedTexts mixedRecords = [
      "file:a.py", "dependency:os.path",
      edgeText (contentId "file:a.py") (contentId "dependency:os.path") "DEPENDS_ON",
      "file:b.js", "dependency:os.path",
      edgeText (contentId "file:b.js") (contentId "dependency:os.path") "DEPENDS_ON"] :=
    rfl
  have hids : ∀ p ∈ (hashedTexts mixedRecords).map (fun t => (t, contentId t)),
      ∀ q ∈ (hashedTexts mixedRecords).map (fun t => (t, contentId t)), p.2 = q.2 → p.1 = q.1 := by
    simp only [htexts, List.map_cons, List.map_nil, hfile, hfile', hdependency, hedge, hedge']
    decide
  refine distinctIds_of_contentId (isOk_read? read?_mixedRecords) (by decide)
    fun t ht t' ht' hid => ?_
  exact hids _ (List.mem_map_of_mem ht) _ (List.mem_map_of_mem ht') hid

theorem pairwise_path_mixedRecords :
    mixedRecords.Pairwise fun v w => v.field "path" ≠ w.field "path" := by
  refine List.pairwise_pair.2 fun h => ?_
  have hpath : (Except.ok (.text "a.py") : Checked Value) = .ok (.text "b.js") := h
  simp at hpath

theorem distinguished_mixedRecords : Distinguished (statements mixedRecords) :=
  distinctIds_mixedRecords.distinguished (isOk_read? read?_mixedRecords)

theorem ingest_of_perm_mixedRecords :
    ∃ report g report' g', (ingest "t0" mixedRecords).run .empty = .ok report g ∧
      (ingest "t1" mixedRecords.reverse).run .empty = .ok report' g' ∧
      ∀ k, Option.Rel (SameNode mixedRecords) (g.nodes.get? k) (g'.nodes.get? k) := by
  obtain ⟨report, g, hrun, -⟩ := exists_ingest "t0" read?_mixedRecords distinguished_mixedRecords
  obtain ⟨report', g', hrun', hnodes, -⟩ := ingest_of_perm hrun (by decide)
    pairwise_path_mixedRecords distinctIds_mixedRecords (List.reverse_perm _).symm "t1"
  exact ⟨report, g, report', g', hrun, hrun', hnodes⟩

/-- The package of an import depends on the order of the files that import it. -/
theorem package_of_mixedRecords :
    (∀ v ∈ mixedRecords, hasTextPath v = true) ∧
    (mixedRecords.Pairwise fun v w => v.field "path" ≠ w.field "path") ∧
    DistinctIds mixedRecords ∧
    ∃ report g report' g', (ingest "t0" mixedRecords).run .empty = .ok report g ∧
      (ingest "t0" mixedRecords.reverse).run .empty = .ok report' g' ∧
      ∃ k n n', g.nodes.get? k = some n ∧ g'.nodes.get? k = some n' ∧
        n.properties.get? (.text "package") = some (.text "os") ∧
        n'.properties.get? (.text "package") = some (.text "os.path") := by
  have hreads := (List.reverse_perm mixedRecords).symm.filterMap record?
  have hd' : Distinguished (statements mixedRecords.reverse) :=
    distinguished_mixedRecords.of_mem_iff fun s => (hreads.flatMap_right recordStatements).mem_iff
  have hread' : ∀ v ∈ mixedRecords.reverse, ∃ r path, Record.read? v = .ok (some r) ∧
      r.path = .text path := fun v hv => read?_mixedRecords v (List.mem_reverse.1 hv)
  obtain ⟨report, g, hrun, h⟩ := exists_ingest "t0" read?_mixedRecords distinguished_mixedRecords
  obtain ⟨report', g', hrun', h'⟩ := exists_ingest "t0" hread' hd'
  -- the first importer is the one whose language counts
  have hpython : decisive (statements mixedRecords) (.dependency "os.path") =
      some (dependencyDraft (.text "python") "os.path").properties := rfl
  have hscript : decisive (statements mixedRecords.reverse) (.dependency "os.path") =
      some (dependencyDraft (.text "javascript") "os.path").properties := rfl
  obtain ⟨p, hp⟩ := exists_mention_of_decisive hpython
  obtain ⟨p', hp'⟩ := exists_mention_of_decisive hscript
  obtain ⟨n, hn, -, -, hprops⟩ := h.exists_node distinguished_mixedRecords hp
  obtain ⟨n', hn', -, -, hprops'⟩ := h'.exists_node hd' hp'
  refine ⟨by decide, pairwise_path_mixedRecords, distinctIds_mixedRecords, report, g, report', g', hrun,
    hrun', _, n, n', hn, hn', ?_, ?_⟩
  · rw [← Option.some.inj (hpython.symm.trans hprops)]
    rfl
  · rw [← Option.some.inj (hscript.symm.trans hprops')]
    rfl

end Ingestion

end CodeAtlas
