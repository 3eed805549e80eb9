import CodeAtlas.Proofs.Discovery.Dependents
import CodeAtlas.Proofs.Graph.RoundTrip

/-! What the passes look at. They see the nodes that are no concepts, apart from connections, and the
dependencies with the packages they lead to; so two graphs that agree on these show the same patterns, and
what shows a pattern is a node that is no concept or the source of a dependency. -/

namespace CodeAtlas

section FilterM

variable {ε α : Type} {p : α → Except ε Bool}

theorem filterAuxM_eq {xs acc : List α} :
    xs.filterAuxM p acc = (xs.filterAuxM p []).map (· ++ acc) := by
  induction xs generalizing acc with
  | nil => rfl
  | cons x rest ih =>
    rw [List.filterAuxM, List.filterAuxM]
    cases hx : p x with
    | error e => rfl
    | ok b =>
      change rest.filterAuxM p (cond b (x :: acc) acc) = (rest.filterAuxM p (cond b [x] [])).map (· ++ acc)
      rw [ih, @ih (cond b [x] [])]
      cases rest.filterAuxM p [] with
      | error e => rfl
      | ok ys => cases b <;> simp [Except.map]

theorem filterM_cons {x : α} {xs : List α} :
    (x :: xs).filterM p = do
      let b ← p x
      let ys ← xs.filterM p
      return if b then x :: ys else ys := by
  rw [List.filterM, List.filterM, List.filterAuxM]
  cases hx : p x with
  | error e => rfl
  | ok b =>
    change (xs.filterAuxM p (cond b [x] []) >>= fun ys => pure ys.reverse) = _
    rw [filterAuxM_eq]
    cases xs.filterAuxM p [] with
    | error e => rfl
    | ok ys => cases b <;> simp [Except.map, bind, Except.bind, pure, Except.pure]

end FilterM

/-- A node in which every pass finds what it looks for in a form that it can use. -/
structure Node.Scannable (n : Node) : Prop where
  named : ∃ s, n.name = .text s
  methods : ∀ v, n.properties.get? (.text "methods") = some v → ∃ items, v = .list items
  package : ∀ v, n.properties.get? (.text "package") = some v → ∃ s, v = .text s

/-- The style of a node's name; what is no text counts as mixed. -/
def Node.style (n : Node) : NamingStyle :=
  match n.name with
  | .text s => .of s
  | _ => .mixed

theorem Node.style_of_name {n : Node} {s : String} (h : n.name = .text s) : n.style = .of s := by
  rw [style, h]

namespace Discovery

section Nodes

variable {test : Node → Checked Bool} {n : Node} {ns ns' : List Node} {ids : List Scalar}

theorem idsWhere_cons :
    idsWhere test (n :: ns) = do
      let b ← test n
      let ids ← idsWhere test ns
      return if b then n.id :: ids else ids := by
  rw [idsWhere, idsWhere, filterM_cons]
  cases test n with
  | error e => rfl
  | ok b =>
    cases ns.filterM test with
    | error e => rfl
    | ok ms => cases b <;> rfl

theorem mem_idsWhere (h : idsWhere test ns = .ok ids) : ∀ r ∈ ids, ∃ n ∈ ns, n.id = r := by
  induction ns generalizing ids with
  | nil =>
    cases h
    exact fun r hr => absurd hr List.not_mem_nil
  | cons n rest ih =>
    rw [idsWhere_cons] at h
    obtain ⟨b, -, h⟩ := Except.bind_eq_ok.1 h
    obtain ⟨ids', hrest, h⟩ := Except.bind_eq_ok.1 h
    cases h
    have hthere : ∀ r ∈ ids', ∃ m ∈ n :: rest, m.id = r := by
      intro r hr
      obtain ⟨m, hm, hid⟩ := ih hrest r hr
      exact ⟨m, List.mem_cons_of_mem _ hm, hid⟩
    intro r hr
    cases b with
    | false => exact hthere r hr
    | true =>
      rcases List.mem_cons.1 hr with rfl | hr
      · exact ⟨n, List.mem_cons_self, rfl⟩
      · exact hthere r hr

/-- A test that does not see connections picks the same nodes whatever their connections are. -/
theorem idsWhere_congr (htest : ∀ n, test n.bare = test n) (h : ns'.map Node.bare = ns.map Node.bare) :
    idsWhere test ns' = idsWhere test ns := by
  have hbare : ∀ ns, idsWhere test (ns.map Node.bare) = idsWhere test ns := by
    intro ns
    induction ns with
    | nil => rfl
    | cons n rest ih =>
      rw [List.map_cons, idsWhere_cons, idsWhere_cons, ih, htest]
      rfl
  rw [← hbare ns', h, hbare]

theorem exists_idsWhere (h : ∀ n ∈ ns, ∃ b, test n = .ok b) : ∃ ids, idsWhere test ns = .ok ids := by
  induction ns with
  | nil => exact ⟨[], rfl⟩
  | cons n rest ih =>
    obtain ⟨b, hb⟩ := h n List.mem_cons_self
    obtain ⟨ids, hids⟩ := ih fun n hn => h n (List.mem_cons_of_mem _ hn)
    exact ⟨_, by rw [idsWhere_cons, hb, hids]; rfl⟩

theorem named_ok (word : String) (h : n.Scannable) : ∃ b, named word n = .ok b := by
  obtain ⟨s, hs⟩ := h.named
  exact ⟨_, by rw [named, hs]; rfl⟩

theorem hasMethod_ok (wanted : String → Bool) (h : n.Scannable) : ∃ b, hasMethod wanted n = .ok b := by
  have hnames : ∃ names, n.methodNames = .ok names := by
    unfold Node.methodNames methodNamesOf
    cases hm : n.properties.get? (.text "methods") with
    | none => exact ⟨[], rfl⟩
    | some v =>
      obtain ⟨items, rfl⟩ := h.methods v hm
      cases items with
      | nil => exact ⟨[], rfl⟩
      | cons item rest => exact ⟨_, rfl⟩
  obtain ⟨names, hnames⟩ := hnames
  exact ⟨_, by rw [hasMethod, hnames]; rfl⟩

theorem namedOrHas_ok (word : String) (wanted : String → Bool) (h : n.Scannable) :
    ∃ b, namedOrHas word wanted n = .ok b := by
  obtain ⟨b, hb⟩ := named_ok word h
  obtain ⟨b', hb'⟩ := hasMethod_ok wanted h
  cases b with
  | true => exact ⟨true, by rw [namedOrHas, hb]; rfl⟩
  | false => exact ⟨b', by rw [namedOrHas, hb]; exact hb'⟩

end Nodes

variable {g g' : Graph} {threshold : Value} {found : Found}

def IsCode (g : Graph) (r : Scalar) : Prop := ∃ n ∈ codeNodes g, n.id = r

def IsDependent (g : Graph) (r : Scalar) : Prop :=
  ∃ use ∈ uses g, use.1 = r ∧ ∃ v, use.2 = some v ∧ v.isFalsy = false

/-- Whether a node is one that a pass may find: no concept, or the source of a dependency. -/
def Shows (g : Graph) (r : Scalar) : Prop := IsCode g r ∨ ∃ use ∈ uses g, use.1 = r

theorem classes_eq : classes g = (codeNodes g).filter (·.kind = .classDecl) := by
  rw [classes, codeNodes, List.filter_filter]
  refine List.filter_congr fun n _ => ?_
  by_cases hk : n.kind = .classDecl <;> simp [hk]

theorem mem_codeNodes_of_mem_classes {n : Node} (h : n ∈ classes g) : n ∈ codeNodes g := by
  rw [classes_eq] at h
  exact List.mem_of_mem_filter h

/-- What is found is what the passes find. -/
theorem detect_ok (h : detect threshold g = .ok found) :
    ∃ singletons factories observers triads repositories services namings dependencies,
      singleton g = .ok singletons ∧ factory g = .ok factories ∧ observer g = .ok observers ∧
      mvc g = .ok triads ∧ repository g = .ok repositories ∧ service g = .ok services ∧
      naming g = .ok namings ∧ dependency threshold g = .ok dependencies ∧
      found = ⟨singletons ++ factories ++ observers, triads ++ repositories ++ services, namings,
        dependencies⟩ := by
  obtain ⟨designs, hdesign, h⟩ := Except.bind_eq_ok.1 h
  obtain ⟨architecturals, harchitectural, h⟩ := Except.bind_eq_ok.1 h
  obtain ⟨namings, hnaming, h⟩ := Except.bind_eq_ok.1 h
  obtain ⟨dependencies, hdependency, h⟩ := Except.bind_eq_ok.1 h
  cases h
  obtain ⟨singletons, hsingleton, hdesign⟩ := Except.bind_eq_ok.1 hdesign
  obtain ⟨factories, hfactory, hdesign⟩ := Except.bind_eq_ok.1 hdesign
  obtain ⟨observers, hobserver, hdesign⟩ := Except.bind_eq_ok.1 hdesign
  cases hdesign
  obtain ⟨triads, hmvc, harchitectural⟩ := Except.bind_eq_ok.1 harchitectural
  obtain ⟨repositories, hrepository, harchitectural⟩ := Except.bind_eq_ok.1 harchitectural
  obtain ⟨services, hservice, harchitectural⟩ := Except.bind_eq_ok.1 harchitectural
  cases harchitectural
  exact ⟨_, _, _, _, _, _, _, _, hsingleton, hfactory, hobserver, hmvc, hrepository, hservice, hnaming,
    hdependency, rfl⟩

/-- The pattern of a style and the nodes whose names are written in it. -/
def convention (style : NamingStyle) (ids : List Scalar) : Pattern :=
  ⟨"naming_" ++ style.name, style.name ++ " naming convention", 0.6, ids, "naming"⟩

def styleGroups (g : Graph) : List (NamingStyle × List Scalar) :=
  groupItems ((codeNodes g).map fun n => (n.style, n.id))

theorem naming_ok {ps : List Pattern} (h : naming g = .ok ps) :
    ps = (styleGroups g).map fun group => convention group.1 group.2 := by
  obtain ⟨styled, hstyled, h⟩ := Except.bind_eq_ok.1 h
  cases h
  have hitems : styled.map id = (codeNodes g).map fun n => (n.style, n.id) := by
    refine map_of_mapM_ok hstyled fun n item hitem => ?_
    obtain ⟨style, hstyle, hitem⟩ := Except.bind_eq_ok.1 hitem
    cases hitem
    unfold styleOf at hstyle
    split at hstyle
    · rename_i s hs
      cases hstyle
      rw [Node.style_of_name hs]
      rfl
    · cases hstyle
  rw [List.map_id] at hitems
  rw [styleGroups, ← hitems]
  rfl

section Related

def NamesOnly (P : Scalar → Prop) (ps : List Pattern) : Prop := ∀ p ∈ ps, ∀ r ∈ p.related, P r

theorem NamesOnly.append {P : Scalar → Prop} {ps qs : List Pattern} (h : NamesOnly P ps)
    (h' : NamesOnly P qs) : NamesOnly P (ps ++ qs) := by
  intro p hp
  rcases List.mem_append.1 hp with hp | hp
  · exact h p hp
  · exact h' p hp

theorem code_of_idsWhere {test : Node → Checked Bool} {ns : List Node} {ids : List Scalar}
    (h : idsWhere test ns = .ok ids) (hns : ∀ n ∈ ns, n ∈ codeNodes g) : ∀ r ∈ ids, IsCode g r := by
  intro r hr
  obtain ⟨n, hn, hid⟩ := mem_idsWhere h r hr
  exact ⟨n, hns n hn, hid⟩

theorem code_of_single {name description category : String} {confidence : Float}
    {test : Node → Checked Bool} {ns : List Node} {ps : List Pattern}
    (h : (do return single name description confidence category (← idsWhere test ns) :
      Checked (List Pattern)) = .ok ps) (hns : ∀ n ∈ ns, n ∈ codeNodes g) : NamesOnly (IsCode g) ps := by
  obtain ⟨ids, hids, h⟩ := Except.bind_eq_ok.1 h
  cases h
  unfold single
  split
  · exact fun p hp => absurd hp List.not_mem_nil
  · intro p hp
    rw [List.mem_singleton.1 hp]
    exact code_of_idsWhere hids hns

theorem code_of_mvc {ps : List Pattern} (h : mvc g = .ok ps) : NamesOnly (IsCode g) ps := by
  obtain ⟨controllers, hcontrollers, h⟩ := Except.bind_eq_ok.1 h
  obtain ⟨models, hmodels, h⟩ := Except.bind_eq_ok.1 h
  obtain ⟨views, hviews, h⟩ := Except.bind_eq_ok.1 h
  have hcode : ∀ n ∈ codeNodes g, n ∈ codeNodes g := fun _ hn => hn
  split at h
  · cases h
    exact fun p hp => absurd hp List.not_mem_nil
  · cases h
    intro p hp r hr
    rw [List.mem_singleton.1 hp] at hr
    have hmem : r ∈ controllers ++ models ++ views := KeySet.mem_keys_ofList hr
    rcases List.mem_append.1 hmem with hmem | hmem
    · rcases List.mem_append.1 hmem with hmem | hmem
      · exact code_of_idsWhere hcontrollers hcode r hmem
      · exact code_of_idsWhere hmodels hcode r hmem
    · exact code_of_idsWhere hviews hcode r hmem

theorem code_of_naming {ps : List Pattern} (h : naming g = .ok ps) : NamesOnly (IsCode g) ps := by
  intro p hp r hr
  rw [naming_ok h] at hp
  obtain ⟨group, hgroup, rfl⟩ := List.mem_map.1 hp
  obtain ⟨item, hitem, rfl⟩ := List.mem_map.1 ((sublist_of_mem_groupItems hgroup).subset hr)
  obtain ⟨n, hn, rfl⟩ := List.mem_map.1 hitem
  exact ⟨n, hn, rfl⟩

theorem dependent_of_dependency {ps : List Pattern} (h : dependency threshold g = .ok ps) :
    NamesOnly (IsDependent g) ps := by
  obtain ⟨packages, -, rfl⟩ := dependency_ok h
  intro p hp r hr
  obtain ⟨k, -, rfl⟩ := List.mem_map.1 hp
  obtain ⟨item, hitem, rfl⟩ := List.mem_map.1 (KeySet.mem_keys_ofList hr)
  obtain ⟨use, huse, hsome⟩ := List.mem_filterMap.1 (List.mem_of_mem_filter hitem)
  obtain ⟨hpackage, hfalsy, hid⟩ := packageUse_eq_some.1 hsome
  exact ⟨use, huse, hid, _, hpackage, hfalsy⟩

/-- All passes but the last name only nodes that are no concepts; the last names what depends on a package. -/
theorem related_of_detect (h : detect threshold g = .ok found) :
    NamesOnly (IsCode g) (found.design ++ found.architectural ++ found.naming) ∧
      NamesOnly (IsDependent g) found.dependency := by
  obtain ⟨singletons, factories, observers, triads, repositories, services, namings, dependencies,
    hsingleton, hfactory, hobserver, hmvc, hrepository, hservice, hnaming, hdependency, rfl⟩ := detect_ok h
  have hclasses : ∀ n ∈ classes g, n ∈ codeNodes g := fun _ hn => mem_codeNodes_of_mem_classes hn
  have hcode : ∀ n ∈ codeNodes g, n ∈ codeNodes g := fun _ hn => hn
  have hdesigns : NamesOnly (IsCode g) (singletons ++ factories ++ observers) :=
    ((code_of_single hsingleton hclasses).append (code_of_single hfactory hclasses)).append
      (code_of_single hobserver hclasses)
  have harchitecturals : NamesOnly (IsCode g) (triads ++ repositories ++ services) :=
    ((code_of_mvc hmvc).append (code_of_single hrepository hcode)).append (code_of_single hservice hcode)
  exact ⟨(hdesigns.append harchitecturals).append (code_of_naming hnaming),
    dependent_of_dependency hdependency⟩

theorem shown_of_detect (h : detect threshold g = .ok found) : NamesOnly (Shows g) found.all := by
  obtain ⟨hcode, hdependent⟩ := related_of_detect h
  refine NamesOnly.append (fun p hp r hr => Or.inl (hcode p hp r hr)) fun p hp r hr => ?_
  obtain ⟨use, huse, hid, -⟩ := hdependent p hp r hr
  exact Or.inr ⟨use, huse, hid⟩

end Related

/-- Whether discovery sees the same in two graphs. -/
structure Alike (g g' : Graph) : Prop where
  nodes : (codeNodes g').map Node.bare = (codeNodes g).map Node.bare
  uses : uses g' = uses g

namespace Alike

theorem refl (g : Graph) : Alike g g := ⟨rfl, rfl⟩

theorem trans {g'' : Graph} (h : Alike g g') (h' : Alike g' g'') : Alike g g'' :=
  ⟨h'.nodes.trans h.nodes, h'.uses.trans h.uses⟩

theorem classes (h : Alike g g') : (classes g').map Node.bare = (Discovery.classes g).map Node.bare := by
  have hbare : ∀ ns : List Node, (ns.filter (·.kind = .classDecl)).map Node.bare =
      (ns.map Node.bare).filter (·.kind = .classDecl) := by
    intro ns
    rw [List.filter_map]
    rfl
  rw [classes_eq, classes_eq, hbare, hbare, h.nodes]

theorem naming (h : Alike g g') : naming g' = Discovery.naming g := by
  have hmap : ∀ ns : List Node, ns.mapM (fun n => (do return (← styleOf n, n.id) : Checked _)) =
      (ns.map Node.bare).mapM fun n => (do return (← styleOf n, n.id) : Checked _) := by
    intro ns
    rw [List.mapM_map]
    rfl
  rw [Discovery.naming, Discovery.naming, hmap, hmap (codeNodes g), h.nodes]

/-- Discovery finds the same in graphs in which it sees the same. -/
theorem detect (h : Alike g g') (threshold : Value) : detect threshold g' = Discovery.detect threshold g := by
  have hdependents : dependents g' = dependents g := by rw [dependents_eq, dependents_eq, h.uses]
  have hclasses : ∀ test : Node → Checked Bool, (∀ n, test n.bare = test n) →
      idsWhere test (Discovery.classes g') = idsWhere test (Discovery.classes g) :=
    fun test htest => idsWhere_congr htest h.classes
  have hcode : ∀ test : Node → Checked Bool, (∀ n, test n.bare = test n) →
      idsWhere test (codeNodes g') = idsWhere test (codeNodes g) :=
    fun test htest => idsWhere_congr htest h.nodes
  have hdesign : design g' = design g := by
    simp only [design, singleton, factory, observer]
    rw [hclasses _ fun _ => rfl, hclasses _ fun _ => rfl, hclasses _ fun _ => rfl]
  have harchitectural : architectural g' = architectural g := by
    simp only [architectural, mvc, repository, service]
    rw [hcode _ fun _ => rfl, hcode _ fun _ => rfl, hcode _ fun _ => rfl, hcode _ fun _ => rfl,
      hcode _ fun _ => rfl]
  rw [Discovery.detect, Discovery.detect, hdesign, harchitectural, h.naming, dependency, dependency,
    hdependents]

end Alike

section Scannable

theorem exists_single {name description category : String} {confidence : Float}
    {test : Node → Checked Bool} {ns : List Node} (h : ∀ n ∈ ns, ∃ b, test n = .ok b) :
    ∃ ps, (do return single name description confidence category (← idsWhere test ns) :
      Checked (List Pattern)) = .ok ps := by
  obtain ⟨ids, hids⟩ := exists_idsWhere h
  exact ⟨_, by rw [hids]; rfl⟩

variable (hscan : ∀ n ∈ codeNodes g, n.Scannable)

include hscan

theorem exists_design : ∃ ps, design g = .ok ps := by
  have hclasses : ∀ n ∈ classes g, n.Scannable := fun n hn => hscan n (mem_codeNodes_of_mem_classes hn)
  obtain ⟨singletons, hsingleton⟩ : ∃ ps, singleton g = .ok ps :=
    exists_single fun n hn => namedOrHas_ok _ _ (hclasses n hn)
  obtain ⟨factories, hfactory⟩ : ∃ ps, factory g = .ok ps :=
    exists_single fun n hn => namedOrHas_ok _ _ (hclasses n hn)
  obtain ⟨observers, hobserver⟩ : ∃ ps, observer g = .ok ps :=
    exists_single fun n hn => hasMethod_ok _ (hclasses n hn)
  exact ⟨_, by rw [design, hsingleton, hfactory, hobserver]; rfl⟩

theorem exists_mvc : ∃ ps, mvc g = .ok ps := by
  obtain ⟨controllers, hcontrollers⟩ := exists_idsWhere fun n hn => named_ok "controller" (hscan n hn)
  obtain ⟨models, hmodels⟩ := exists_idsWhere fun n hn => named_ok "model" (hscan n hn)
  obtain ⟨views, hviews⟩ := exists_idsWhere fun n hn => named_ok "view" (hscan n hn)
  rw [mvc, hcontrollers, hmodels, hviews]
  cases h : controllers.isEmpty || models.isEmpty <;> exact ⟨_, by simp only [bind, Except.bind, h]; rfl⟩

theorem exists_architectural : ∃ ps, architectural g = .ok ps := by
  obtain ⟨triads, hmvc⟩ := exists_mvc hscan
  obtain ⟨repositories, hrepository⟩ : ∃ ps, repository g = .ok ps :=
    exists_single fun n hn => namedOrHas_ok _ _ (hscan n hn)
  obtain ⟨services, hservice⟩ : ∃ ps, service g = .ok ps :=
    exists_single fun n hn => named_ok _ (hscan n hn)
  exact ⟨_, by rw [architectural, hmvc, hrepository, hservice]; rfl⟩

omit hscan

theorem exists_naming (h : ∀ n ∈ codeNodes g, ∃ s, n.name = .text s) : ∃ ps, naming g = .ok ps := by
  have hstyle : ∀ n ∈ codeNodes g, ∃ b, (do return (← styleOf n, n.id) : Checked _) = .ok b := by
    intro n hn
    obtain ⟨s, hs⟩ := h n hn
    exact ⟨_, by rw [styleOf, hs]; rfl⟩
  obtain ⟨styled, hstyled⟩ := exists_mapM_ok hstyle
  exact ⟨_, by rw [naming, hstyled]; rfl⟩

theorem textPackages_of_scannable (h : ∀ n ∈ g.nodes.values, n.Scannable) : g.TextPackages :=
  fun n hn => (h n hn).package

theorem exists_dependency (h : ∀ use ∈ uses g, ∀ v, use.2 = some v → ∃ s, v = .text s) {least : Int}
    (hthreshold : threshold.ceiling = .ok least) : ∃ ps, dependency threshold g = .ok ps := by
  obtain ⟨groups, hgroups⟩ := exists_dependents h
  exact ⟨_, dependency_eq hgroups hthreshold⟩

theorem exists_detect (hnodes : ∀ n ∈ g.nodes.values, n.Scannable) {least : Int}
    (hthreshold : threshold.ceiling = .ok least) : ∃ found, detect threshold g = .ok found := by
  have hscan : ∀ n ∈ codeNodes g, n.Scannable := fun n hn => hnodes n (List.mem_of_mem_filter hn)
  obtain ⟨designs, hdesign⟩ := exists_design hscan
  obtain ⟨architecturals, harchitectural⟩ := exists_architectural hscan
  obtain ⟨namings, hnaming⟩ := exists_naming fun n hn => (hscan n hn).named
  obtain ⟨dependencies, hdependency⟩ :=
    exists_dependency (uses_texts (textPackages_of_scannable hnodes)) hthreshold
  exact ⟨_, by rw [detect, hdesign, harchitectural, hnaming, hdependency]; rfl⟩

end Scannable

end Discovery

end CodeAtlas
