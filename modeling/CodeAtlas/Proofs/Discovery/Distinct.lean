import CodeAtlas.Proofs.Discovery.Detect

/-! No two patterns of one discovery have the same name, and no pattern names a node twice. Apart from the
packages all names are fixed, and they differ also in lower case; so only the patterns of two packages can
have one lower-case name. -/

namespace CodeAtlas

namespace Discovery

variable {g : Graph} {threshold : Value} {found : Found}

section Related

def RelatedOnce (ps : List Pattern) : Prop := ∀ p ∈ ps, p.related.Nodup

theorem RelatedOnce.append {ps qs : List Pattern} (h : RelatedOnce ps) (h' : RelatedOnce qs) :
    RelatedOnce (ps ++ qs) := by
  intro p hp
  rcases List.mem_append.1 hp with hp | hp
  · exact h p hp
  · exact h' p hp

theorem sublist_of_idsWhere {test : Node → Checked Bool} {ns : List Node} {ids : List Scalar}
    (h : idsWhere test ns = .ok ids) : ids.Sublist (ns.map Node.id) := by
  induction ns generalizing ids with
  | nil =>
    cases h
    exact List.Sublist.refl _
  | cons n rest ih =>
    rw [idsWhere_cons] at h
    obtain ⟨b, -, h⟩ := Except.bind_eq_ok.1 h
    obtain ⟨ids', hrest, h⟩ := Except.bind_eq_ok.1 h
    cases h
    cases b with
    | false => exact (ih hrest).cons n.id
    | true => exact (ih hrest).cons_cons n.id

theorem relatedOnce_of_single {name description category : String} {confidence : Float}
    {test : Node → Checked Bool} {ns : List Node} {ps : List Pattern}
    (h : (do return single name description confidence category (← idsWhere test ns) :
      Checked (List Pattern)) = .ok ps) (hns : (ns.map Node.id).Nodup) : RelatedOnce ps := by
  obtain ⟨ids, hids, h⟩ := Except.bind_eq_ok.1 h
  cases h
  intro p hp
  unfold single at hp
  split at hp
  · exact absurd hp List.not_mem_nil
  · rw [List.mem_singleton.1 hp]
    exact (sublist_of_idsWhere hids).nodup hns

theorem relatedOnce_of_mvc {ps : List Pattern} (h : mvc g = .ok ps) : RelatedOnce ps := by
  obtain ⟨controllers, -, h⟩ := Except.bind_eq_ok.1 h
  obtain ⟨models, -, h⟩ := Except.bind_eq_ok.1 h
  obtain ⟨views, -, h⟩ := Except.bind_eq_ok.1 h
  intro p hp
  split at h
  · cases h
    exact absurd hp List.not_mem_nil
  · cases h
    rw [List.mem_singleton.1 hp]
    exact KeySet.nodup_keys _

theorem relatedOnce_of_naming {ps : List Pattern} (h : naming g = .ok ps)
    (hns : ((codeNodes g).map Node.id).Nodup) : RelatedOnce ps := by
  intro p hp
  rw [naming_ok h] at hp
  obtain ⟨group, hgroup, rfl⟩ := List.mem_map.1 hp
  have hsub := sublist_of_mem_groupItems hgroup
  rw [List.map_map] at hsub
  exact hsub.nodup hns

theorem relatedOnce_of_dependency {ps : List Pattern} (h : dependency threshold g = .ok ps) :
    RelatedOnce ps := by
  obtain ⟨packages, -, rfl⟩ := dependency_ok h
  intro p hp
  obtain ⟨k, -, rfl⟩ := List.mem_map.1 hp
  exact KeySet.nodup_keys _

/-- No pattern names a node twice. -/
theorem relatedOnce_of_detect (h : detect threshold g = .ok found) (hkeyed : g.NodesKeyed) :
    RelatedOnce found.all := by
  have hns : (g.nodes.values.map Node.id).Nodup :=
    List.Nodup.of_map Scalar.canon (by simpa [Function.comp_def] using hkeyed.nodup_ids)
  obtain ⟨singletons, factories, observers, triads, repositories, services, namings, dependencies,
    hsingleton, hfactory, hobserver, hmvc, hrepository, hservice, hnaming, hdependency, rfl⟩ := detect_ok h
  have hclasses : ((classes g).map Node.id).Nodup := (List.filter_sublist.map Node.id).nodup hns
  have hcode : ((codeNodes g).map Node.id).Nodup := (List.filter_sublist.map Node.id).nodup hns
  have hdesigns : RelatedOnce (singletons ++ factories ++ observers) :=
    ((relatedOnce_of_single hsingleton hclasses).append (relatedOnce_of_single hfactory hclasses)).append
      (relatedOnce_of_single hobserver hclasses)
  have harchitecturals : RelatedOnce (triads ++ repositories ++ services) :=
    ((relatedOnce_of_mvc hmvc).append (relatedOnce_of_single hrepository hcode)).append
      (relatedOnce_of_single hservice hcode)
  exact ((hdesigns.append harchitecturals).append (relatedOnce_of_naming hnaming hcode)).append
    (relatedOnce_of_dependency hdependency)

end Related

section Names

/-- The names of the patterns that are looked for by shape, in the order of their passes. -/
def shapeNames : List String :=
  ["singleton", "factory", "observer", "mvc", "repository", "service"]

def styleName (style : NamingStyle) : String := "naming_" ++ style.name

def packageName (package : Scalar) : String := "dependency_" ++ package.shown

def fixedNames : List String :=
  shapeNames ++ [.pascal, .camel, .snake, .constant, .kebab, .mixed].map styleName

theorem nodup_fixedNames : fixedNames.Nodup := by decide

theorem mem_fixedNames_of_shape {name : String} (h : name ∈ shapeNames) : name ∈ fixedNames :=
  List.mem_append_left _ h

theorem styleName_mem (style : NamingStyle) : styleName style ∈ fixedNames := by
  cases style <;> decide

theorem styleName_notMem (style : NamingStyle) : styleName style ∉ shapeNames := by
  cases style <;> decide

theorem styleName_injective {style style' : NamingStyle} (h : styleName style = styleName style') :
    style = style' := by
  cases style <;> cases style' <;> first | rfl | exact absurd h (by decide)

theorem lowered_fixedNames :
    ∀ a ∈ fixedNames, ∀ b ∈ fixedNames, Text.lowerText a = Text.lowerText b → a = b := by
  decide +kernel

theorem head_lowered_fixedNames : ∀ a ∈ fixedNames, (Text.lowerText a).toList.head? ≠ some 'd' := by
  decide +kernel

theorem head_lowered_packageName (package : Scalar) :
    (Text.lowerText (packageName package)).toList.head? = some 'd' := by
  rw [packageName, Text.lowerText, String.toList_ofList, String.toList_append]
  rfl

theorem lowered_ne_packageName {name : String} (h : name ∈ fixedNames) (package : Scalar) :
    Text.lowerText name ≠ Text.lowerText (packageName package) := by
  intro heq
  have hhead := head_lowered_fixedNames name h
  rw [heq] at hhead
  exact hhead (head_lowered_packageName package)

theorem names_of_single {name description category : String} {confidence : Float}
    {test : Node → Checked Bool} {ns : List Node} {ps : List Pattern}
    (h : (do return single name description confidence category (← idsWhere test ns) :
      Checked (List Pattern)) = .ok ps) : (ps.map Pattern.name).Sublist [name] := by
  obtain ⟨ids, -, h⟩ := Except.bind_eq_ok.1 h
  cases h
  unfold single
  split
  · exact List.nil_sublist _
  · exact List.Sublist.refl _

theorem names_of_mvc {ps : List Pattern} (h : mvc g = .ok ps) : (ps.map Pattern.name).Sublist ["mvc"] := by
  obtain ⟨controllers, -, h⟩ := Except.bind_eq_ok.1 h
  obtain ⟨models, -, h⟩ := Except.bind_eq_ok.1 h
  obtain ⟨views, -, h⟩ := Except.bind_eq_ok.1 h
  split at h
  · cases h
    exact List.nil_sublist _
  · cases h
    exact List.Sublist.refl _

theorem names_of_naming {ps : List Pattern} (h : naming g = .ok ps) :
    ∃ styles : List NamingStyle, styles.Nodup ∧ ps.map Pattern.name = styles.map styleName := by
  refine ⟨(styleGroups g).map Prod.fst, nodup_groupItems, ?_⟩
  rw [naming_ok h, List.map_map, List.map_map]
  rfl

theorem names_of_dependency {ps : List Pattern} (h : dependency threshold g = .ok ps)
    (huses : ∀ use ∈ uses g, ∀ v, use.2 = some v → ∃ s, v = .text s) :
    ∃ packages : List Scalar, packages.Nodup ∧ (∀ k ∈ packages, k.IsText) ∧
      ps.map Pattern.name = packages.map packageName := by
  obtain ⟨packages, hsub, rfl⟩ := dependency_ok h
  refine ⟨packages, hsub.nodup (List.Nodup.of_map _ Table.nodup_keys), fun k hk => ?_, ?_⟩
  · exact isText_of_mem_gather huses k (hsub.subset hk)
  · rw [List.map_map]
    rfl

/-- The names of what is found: shapes in the order of their passes, styles, and packages. -/
theorem names_of_detect (h : detect threshold g = .ok found)
    (huses : ∀ use ∈ uses g, ∀ v, use.2 = some v → ∃ s, v = .text s) :
    ((found.design ++ found.architectural).map Pattern.name).Sublist shapeNames ∧
      (∃ styles : List NamingStyle, styles.Nodup ∧
        found.naming.map Pattern.name = styles.map styleName) ∧
      ∃ packages : List Scalar, packages.Nodup ∧ (∀ k ∈ packages, k.IsText) ∧
        found.dependency.map Pattern.name = packages.map packageName := by
  obtain ⟨singletons, factories, observers, triads, repositories, services, namings, dependencies,
    hsingleton, hfactory, hobserver, hmvc, hrepository, hservice, hnaming, hdependency, rfl⟩ := detect_ok h
  refine ⟨?_, names_of_naming hnaming, names_of_dependency hdependency huses⟩
  have hdesigns := ((names_of_single hsingleton).append (names_of_single hfactory)).append
    (names_of_single hobserver)
  have harchitecturals := ((names_of_mvc hmvc).append (names_of_single hrepository)).append
    (names_of_single hservice)
  have hnames : ((singletons ++ factories ++ observers ++ (triads ++ repositories ++ services)).map
      Pattern.name).Sublist (["singleton"] ++ ["factory"] ++ ["observer"] ++
        (["mvc"] ++ ["repository"] ++ ["service"])) := by
    simpa only [List.map_append] using hdesigns.append harchitecturals
  exact hnames

theorem name_mem_fixedNames (h : detect threshold g = .ok found)
    (huses : ∀ use ∈ uses g, ∀ v, use.2 = some v → ∃ s, v = .text s) :
    ∀ name ∈ (found.design ++ found.architectural ++ found.naming).map Pattern.name,
      name ∈ fixedNames := by
  obtain ⟨hshapes, ⟨styles, -, hstyles⟩, -⟩ := names_of_detect h huses
  intro name hname
  rw [List.map_append, hstyles] at hname
  rcases List.mem_append.1 hname with hname | hname
  · exact mem_fixedNames_of_shape (hshapes.subset hname)
  · obtain ⟨style, -, rfl⟩ := List.mem_map.1 hname
    exact styleName_mem style

theorem packageName_injective {k k' : Scalar} (hk : k.IsText) (hk' : k'.IsText)
    (h : packageName k = packageName k') : k = k' := by
  obtain ⟨s, rfl⟩ := hk
  obtain ⟨t, rfl⟩ := hk'
  have hlists := congrArg String.toList h
  simp only [packageName, String.toList_append, List.append_cancel_left_eq] at hlists
  exact congrArg Scalar.text (String.toList_inj.1 hlists)

/-- No two patterns of a discovery have the same name. -/
theorem nodup_names (h : detect threshold g = .ok found)
    (huses : ∀ use ∈ uses g, ∀ v, use.2 = some v → ∃ s, v = .text s) :
    (found.all.map Pattern.name).Nodup := by
  have hfixed := name_mem_fixedNames h huses
  obtain ⟨hshapes, ⟨styles, hstyles, hnaming⟩, packages, hpackages, htexts, hdependency⟩ :=
    names_of_detect h huses
  have hshape : ((found.design ++ found.architectural).map Pattern.name).Nodup :=
    hshapes.nodup (List.Nodup.of_append_left nodup_fixedNames)
  have hstyle : (found.naming.map Pattern.name).Nodup :=
    hnaming ▸ hstyles.map fun _ _ => styleName_injective
  have hpackage : (found.dependency.map Pattern.name).Nodup :=
    hdependency ▸ hpackages.map_on fun k hk k' hk' => packageName_injective (htexts k hk) (htexts k' hk')
  rw [Found.all, List.map_append]
  refine List.nodup_append.2 ⟨?_, hpackage, fun a ha b hb hab => ?_⟩
  · rw [List.map_append]
    refine List.nodup_append.2 ⟨hshape, hstyle, fun a ha b hb hab => ?_⟩
    rw [hnaming] at hb
    obtain ⟨style, -, rfl⟩ := List.mem_map.1 hb
    exact styleName_notMem style (hshapes.subset (hab ▸ ha))
  · rw [hdependency] at hb
    obtain ⟨package, -, rfl⟩ := List.mem_map.1 hb
    exact lowered_ne_packageName (hfixed a ha) package (congrArg Text.lowerText hab)

/-- Only the patterns of two packages can have one lower-case name. -/
theorem eq_or_packages (h : detect threshold g = .ok found)
    (huses : ∀ use ∈ uses g, ∀ v, use.2 = some v → ∃ s, v = .text s) {p q : Pattern}
    (hp : p ∈ found.all) (hq : q ∈ found.all)
    (hname : Text.lowerText p.name = Text.lowerText q.name) :
    p = q ∨ p ∈ found.dependency ∧ q ∈ found.dependency := by
  have hfixed := name_mem_fixedNames h huses
  obtain ⟨-, -, packages, -, -, hdependency⟩ := names_of_detect h huses
  have hpackage : ∀ r ∈ found.dependency, ∃ package, r.name = packageName package := by
    intro r hr
    have hmem := List.mem_map_of_mem (f := Pattern.name) hr
    rw [hdependency] at hmem
    obtain ⟨package, -, hr⟩ := List.mem_map.1 hmem
    exact ⟨package, hr.symm⟩
  rcases List.mem_append.1 hp with hp' | hp'
  · rcases List.mem_append.1 hq with hq' | hq'
    · have hsame := lowered_fixedNames _ (hfixed _ (List.mem_map_of_mem hp')) _
        (hfixed _ (List.mem_map_of_mem hq')) hname
      exact Or.inl (List.inj_on_of_nodup_map (nodup_names h huses) hp hq hsame)
    · obtain ⟨package, hr⟩ := hpackage q hq'
      rw [hr] at hname
      exact absurd hname (lowered_ne_packageName (hfixed _ (List.mem_map_of_mem hp')) package)
  · rcases List.mem_append.1 hq with hq' | hq'
    · obtain ⟨package, hr⟩ := hpackage p hp'
      rw [hr] at hname
      exact absurd hname.symm (lowered_ne_packageName (hfixed _ (List.mem_map_of_mem hq')) package)
    · exact Or.inr ⟨hp', hq'⟩

end Names

end Discovery

end CodeAtlas
