import CodeAtlas.Proofs.Discovery.Dependents
import CodeAtlas.Proofs.Graph.Connections

/-! Which packages are heavily used. The dependents of a package are the different nodes that depend on some node
of the package, however many nodes the package has and however often one is depended on; a package is
proposed if it has a dependent, and as many as are asked for. -/

namespace CodeAtlas

namespace Graph

/-- The package of the node that an edge leads to, if the edge is a dependency. -/
def usedPackage (g : Graph) (e : Edge) : Option String :=
  if e.kind = .dependsOn then
    match (g.nodes.get? e.target).bind (·.properties.get? (.text "package")) with
    | some (.text s) => some s
    | _ => none
  else none

/-- Whether an edge is a dependency on a node of a package. -/
def usesPackage (g : Graph) (package : String) (e : Edge) : Bool := g.usedPackage e = some package

/-- The number of nodes that depend on a node of a package. -/
def dependentCount (g : Graph) (package : String) : Nat :=
  g.nodes.values.countP fun n => g.edges.values.any fun e => g.usesPackage package e && e.source.same n.id

end Graph

namespace Discovery

variable {g : Graph} {p : String} {t : Int}

def edgeUse (g : Graph) (e : Edge) : Option (Scalar × Scalar) :=
  (g.usedPackage e).bind fun s => if s = "" then none else some (.text s, e.source)

theorem edgeUse_eq_some {e : Edge} {item : Scalar × Scalar} :
    edgeUse g e = some item ↔ ∃ p, p ≠ "" ∧ g.usesPackage p e = true ∧ item = (.text p, e.source) := by
  unfold edgeUse Graph.usesPackage
  rw [Option.bind_eq_some_iff]
  constructor
  · rintro ⟨p, hp, hitem⟩
    split at hitem
    · cases hitem
    · rename_i hne
      exact ⟨p, hne, decide_eq_true hp, (Option.some.inj hitem).symm⟩
  · rintro ⟨p, hne, hp, rfl⟩
    exact ⟨p, of_decide_eq_true hp, if_neg hne⟩

theorem packageUses_eq (h : g.TextPackages) : packageUses g = g.edges.values.filterMap (edgeUse g) := by
  rw [packageUses, uses, List.filterMap_filterMap]
  refine List.filterMap_congr fun e _ => ?_
  unfold edgeUse Graph.usedPackage
  by_cases hkind : e.kind = .dependsOn
  · rw [if_pos hkind, if_pos hkind, Option.bind_some]
    cases hpackage : (g.nodes.get? e.target).bind (·.properties.get? (.text "package")) with
    | none => rfl
    | some v =>
      obtain ⟨n, hn, hv⟩ := Option.bind_eq_some_iff.1 hpackage
      obtain ⟨s, rfl⟩ := h n (Table.mem_values_of_get? hn) v hv
      by_cases hs : s = ""
      · subst hs
        rfl
      · have hused : packageUse (e.source, some (.text s)) = some (.text s, e.source) :=
          packageUse_eq_some.2 ⟨rfl, Value.isFalsy_text hs, rfl⟩
        exact hused.trans (if_neg hs).symm
  · rw [if_neg hkind, if_neg hkind]
    rfl

theorem text_mem_gather_iff (h : g.TextPackages) :
    Scalar.text p ∈ (gather (packageUses g)).keys ↔ p ≠ "" ∧ ∃ e ∈ g.edges.values, g.usesPackage p e = true := by
  rw [keys_gather, ← Table.contains_text_iff, KeySet.contains_ofList, packageUses_eq h]
  constructor
  · rintro ⟨x, hx, hsame⟩
    obtain ⟨item, hitem, rfl⟩ := List.mem_map.1 hx
    obtain ⟨e, he, hedge⟩ := List.mem_filterMap.1 hitem
    obtain ⟨q, hne, hq, rfl⟩ := edgeUse_eq_some.1 hedge
    cases hsame
    exact ⟨hne, e, he, hq⟩
  · rintro ⟨hne, e, he, hp⟩
    have hedge : edgeUse g e = some (.text p, e.source) := edgeUse_eq_some.2 ⟨p, hne, hp, rfl⟩
    exact ⟨_, List.mem_map_of_mem (List.mem_filterMap.2 ⟨e, he, hedge⟩), rfl⟩

theorem any_edgeUse {e : Edge} (hne : p ≠ "") :
    (edgeUse g e).any (·.1.same (.text p)) = g.usesPackage p e := by
  rw [Bool.eq_iff_iff, Option.any_eq_true]
  constructor
  · rintro ⟨item, hitem, hsame⟩
    obtain ⟨q, -, hq, rfl⟩ := edgeUse_eq_some.1 hitem
    cases Scalar.same_iff.1 hsame
    exact hq
  · exact fun hp => ⟨_, edgeUse_eq_some.2 ⟨p, hne, hp, rfl⟩, Scalar.same_iff.2 rfl⟩

/-- The packages that are depended on stand in the order of their first dependencies. -/
theorem exists_packages (h : g.TextPackages) :
    ∃ packages : List String, (gather (packageUses g)).keys = packages.map .text ∧
      FirstOrder g.usesPackage g.edges.values packages ∧
      ∀ p, p ∈ packages ↔ p ≠ "" ∧ ∃ e ∈ g.edges.values, g.usesPackage p e = true := by
  have htext : ∀ k ∈ (gather (packageUses g)).keys, Scalar.text k.shown = k := by
    intro k hk
    obtain ⟨s, rfl⟩ := isText_of_mem_gather (uses_texts h) k hk
    rfl
  have hkeys : (gather (packageUses g)).keys = ((gather (packageUses g)).keys.map Scalar.shown).map .text := by
    rw [List.map_map]
    exact ((List.map_congr_left htext).trans (List.map_id _)).symm
  generalize (gather (packageUses g)).keys.map Scalar.shown = packages at hkeys
  have hmem : ∀ p, p ∈ packages ↔ p ≠ "" ∧ ∃ e ∈ g.edges.values, g.usesPackage p e = true := by
    intro p
    rw [← text_mem_gather_iff h, hkeys, List.mem_map_of_injective fun _ _ => Scalar.text.inj]
  refine ⟨packages, hkeys, ?_, hmem⟩
  have horder := KeySet.firstOrder_ofList ((packageUses g).map Prod.fst)
  rw [← keys_gather, hkeys, packageUses_eq h, List.map_filterMap] at horder
  refine horder.of_filterMap.of_map.congr fun p hp => funext fun e => ?_
  rw [Option.any_map]
  exact (any_edgeUse ((hmem p).1 hp).1).symm

/-- The dependents of a package are gathered from the edges that use it. -/
theorem membersOf_packageUses (h : g.TextPackages) (hne : p ≠ "") :
    membersOf (packageUses g) (.text p) =
      g.edges.values.filterMap fun e => if g.usesPackage p e then some e.source else none := by
  rw [membersOf, packageUses_eq h, List.filter_filterMap, List.map_filterMap]
  refine List.filterMap_congr fun e _ => ?_
  rw [← any_edgeUse hne]
  cases hedge : edgeUse g e with
  | none => rfl
  | some item =>
    obtain ⟨q, -, -, rfl⟩ := edgeUse_eq_some.1 hedge
    rw [Option.filter_some, Option.any_some]
    split <;> rfl

def dependentsOf (g : Graph) (p : String) : KeySet := .ofList (membersOf (packageUses g) (.text p))

theorem contains_dependentsOf (h : g.TextPackages) (hne : p ≠ "") {k : Scalar} :
    (dependentsOf g p).contains k = true ↔
      ∃ e ∈ g.edges.values, g.usesPackage p e = true ∧ e.source.same k = true := by
  rw [dependentsOf, KeySet.contains_ofList, membersOf_packageUses h hne]
  simp only [List.mem_filterMap, Option.ite_none_right_eq_some, Option.some.injEq, Scalar.same_iff]
  constructor
  · rintro ⟨_, ⟨e, he, hp, rfl⟩, hsame⟩
    exact ⟨e, he, hp, hsame⟩
  · rintro ⟨e, he, hp, hsame⟩
    exact ⟨_, ⟨e, he, hp, rfl⟩, hsame⟩

theorem firstOrder_dependentsOf (h : g.TextPackages) (hne : p ≠ "") :
    FirstOrder (fun r e => g.usesPackage p e && e.source.same r) g.edges.values (dependentsOf g p).keys := by
  have horder := KeySet.firstOrder_ofList (membersOf (packageUses g) (.text p))
  rw [← dependentsOf, membersOf_packageUses h hne] at horder
  refine horder.of_filterMap.congr fun r _ => funext fun e => ?_
  cases g.usesPackage p e <;> rfl

/-- There are as many dependents as nodes with a dependency on the package. -/
theorem size_dependentsOf (hkeyed : g.NodesKeyed) (hsources : ∀ e ∈ g.edges.values, g.hasNode e.source = true)
    (h : g.TextPackages) (hne : p ≠ "") : (dependentsOf g p).size = g.dependentCount p := by
  have hnodes : (((g.nodes.values.filter fun n => g.edges.values.any fun e =>
      g.usesPackage p e && e.source.same n.id).map Node.id).map Scalar.canon).Nodup := by
    rw [List.map_map]
    exact (List.filter_sublist.map _).nodup hkeyed.nodup_ids
  rw [Graph.dependentCount, List.countP_eq_length_filter, ← List.length_map Node.id]
  refine KeySet.size_eq_length hnodes fun k => ?_
  rw [contains_dependentsOf h hne]
  constructor
  · rintro ⟨e, he, hp, hsame⟩
    obtain ⟨n, hn⟩ := Graph.hasNode_iff.1 (hsources e he)
    have hid : n.id.canon = e.source.canon := hkeyed _ n hn
    have huses : (g.usesPackage p e && e.source.same n.id) = true := by
      rw [hp, Bool.true_and, Scalar.same_iff, hid]
    exact ⟨n.id, List.mem_map_of_mem (List.mem_filter.2 ⟨Table.mem_values_of_get? hn,
      List.any_eq_true.2 ⟨e, he, huses⟩⟩), hid.trans (Scalar.same_iff.1 hsame)⟩
  · rintro ⟨_, hid, hsame⟩
    obtain ⟨n, hn, rfl⟩ := List.mem_map.1 hid
    obtain ⟨e, he, hedge⟩ := List.any_eq_true.1 (List.mem_filter.1 hn).2
    obtain ⟨hp, hsource⟩ := Bool.and_eq_true_iff.1 hedge
    exact ⟨e, he, hp, Scalar.same_iff.2 ((Scalar.same_iff.1 hsource).trans hsame)⟩

theorem exists_usesPackage_iff (h : g.TextPackages) (hne : p ≠ "") :
    (∃ e ∈ g.edges.values, g.usesPackage p e = true) ↔ 1 ≤ (dependentsOf g p).size := by
  rw [Table.size_eq_length_keys, Nat.one_le_iff_ne_zero, ← Nat.pos_iff_ne_zero, List.length_pos_iff_exists_mem]
  constructor
  · rintro ⟨e, he, hp⟩
    obtain ⟨r, hr, -⟩ := Table.contains_iff_mem.1
      ((contains_dependentsOf h hne).2 ⟨e, he, hp, Scalar.same_iff.2 rfl⟩)
    exact ⟨r, hr⟩
  · rintro ⟨r, hr⟩
    obtain ⟨e, he, hp, -⟩ := (contains_dependentsOf h hne).1 (Table.contains_iff_mem.2 ⟨r, hr, rfl⟩)
    exact ⟨e, he, hp⟩

/-- The patterns for a threshold are those of the packages that have at least one dependent, and as many as the
threshold says, in the order in which the packages are first used. Each names the different dependents of its
package in the order in which they first use it, and a higher threshold only leaves patterns out. -/
theorem dependency_counts (hkeyed : g.NodesKeyed) (hsources : ∀ e ∈ g.edges.values, g.hasNode e.source = true)
    (hpackages : g.TextPackages) :
    ∃ (packages : Int → List String) (dependents : String → List Scalar),
      (∀ t, dependency (.int t) g = .ok ((packages t).map fun p =>
        ⟨"dependency_" ++ p, "Heavy usage of " ++ p, 0.8, dependents p, "dependency"⟩)) ∧
      (∀ t p, p ∈ packages t ↔ p ≠ "" ∧ 1 ≤ g.dependentCount p ∧ t ≤ g.dependentCount p) ∧
      (∀ t, FirstOrder g.usesPackage g.edges.values (packages t)) ∧
      (∀ t t', t ≤ t' → (packages t').Sublist (packages t)) ∧
      ∀ p, p ≠ "" → (dependents p).length = g.dependentCount p ∧
        FirstOrder (fun r e => g.usesPackage p e && e.source.same r) g.edges.values (dependents p) ∧
        ∀ e ∈ g.edges.values, g.usesPackage p e = true → ∃ r ∈ dependents p, e.source.same r = true := by
  obtain ⟨packages, hkeys, horder, hmem⟩ := exists_packages hpackages
  have hsize : ∀ p, p ≠ "" → (dependentsOf g p).size = g.dependentCount p :=
    fun p hne => size_dependentsOf hkeyed hsources hpackages hne
  refine ⟨fun t => packages.filter fun p => t ≤ (dependentsOf g p).size, fun p => (dependentsOf g p).keys,
    fun t => ?_, fun t p => ?_, fun t => horder.sublist List.filter_sublist, fun t t' htt' => ?_,
    fun p hne => ⟨?_, firstOrder_dependentsOf hpackages hne, fun e he hp => ?_⟩⟩
  · obtain ⟨groups, hgroups⟩ := exists_dependents (uses_texts hpackages)
    have hleast : (Value.int t).ceiling = .ok t := rfl
    rw [dependency_eq hgroups hleast, dependents_ok hgroups, entries_gather, hkeys, List.map_map, List.filter_map,
      List.map_map]
    rfl
  · rw [List.mem_filter, hmem, decide_eq_true_eq, and_assoc]
    exact and_congr_right fun hne => by rw [exists_usesPackage_iff hpackages hne, hsize p hne]
  · refine List.monotone_filter_right packages fun p hp => ?_
    exact decide_eq_true (Int.le_trans htt' (of_decide_eq_true hp))
  · rw [← Table.size_eq_length_keys, hsize p hne]
  · obtain ⟨r, hr, hsame⟩ := Table.contains_iff_mem.1
      ((contains_dependentsOf hpackages hne).2 ⟨e, he, hp, Scalar.same_iff.2 rfl⟩)
    exact ⟨r, hr, Scalar.same_iff.2 hsame.symm⟩

def packaged (package : String) : NodeDraft :=
  ⟨.dependency, some (.text package), .ofFields [("package", .text package)], 1.0⟩

def importedPackages : List Edge :=
  [("e0", "a", "d1"), ("e1", "a", "d3"), ("e2", "a", "d2"), ("e3", "b", "d1")].map fun (id, source, target) =>
    ⟨.text id, .text source, .text target, .dependsOn, 1.0, ∅, .text "t1"⟩

/-- Two files that use two nodes of one package between them, and one of them another package. -/
def importingGraph : Graph :=
  importedPackages.foldl .putEdge (.ofDrafts "t0" [
    ("a", ⟨.file, some (.text "a"), ∅, 1.0⟩), ("b", ⟨.file, some (.text "b"), ∅, 1.0⟩),
    ("d1", packaged "react"), ("d2", packaged "react"), ("d3", packaged "lodash")])

theorem textPackages_of_all
    (h : g.nodes.values.all fun n => (n.properties.get? (.text "package")).all Value.isText) : g.TextPackages := by
  intro n hn v hv
  have htext := List.all_eq_true.1 h n hn
  rw [hv] at htext
  exact Value.isText_iff.1 htext

theorem dependency_counts_importingGraph :
    importingGraph.NodesKeyed ∧ (∀ e ∈ importingGraph.edges.values, importingGraph.hasNode e.source = true) ∧
    importingGraph.TextPackages ∧
    ∃ (packages : List String) (dependents : String → List Scalar),
      dependency (.int 2) importingGraph = .ok (packages.map fun p =>
        ⟨"dependency_" ++ p, "Heavy usage of " ++ p, 0.8, dependents p, "dependency"⟩) ∧
      "react" ∈ packages ∧ "lodash" ∉ packages ∧ (dependents "react").length = 2 := by
  have hkeyed : importingGraph.NodesKeyed :=
    ((Graph.accounted_ofDrafts _ _).foldl_putEdge (by decide)).linked.nodes_keyed
  have hsources : ∀ e ∈ importingGraph.edges.values, importingGraph.hasNode e.source = true := by decide
  have hpackages : importingGraph.TextPackages := textPackages_of_all (by decide)
  have hreact : importingGraph.dependentCount "react" = 2 := by decide
  have hlodash : importingGraph.dependentCount "lodash" = 1 := by decide
  obtain ⟨packages, dependents, hfound, hmem, -, -, hdependents⟩ :=
    dependency_counts hkeyed hsources hpackages
  refine ⟨hkeyed, hsources, hpackages, packages 2, dependents, hfound 2, ?_, ?_, ?_⟩
  · rw [hmem, hreact]
    decide
  · rw [hmem, hlodash]
    decide
  · rw [(hdependents "react" (by decide)).1, hreact]

def unusedPackage : Graph := .ofDrafts "t0" [("d", packaged "react")]

/-- No threshold is so low that a package without dependents is proposed. -/
theorem no_pattern_of_unusedPackage :
    unusedPackage.NodesKeyed ∧ (∀ e ∈ unusedPackage.edges.values, unusedPackage.hasNode e.source = true) ∧
    unusedPackage.TextPackages ∧ (0 : Int) ≤ unusedPackage.dependentCount "react" ∧
    dependency (.int 0) unusedPackage = .ok [] :=
  ⟨(Graph.accounted_ofDrafts _ _).linked.nodes_keyed, by decide, textPackages_of_all (by decide), by decide, rfl⟩

end Discovery

end CodeAtlas
