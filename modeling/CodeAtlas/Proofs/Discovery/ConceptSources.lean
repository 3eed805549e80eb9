import CodeAtlas.Proofs.Discovery.Detect
import CodeAtlas.Proofs.Discovery.Marks
import CodeAtlas.Proofs.Graph.Connections

/-! Concepts that show patterns. The passes over nodes leave concepts out. The pass over dependencies takes
whatever depends on a node with a package, so a concept that does is named, and implements what it shows. -/

namespace CodeAtlas

namespace Graph

/-- Whether a concept stands under an id. -/
def IsConcept (g : Graph) (k : Scalar) : Prop := ∃ n, g.nodes.get? k = some n ∧ n.kind = .concept

/-- Whether an edge is a dependency on a node that has a package. -/
def LeadsToPackage (g : Graph) (e : Edge) : Prop :=
  e.kind = .dependsOn ∧ ∃ n v, g.nodes.get? e.target = some n ∧
    n.properties.get? (.text "package") = some v ∧ v.isFalsy = false

theorem isConcept_congr {g : Graph} {j k : Scalar} (h : j.canon = k.canon) : g.IsConcept j ↔ g.IsConcept k := by
  rw [IsConcept, IsConcept, Table.get?_congr h]

end Graph

namespace Discovery

variable {g : Graph} {now : String} {threshold : Value} {found : Found} {r : Scalar} {e : Edge}

theorem not_isConcept_of_isCode (hkeyed : g.NodesKeyed) (h : IsCode g r) : ¬ g.IsConcept r := by
  obtain ⟨n, hn, rfl⟩ := h
  obtain ⟨hvalue, hkind⟩ := List.mem_filter.1 hn
  rintro ⟨m, hm, hconcept⟩
  cases (hkeyed.get?_id hvalue).symm.trans hm
  exact of_decide_eq_true hkind hconcept

theorem mem_uses_iff {package : Option Value} :
    (r, package) ∈ uses g ↔ ∃ e ∈ g.edges.values, e.kind = .dependsOn ∧ e.source = r ∧
      (g.nodes.get? e.target).bind (·.properties.get? (.text "package")) = package := by
  simp only [uses, List.mem_filterMap, Option.ite_none_right_eq_some, Option.some.injEq, Prod.mk.injEq]

theorem exists_leadsToPackage_iff :
    IsDependent g r ↔ ∃ e ∈ g.edges.values, e.source = r ∧ g.LeadsToPackage e := by
  constructor
  · rintro ⟨⟨_, package⟩, huse, rfl, v, hv, hfalsy⟩
    obtain ⟨e, he, hkind, hsource, hpackage⟩ := mem_uses_iff.1 huse
    obtain ⟨n, hn, hp⟩ := Option.bind_eq_some_iff.1 (hpackage.trans hv)
    exact ⟨e, he, hsource, hkind, n, v, hn, hp, hfalsy⟩
  · rintro ⟨e, he, rfl, hkind, n, v, hn, hp, hfalsy⟩
    exact ⟨_, mem_uses_iff.2 ⟨e, he, hkind, rfl, Option.bind_eq_some_iff.2 ⟨n, hn, hp⟩⟩, rfl, v, rfl, hfalsy⟩

/-- With a threshold that a single dependent reaches, everything that depends on a package is named. -/
theorem exists_related_of_dependent {least : Int} (h : detect threshold g = .ok found)
    (hleast : threshold.ceiling = .ok least) (hone : least ≤ 1) (hr : IsDependent g r) :
    ∃ p ∈ found.dependency, ∃ r' ∈ p.related, r'.canon = r.canon := by
  obtain ⟨_, _, _, _, _, _, _, dependencies, -, -, -, -, -, -, -, hdependency, rfl⟩ := detect_ok h
  obtain ⟨use, huse, rfl, v, hv, hfalsy⟩ := hr
  obtain ⟨groups, hgroups, -⟩ := Except.bind_eq_ok.1 hdependency
  obtain ⟨key, hitem⟩ := exists_packageUse hgroups huse hv hfalsy
  obtain ⟨k, hk, r', hr', hid⟩ := exists_member_of_mem (List.mem_filterMap.2 ⟨use, huse, hitem⟩)
  rw [dependency_eq hgroups hleast, dependents_ok hgroups, entries_gather] at hdependency
  cases hdependency
  have hmany : least ≤ (KeySet.ofList (membersOf (packageUses g) k)).size := by
    have hpos := List.length_pos_of_mem hr'
    rw [← Table.size_eq_length_keys] at hpos
    exact Int.le_trans hone (Int.ofNat_le.2 hpos)
  refine ⟨_, List.mem_map_of_mem (List.mem_filter.2 ⟨List.mem_map_of_mem hk, decide_eq_true hmany⟩), r', hr', hid⟩

/-- Every edge of a later graph is an old one or has been stored since. -/
theorem oldOrStored_kept (now : String) (g : Graph) :
    Kept now (fun _ _ => True) fun g' stored =>
      ∀ k e, g'.edges.get? k = some e → g.edges.get? k = some e ∨ e ∈ stored where
  node g' stored id d _ h := by
    rcases Graph.after_writeNode g' now id d with hsame | ⟨c, hwritten, -⟩
    · rwa [hsame]
    · rwa [hwritten]
  edge g' stored _ _ _ _ e _ h k e' he' := by
    rw [Graph.get?_edges_putEdge] at he'
    split at he'
    · cases he'
      exact Or.inr (List.mem_append_right _ List.mem_cons_self)
    · exact (h k e' he').imp_right (List.mem_append_left _)

/-- What discovery stores comes from nodes that patterns name. -/
theorem source_of_mem_storedAll (h : e ∈ Write.storedAll now (writes threshold g) g) :
    ∃ found, detect threshold g = .ok found ∧ ∃ p ∈ found.all, e.source ∈ p.related := by
  obtain ⟨w, hw, g', hlink⟩ := Write.exists_of_mem_storedAll h
  unfold writes at hw
  cases hfound : detect threshold g with
  | error fault =>
    rw [hfound] at hw
    cases List.mem_singleton.1 hw
    cases hlink
  | ok found =>
    rw [hfound] at hw
    obtain ⟨p, hp, hw⟩ := List.mem_flatMap.1 hw
    rcases List.mem_cons.1 hw with rfl | hw
    · cases hlink
    · obtain ⟨r, hr, rfl⟩ := List.mem_map.1 hw
      obtain ⟨x, -, rfl⟩ := Write.stored?_link_eq_some hlink
      exact ⟨found, rfl, p, hp, hr⟩

theorem edge_after_discover {k : Scalar} (hkeyed : g.NodesKeyed)
    (he : ((discover now threshold).after g).edges.get? k = some e) :
    g.edges.get? k = some e ∨ ∃ found, detect threshold g = .ok found ∧ ∃ p ∈ found.all, e.source ∈ p.related := by
  have hedges : ∀ k e, ((Call.discover now threshold).after g).edges.get? k = some e →
      g.edges.get? k = some e ∨ e ∈ [] ++ (Call.discover now threshold).stored g :=
    (oldOrStored_kept now g).discover hkeyed (fun w _ => w.drafts_of_forall fun _ _ => trivial)
      fun _ _ h => Or.inl h
  exact (hedges k e he).imp_right source_of_mem_storedAll

/-- Only passes over nodes leave concepts out. After any calls, what the other pass names depends on a package;
with a threshold that a single dependent reaches it names every concept that does. Where no concept does, no
pattern names a concept, and no concept is made to implement one. -/
theorem concepts_in_patterns (calls : List Call) (now : String) (threshold : Value) :
    let g := Graph.ofCalls calls
    (∀ found g', (discover now threshold).run g = .ok found g' →
      (∀ p ∈ found.design ++ found.architectural ++ found.naming, ∀ r ∈ p.related, ¬ g.IsConcept r) ∧
      (∀ p ∈ found.dependency, ∀ r ∈ p.related, ∃ e ∈ g.edges.values, e.source = r ∧ g.LeadsToPackage e) ∧
      ∀ least, threshold.ceiling = .ok least → least ≤ 1 →
        ∀ e ∈ g.edges.values, g.LeadsToPackage e → g.IsConcept e.source →
          ∃ p ∈ found.dependency, ∃ r ∈ p.related, g.IsConcept r) ∧
    ((∀ e ∈ g.edges.values, g.LeadsToPackage e → ¬ g.IsConcept e.source) →
      (∀ found g', (discover now threshold).run g = .ok found g' →
        ∀ p ∈ found.all, ∀ r ∈ p.related, ¬ g.IsConcept r) ∧
      ∀ k e, ((discover now threshold).after g).edges.get? k = some e →
        g.edges.get? k = some e ∨ ¬ g.IsConcept e.source) := by
  intro g
  have hkeyed : g.NodesKeyed := Graph.nodesKeyed_ofCalls calls
  have hcode : ∀ found, detect threshold g = .ok found →
      ∀ p ∈ found.design ++ found.architectural ++ found.naming, ∀ r ∈ p.related, ¬ g.IsConcept r :=
    fun found hfound p hp r hr => not_isConcept_of_isCode hkeyed ((related_of_detect hfound).1 p hp r hr)
  have hdependent : ∀ found, detect threshold g = .ok found →
      ∀ p ∈ found.dependency, ∀ r ∈ p.related, ∃ e ∈ g.edges.values, e.source = r ∧ g.LeadsToPackage e :=
    fun found hfound p hp r hr => exists_leadsToPackage_iff.1 ((related_of_detect hfound).2 p hp r hr)
  refine ⟨fun found g' hrun => ?_, fun hplain => ?_⟩
  · have hfound := detect_of_run hrun
    refine ⟨hcode found hfound, hdependent found hfound, fun least hleast hone e he hleads hconcept => ?_⟩
    obtain ⟨p, hp, r, hr, hid⟩ := exists_related_of_dependent hfound hleast hone
      (exists_leadsToPackage_iff.2 ⟨e, he, rfl, hleads⟩)
    exact ⟨p, hp, r, hr, (Graph.isConcept_congr hid).2 hconcept⟩
  · have hall : ∀ found, detect threshold g = .ok found → ∀ p ∈ found.all, ∀ r ∈ p.related, ¬ g.IsConcept r := by
      intro found hfound p hp r hr
      rcases List.mem_append.1 hp with hp | hp
      · exact hcode found hfound p hp r hr
      · obtain ⟨e, he, rfl, hleads⟩ := hdependent found hfound p hp r hr
        exact hplain e he hleads
    refine ⟨fun found g' hrun => hall found (detect_of_run hrun), fun k e he => ?_⟩
    refine (edge_after_discover hkeyed he).imp_right fun ⟨found, hfound, p, hp, hr⟩ => ?_
    exact hall found hfound p hp e.source hr

/-- A file, a concept and a node with a package, on which one of the others depends. -/
def dependingCalls (source : String) : List Call := [
  .addNode "t0" (.text "f") (.fields [("type", .text "file"), ("name", .text "app.js")]),
  .addNode "t0" (.text "c") (.fields [("type", .text "concept"), ("name", .text "Cache")]),
  .addNode "t0" (.text "d") (.fields [("type", .text "dependency"), ("name", .text "react"),
    ("properties", .fields [("package", .text "react")])]),
  .addRelationship "t1" (.text source) (.text "d") (.text "DEPENDS_ON") .null]

def reactUsage (source : String) : Pattern := heavyUsage (.text "react") (.ofList [.text source])

/-- What is found where only this node depends on the package. -/
def dependingFound (source : String) : Found where
  design := []
  architectural := []
  naming := [convention .mixed [.text "f"], convention .camel [.text "d"]]
  dependency := [reactUsage source]

theorem discover_dependingCalls {source : String} (hsource : source = "f" ∨ source = "c") :
    (discover "t2" (.int 1)).run (Graph.ofCalls (dependingCalls source)) =
      .ok (dependingFound source) ((Graph.ofCalls (dependingCalls source)).mark "t2" (dependingFound source).marks) := by
  have hfound : detect (.int 1) (Graph.ofCalls (dependingCalls source)) = .ok (dependingFound source) := by
    rcases hsource with rfl | rfl <;> rfl
  refine discover_run "t2" (Graph.nodesKeyed_ofCalls _) hfound ?_
  rcases hsource with rfl | rfl <;> decide

theorem isConcept_dependingCalls {source : String} (hsource : source = "f" ∨ source = "c") :
    (Graph.ofCalls (dependingCalls source)).IsConcept (.text "c") := by
  rcases hsource with rfl | rfl <;> exact ⟨_, rfl, rfl⟩

theorem concepts_in_patterns_dependingCalls :
    let g := Graph.ofCalls (dependingCalls "f")
    g.IsConcept (.text "c") ∧ (∀ e ∈ g.edges.values, g.LeadsToPackage e → ¬ g.IsConcept e.source) ∧
    ∃ found g', (discover "t2" (.int 1)).run g = .ok found g' ∧ found.dependency ≠ [] ∧
      ∀ p ∈ found.all, ∀ r ∈ p.related, ¬ g.IsConcept r := by
  intro g
  have hplain : ∀ e ∈ g.edges.values, g.LeadsToPackage e → ¬ g.IsConcept e.source := by
    rintro e he - ⟨n, hn, hkind⟩
    have hedges : g.edges.values = [Graph.relationship "t1" (.text "f") (.text "d") .dependsOn ∅ 1.0] := rfl
    cases List.mem_singleton.1 (hedges ▸ he)
    have hfile : (g.nodes.get? (.text "f")).map Node.kind = some .file := rfl
    change g.nodes.get? (.text "f") = some n at hn
    rw [hn, Option.map_some, hkind] at hfile
    cases hfile
  have hrun := discover_dependingCalls (Or.inl rfl)
  exact ⟨isConcept_dependingCalls (Or.inl rfl), hplain, _, _, hrun, List.cons_ne_nil _ _,
    ((concepts_in_patterns (dependingCalls "f") "t2" (.int 1)).2 hplain).1 _ _ hrun⟩

/-- A concept that depends on a package is named, and made to implement the pattern. -/
theorem concept_implements_dependency :
    let g := Graph.ofCalls (dependingCalls "c")
    g.IsConcept (.text "c") ∧ ∃ found g', (discover "t2" (.int 1)).run g = .ok found g' ∧
      (∃ p ∈ found.dependency, .text "c" ∈ p.related) ∧
      ∃ k e, g'.edges.get? k = some e ∧ e.kind = .implements ∧ e.source = .text "c" := by
  refine ⟨isConcept_dependingCalls (Or.inr rfl), _, _, discover_dependingCalls (Or.inr rfl),
    ⟨_, List.mem_cons_self, List.mem_cons_self⟩, ?_⟩
  have hlast : (dependingFound "c").marks =
      (dependingFound "c").marks.dropLast ++ [.implement (reactUsage "c") (.text "c")] := rfl
  rw [hlast, Graph.mark, List.foldl_append]
  exact ⟨((reactUsage "c").edge "t2" (.text "c")).id, (reactUsage "c").edge "t2" (.text "c"),
    Graph.get?_edges_putEdge.trans (if_pos rfl), rfl, rfl⟩

end Discovery

end CodeAtlas
