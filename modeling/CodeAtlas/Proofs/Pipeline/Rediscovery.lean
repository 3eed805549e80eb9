import CodeAtlas.Proofs.Discovery.Marks
import CodeAtlas.Proofs.Pipeline.Runs

/-! Discovery in graphs that only ingestion and discovery have written. It adds concepts and what implements
them, and nothing that it looks at itself: so it leaves the code as it was, and when it is run again it
finds the same and changes nothing but times. -/

namespace CodeAtlas

/-- What discovery sees of a node as a whole: a concept not at all, and no connections. -/
def Node.seen (n : Node) : Option Node := if n.kind = .concept then none else some n.bare

namespace Discovery

theorem codeNodes_bare (g : Graph) : (codeNodes g).map Node.bare = g.nodes.values.filterMap Node.seen := by
  unfold codeNodes
  induction g.nodes.values with
  | nil => rfl
  | cons n rest ih =>
    by_cases hkind : n.kind = .concept
    · rw [List.filter_cons_of_neg (by simp [hkind]), List.filterMap_cons, Node.seen, if_pos hkind]
      exact ih
    · rw [List.filter_cons_of_pos (by simp [hkind]), List.filterMap_cons, Node.seen, if_neg hkind,
        List.map_cons, ih]

/-- Whether a graph came out of another by adding no more than concepts of these patterns and edges that
implement them: all nodes but the concepts keep their records, and all edges but those to the concepts stay
as they are. -/
structure Adds (ps : List Pattern) (g g' : Graph) : Prop where
  node_kept : ∀ k n, g.nodes.get? k = some n → n.kind ≠ .concept →
    ∃ m, g'.nodes.get? k = some m ∧ n.SameRecord m
  edge_kept : ∀ k e, g.edges.get? k = some e → e.kind ≠ .implements → g'.edges.get? k = some e
  node_added : ∀ k m, g'.nodes.get? k = some m →
    (∃ n, g.nodes.get? k = some n ∧ n.SameRecord m) ∨ m.kind = .concept ∧ ∃ p ∈ ps, k = p.key
  edge_added : ∀ k e, g'.edges.get? k = some e →
    g.edges.get? k = some e ∨ e.kind = .implements ∧ ∃ p ∈ ps, e.target = p.key ∧ e.source ∈ p.related

namespace Adds

variable {ps : List Pattern} {g g' g'' : Graph}

theorem refl (ps : List Pattern) (g : Graph) : Adds ps g g where
  node_kept _ n hn _ := ⟨n, hn, .refl n⟩
  edge_kept _ _ he _ := he
  node_added _ m hm := Or.inl ⟨m, hm, .refl m⟩
  edge_added _ _ he := Or.inl he

theorem trans (h : Adds ps g g') (h' : Adds ps g' g'') : Adds ps g g'' where
  node_kept k n hn hkind := by
    obtain ⟨m, hm, hsame⟩ := h.node_kept k n hn hkind
    obtain ⟨l, hl, hsame'⟩ := h'.node_kept k m hm (hsame.kind_eq ▸ hkind)
    exact ⟨l, hl, hsame.trans hsame'⟩
  edge_kept k e he hkind := h'.edge_kept k e (h.edge_kept k e he hkind) hkind
  node_added k l hl := by
    rcases h'.node_added k l hl with ⟨m, hm, hsame'⟩ | hadded
    · rcases h.node_added k m hm with ⟨n, hn, hsame⟩ | ⟨hkind, hp⟩
      · exact Or.inl ⟨n, hn, hsame.trans hsame'⟩
      · exact Or.inr ⟨hsame'.kind_eq.trans hkind, hp⟩
    · exact Or.inr hadded
  edge_added k e he := by
    rcases h'.edge_added k e he with he' | hadded
    · exact h.edge_added k e he'
    · exact Or.inr hadded

end Adds

end Discovery

namespace Mark

open Discovery (Adds Alike codeNodes codeNodes_bare uses)

variable {texts : List String} {g : Graph} {now : String} {m : Mark} {p : Pattern} {r : Scalar}
  {ps : List Pattern}

theorem of_concept_mem (h : .concept p ∈ ps.flatMap Pattern.marks) : p ∈ ps := by
  obtain ⟨q, hq, h⟩ := List.mem_flatMap.1 h
  rcases List.mem_cons.1 h with h | h
  · cases h
    exact hq
  · obtain ⟨_, -, h⟩ := List.mem_map.1 h
    cases h

theorem of_implement_mem (h : .implement p r ∈ ps.flatMap Pattern.marks) : p ∈ ps ∧ r ∈ p.related := by
  obtain ⟨q, hq, h⟩ := List.mem_flatMap.1 h
  rcases List.mem_cons.1 h with h | h
  · cases h
  · obtain ⟨_, hr, h⟩ := List.mem_map.1 h
    cases h
    exact ⟨hq, hr⟩

theorem schematic_apply (h : Schematic texts g) (hm : m.write.Fits texts) (hready : m.Ready g) :
    Schematic texts (m.apply now g) := by
  have hrun : Schematic texts ((m.write.run now).after g) := h.run hm
  rwa [Change.after_of_ok (run_of_ready hready)] at hrun

theorem kind_of_key (h : Schematic texts g) (hids : NoCollision texts) (hp : Names texts p.key .concept)
    {k : Scalar} {n : Node} (hk : p.key.canon = k.canon) (hn : g.nodes.get? k = some n) :
    n.kind = .concept := by
  rw [← Table.get?_congr hk] at hn
  exact h.kind_eq hids hp hn

theorem kind_of_edge (h : Schematic texts g) (hids : NoCollision texts)
    (hm : (implement p r).write.Fits texts) {k : Scalar} {e : Edge} (hk : (p.edge now r).id.canon = k.canon)
    (he : g.edges.get? k = some e) : e.kind = .implements := by
  have hfits : (p.edge now r).Fits texts := ⟨hm.1, rfl, hm.2⟩
  rw [← Table.get?_congr hk] at he
  exact ((h.edges _ e he).eq_of_id hids hfits (h.keys _ e he).symm).2.2

theorem adds_apply (h : Schematic texts g) (hids : NoCollision texts) (hm : m.write.Fits texts)
    (hmem : m ∈ ps.flatMap Pattern.marks) : Adds ps g (m.apply now g) := by
  cases m with
  | concept p =>
    have hkey : p.key.IsText := ⟨_, rfl⟩
    refine ⟨fun k n hn hkind => ?_, fun k e he _ => he, fun k l hl => ?_, fun k e he => Or.inl he⟩
    · refine ⟨n, ?_, .refl n⟩
      rw [Mark.apply, Graph.get?_nodes_withNode, if_neg ?_, hn]
      exact fun hk => hkind (kind_of_key h hids hm hk hn)
    · rw [Mark.apply, Graph.get?_nodes_withNode] at hl
      split at hl
      · rename_i hk
        cases hl
        exact Or.inr ⟨Graph.written_kind, p, of_concept_mem hmem,
          Scalar.isText_of_canon_eq hk.symm hkey⟩
      · exact Or.inl ⟨l, hl, .refl l⟩
  | implement p r =>
    obtain ⟨hp, hr⟩ := of_implement_mem hmem
    refine ⟨fun k n hn _ => ?_, fun k e he hkind => ?_, fun k l hl => ?_, fun k e he => ?_⟩
    · refine ⟨n.meet (p.edge now r) k, ?_, .meet n _ k⟩
      rw [Mark.apply, Graph.get?_nodes_putEdge, hn, Option.map_some]
    · rw [Mark.apply, Graph.get?_edges_putEdge, if_neg ?_, he]
      exact fun hk => hkind (kind_of_edge h hids hm hk he)
    · rw [Mark.apply, Graph.get?_nodes_putEdge] at hl
      obtain ⟨n, hn, rfl⟩ := Option.map_eq_some_iff.1 hl
      exact Or.inl ⟨n, hn, .meet n _ k⟩
    · rw [Mark.apply, Graph.get?_edges_putEdge] at he
      split at he
      · cases he
        exact Or.inr ⟨rfl, p, hp, rfl, hr⟩
      · exact Or.inl he

theorem bareNodes_apply (h : Schematic texts g) (hids : NoCollision texts) (hm : m.write.Fits texts) :
    (codeNodes (m.apply now g)).map Node.bare = (codeNodes g).map Node.bare := by
  rw [codeNodes_bare, codeNodes_bare]
  cases m with
  | concept p =>
    refine Table.filterMap_values_insert (if_pos Graph.written_kind) fun old hold => ?_
    exact if_pos (kind_of_key h hids hm rfl hold)
  | implement p r =>
    have hsame : ((implement p r).apply now g).nodes.mapValues Node.seen = g.nodes.mapValues Node.seen :=
      Graph.mapValues_nodes_putEdge fun n k => by
        rw [Node.meet_eq]
        rfl
    rw [← Table.filterMap_id_mapValues, hsame, Table.filterMap_id_mapValues]

theorem uses_apply (h : Schematic texts g) (hids : NoCollision texts) (hm : m.write.Fits texts) :
    uses (m.apply now g) = uses g := by
  unfold uses
  cases m with
  | concept p =>
    refine List.filterMap_congr fun e he => ?_
    by_cases hkind : e.kind = .dependsOn
    · -- a dependency leads to no concept, so the node that it leads to is not the one that is written
      obtain ⟨k, hk⟩ := Table.mem_values_iff.1 he
      obtain ⟨_, b, -, hb, hjoins⟩ := (h.edges k e hk).joins
      rw [hkind] at hjoins
      cases hjoins
      have hne : ¬ p.key.canon = e.target.canon := by
        intro hsame
        rw [← Scalar.isText_of_canon_eq hsame hb.isText] at hb
        exact NodeKind.noConfusion (hb.kind_eq hids hm)
      rw [if_pos hkind, if_pos hkind, Mark.apply, Graph.get?_nodes_withNode, if_neg hne]
    · rw [if_neg hkind, if_neg hkind]
  | implement p r =>
    have hpackage : ∀ k, (((implement p r).apply now g).nodes.get? k).bind
        (·.properties.get? (.text "package")) =
          (g.nodes.get? k).bind (·.properties.get? (.text "package")) := by
      intro k
      rw [Mark.apply, Graph.get?_nodes_putEdge]
      cases g.nodes.get? k with
      | none => rfl
      | some n => exact congrArg (Table.get? · _) Node.meet_properties
    simp only [hpackage]
    refine Table.filterMap_values_insert (if_neg RelationKind.noConfusion) fun old hold => ?_
    have hkind : old.kind = .implements := kind_of_edge h hids hm rfl hold
    rw [hkind, if_neg RelationKind.noConfusion]

theorem alike_apply (h : Schematic texts g) (hids : NoCollision texts) (hm : m.write.Fits texts) :
    Alike g (m.apply now g) :=
  ⟨bareNodes_apply h hids hm, uses_apply h hids hm⟩

theorem adds_mark (h : Schematic texts g) (hids : NoCollision texts)
    (hfits : ∀ m ∈ ps.flatMap Pattern.marks, m.write.Fits texts)
    (hready : AllReady now (ps.flatMap Pattern.marks) g) :
    Adds ps g (g.mark now (ps.flatMap Pattern.marks)) ∧
      Alike g (g.mark now (ps.flatMap Pattern.marks)) := by
  refine (hready.keeps (fun g' => Schematic texts g' ∧ Adds ps g g' ∧ Alike g g')
    ⟨h, .refl ps g, .refl g⟩ ?_).2
  rintro m hm g' hr ⟨hg', hadds, halike⟩
  exact ⟨schematic_apply hg' (hfits m hm) hr, hadds.trans (adds_apply hg' hids (hfits m hm) hm),
    halike.trans (alike_apply hg' hids (hfits m hm))⟩

end Mark

namespace Discovery

variable {texts : List String} {g : Graph} {threshold : Value} {found : Found} {r : Scalar}

theorem hasNode_of_shows (h : Schematic texts g) (hkeyed : g.NodesKeyed) (hr : Shows g r) :
    g.hasNode r = true := by
  rcases hr with ⟨n, hn, rfl⟩ | ⟨use, huse, rfl⟩
  · obtain ⟨k, hk⟩ := Table.mem_values_iff.1 (List.mem_of_mem_filter hn)
    exact (Table.contains_congr (hkeyed k n hk)).trans (Table.contains_of_get? hk)
  · obtain ⟨e, he, hsome⟩ := List.mem_filterMap.1 huse
    split at hsome
    · cases hsome
      obtain ⟨k, hk⟩ := Table.mem_values_iff.1 he
      exact (h.ends k e hk).1
    · cases hsome

theorem hasNode_of_detect (h : Schematic texts g) (hkeyed : g.NodesKeyed)
    (hfound : detect threshold g = .ok found) : ∀ p ∈ found.all, ∀ r ∈ p.related, g.hasNode r = true :=
  fun p hp r hr => hasNode_of_shows h hkeyed (shown_of_detect hfound p hp r hr)

theorem fits_of_mem_marks (h : Schematic texts g) (hkeyed : g.NodesKeyed)
    (htexts : ∀ t ∈ hashedTexts threshold g, t ∈ texts) (hfound : detect threshold g = .ok found) :
    ∀ m ∈ found.marks, m.write.Fits texts := by
  rw [hashedTexts, hfound] at htexts
  intro m hm
  obtain ⟨p, hp, hm⟩ := List.mem_flatMap.1 hm
  refine fits_of_mem_patternWrites h hkeyed (shown_of_detect hfound p hp)
    (fun t ht => htexts t (List.mem_flatMap.2 ⟨p, hp, ht⟩)) m.write ?_
  rw [Pattern.writes_eq]
  exact List.mem_map_of_mem hm

/-- What a discovery adds to a graph that fits the schema, and what one does after it. -/
theorem discover_again (now : String) (h : Schematic texts g) (hkeyed : g.NodesKeyed) (hids : NoCollision texts)
    (htexts : ∀ t ∈ hashedTexts threshold g, t ∈ texts) (hfound : detect threshold g = .ok found) :
    ∃ g', (discover now threshold).run g = .ok found g' ∧ Adds found.all g g' ∧
      (∀ p ∈ found.all, ∃ c, g'.nodes.get? p.key = some c ∧ c.kind = .concept) ∧
      ∀ now', ∃ g'', (discover now' threshold).run g' = .ok found g'' ∧ g''.restamped = g'.restamped := by
  have hthere := hasNode_of_detect h hkeyed hfound
  have hready : Mark.AllReady now found.marks g := Mark.allReady_patterns hthere
  obtain ⟨hadds, halike⟩ := Mark.adds_mark h hids (fits_of_mem_marks h hkeyed htexts hfound) hready
  refine ⟨g.mark now found.marks, discover_run now hkeyed hfound hthere, hadds, fun p hp => ?_, fun now' => ?_⟩
  · exact hready.made (.concept p) (List.mem_flatMap.2 ⟨p, hp, List.mem_cons_self⟩)
  · have hfound' : detect threshold (g.mark now found.marks) = .ok found :=
      (halike.detect threshold).trans hfound
    have hkeyed' : (g.mark now found.marks).NodesKeyed := Ingestion.nodesKeyed_of_runAll hkeyed hready.run
    have hthere' : ∀ p ∈ found.all, ∀ r ∈ p.related, (g.mark now found.marks).hasNode r = true :=
      fun p hp r hr => Mark.hasNode_mark (hthere p hp r hr)
    exact ⟨_, discover_run now' hkeyed' hfound' hthere', hready.again⟩

end Discovery

section Scannable

/-- A draft of a node that every pass can look at. -/
structure NodeDraft.Scannable (d : NodeDraft) : Prop where
  named : ∃ s, d.name = some (.text s)
  methods : ∀ v, d.properties.get? (.text "methods") = some v → ∃ items, v = .list items
  package : ∀ v, d.properties.get? (.text "package") = some v → ∃ s, v = .text s

/-- A graph of nodes that every pass can look at. -/
structure Graph.Scannable (g : Graph) : Prop where
  keyed : g.NodesKeyed
  nodes : ∀ k n, g.nodes.get? k = some n → n.Scannable

theorem Graph.Scannable.of_mem_values {g : Graph} (h : g.Scannable) : ∀ n ∈ g.nodes.values, n.Scannable := by
  intro n hn
  obtain ⟨k, hk⟩ := Table.mem_values_iff.1 hn
  exact h.nodes k n hk

theorem Graph.scannable_kept (now : String) :
    Kept now (fun _ d => d.Scannable) fun g _ => g.Scannable where
  node g _ id d hd h := by
    rcases after_writeNode g now id d with hsame | ⟨c, hwritten, -⟩
    · rwa [hsame]
    · rw [hwritten]
      refine ⟨h.keyed.withNode c, fun k n hn => ?_⟩
      rw [get?_nodes_withNode] at hn
      split at hn
      · cases hn
        obtain ⟨s, hs⟩ := hd.named
        refine ⟨⟨s, written_name hs⟩, ?_, ?_⟩
        · rw [written_properties]
          exact hd.methods
        · rw [written_properties]
          exact hd.package
      · exact h.nodes k n hn
  edge g _ _ _ _ _ e _ h := by
    refine ⟨h.keyed.putEdge, fun k n hn => ?_⟩
    rw [get?_nodes_putEdge] at hn
    obtain ⟨m, hm, rfl⟩ := Option.map_eq_some_iff.1 hn
    have hold := h.nodes k m hm
    rw [Node.meet_eq]
    exact ⟨hold.named, hold.methods, hold.package⟩

/-- All drafts of the pipeline can be looked at by every pass. -/
theorem Call.scannable_drafts {c : Call} (hc : c.isPipeline = true) : c.Drafts fun _ d => d.Scannable := by
  cases c with
  | ingest now records =>
    refine Ingestion.drafts_of_each (fun v hv r hr => ?_) (fun path name fact => ?_)
      (fun path name fact => ?_) fun language importPath => ?_
    · obtain ⟨path, hpath⟩ := exists_path_of_hasTextNames now hc v hv r hr
      exact ⟨⟨path, congrArg some hpath⟩, fun _ h => (nomatch h), fun _ h => (nomatch h)⟩
    · exact ⟨⟨name, rfl⟩, fun _ h => (nomatch h), fun _ h => (nomatch h)⟩
    · exact ⟨⟨name, rfl⟩, fun _ h => ⟨_, (Option.some.inj h).symm⟩, fun _ h => (nomatch h)⟩
    · exact ⟨⟨importPath, rfl⟩, fun _ h => (nomatch h), fun _ h => ⟨_, (Option.some.inj h).symm⟩⟩
  | discover now threshold =>
    intro g
    exact Discovery.drafts_of_mem_writes fun id p =>
      ⟨⟨p.name, rfl⟩, fun _ h => (nomatch h), fun _ h => (nomatch h)⟩
  | addNode now id data => cases hc
  | addRelationship now source target kind properties => cases hc
  | importExport now data => cases hc

theorem Graph.scannable_ofCalls {calls : List Call} (hcalls : ∀ c ∈ calls, c.isPipeline = true) :
    (ofCalls calls).Scannable := by
  rw [← History.graph_ofCalls]
  have hkept : ∀ c ∈ calls, Kept c.now (fun _ d => d.Scannable) fun g _ => g.Scannable :=
    fun c _ => scannable_kept c.now
  refine History.ofCalls_kept ⟨linked_empty.nodes_keyed, fun _ _ h => nomatch h⟩ (fun g _ h => h.keyed)
    hkept (fun c hc => Call.scannable_drafts (hcalls c hc)) ?_
  intro now data g edges hc
  cases hcalls _ hc

end Scannable

namespace Discovery

/-- Discovery after any ingestions of records with textual paths and any discoveries, failing ones included, if
no two of the texts that were hashed have one id. It finds patterns if the threshold is a number, and
leaves the graph alone if it fails. If it does not, it adds no more than concepts of what it finds and edges
to them; all of these concepts are there afterwards. A second discovery with the same threshold then finds
the same patterns in the same order, and changes nothing but the times at which concepts were last written
and edges were stored. -/
theorem discover_of_calls (calls : List Call) (hcalls : ∀ c ∈ calls, c.isPipeline = true) (now : String)
    (threshold : Value)
    (hids : NoCollision (Graph.hashedTexts (calls ++ [.discover now threshold]))) :
    let g := Graph.ofCalls calls
    (∀ least, threshold.ceiling = .ok least → ∃ found g', (discover now threshold).run g = .ok found g') ∧
    (∀ e g', (discover now threshold).run g = .error e g' → g' = g) ∧
    ∀ found g', (discover now threshold).run g = .ok found g' →
      Adds found.all g g' ∧
      (∀ p ∈ found.all, ∃ c, g'.nodes.get? p.key = some c ∧ c.kind = .concept) ∧
      ∀ now', ∃ g'', (discover now' threshold).run g' = .ok found g'' ∧
        g''.restamped = g'.restamped := by
  intro g
  rw [Graph.hashedTexts_append] at hids
  have hkeyed : g.NodesKeyed := Graph.nodesKeyed_ofCalls calls
  have hschema := (Graph.schematic_ofCalls hcalls fun _ ht =>
    List.mem_append_left (Call.hashedTexts g (.discover now threshold)) ht).2
  cases hfound : detect threshold g with
  | error e =>
    have hrun := discover_run_of_error now hfound
    refine ⟨fun least hleast => ?_, fun e' g' herror => ?_, fun found g' hok => ?_⟩
    · obtain ⟨found, hok⟩ := exists_detect (Graph.scannable_ofCalls hcalls).of_mem_values hleast
      cases hfound.symm.trans hok
    · cases hrun.symm.trans herror
      rfl
    · cases hrun.symm.trans hok
  | ok found =>
    obtain ⟨g', hrun, hadds, hconcepts, hagain⟩ := discover_again now hschema hkeyed hids
      (fun _ ht => List.mem_append_right _ ht) hfound
    refine ⟨fun _ _ => ⟨found, g', hrun⟩, fun e g'' herror => ?_, fun found' g'' hok => ?_⟩
    · cases hrun.symm.trans herror
    · cases hrun.symm.trans hok
      exact ⟨hadds, hconcepts, hagain⟩

theorem discover_importingFile :
    ∃ found g' g'', (discover "t2" (.int 1)).run (Graph.ofCalls [importingFile]) = .ok found g' ∧
      Adds found.all (Graph.ofCalls [importingFile]) g' ∧
      (discover "t3" (.int 1)).run g' = .ok found g'' ∧ g''.restamped = g'.restamped := by
  obtain ⟨hfinds, -, hfrom⟩ := discover_of_calls [importingFile] (by decide) "t2" (.int 1)
    noCollision_importingRun.1
  obtain ⟨found, g', hrun⟩ := hfinds 1 rfl
  obtain ⟨hadds, -, hagain⟩ := hfrom found g' hrun
  obtain ⟨g'', hrun', hsame⟩ := hagain "t3"
  exact ⟨found, g', g'', hrun, hadds, hrun', hsame⟩

end Discovery

end CodeAtlas
