import CodeAtlas.Proofs.Discovery.Distinct
import CodeAtlas.Proofs.Pipeline.Exact
import CodeAtlas.Proofs.Query.Usages

/-! Asking for the patterns that were discovered. The index knows a concept by its lower-case name, so the
patterns of two packages that differ only in case share an entry, and the later one has it. Whichever
pattern the index leads to, the answer is that pattern and nothing else: its nodes are the uses of its
concept, each of them once. -/

namespace CodeAtlas

theorem lookup?_loweredNames {ps : List Pattern} {name : String} :
    lookup? (.text name) (ps.map fun p => (Scalar.text (Text.lowerText p.name), p.key)) =
      (ps.find? fun p => Text.lowerText p.name = name).map Pattern.key := by
  induction ps with
  | nil => rfl
  | cons p rest ih =>
    rw [List.map_cons, lookup?, ih, List.find?_cons]
    by_cases hname : Text.lowerText p.name = name <;> simp [hname]

namespace Mark

theorem flatMap_patterns {β : Type} {entries : Mark → List β} {ps : List Pattern}
    (h : ∀ p r, entries (.implement p r) = []) :
    (ps.flatMap Pattern.marks).flatMap entries = ps.flatMap fun p => entries (.concept p) := by
  rw [List.flatMap_assoc]
  refine List.flatMap_congr fun p _ => ?_
  have hnone : (p.related.map (Mark.implement p)).flatMap entries = [] := by
    rw [List.flatMap_map]
    exact List.flatMap_eq_nil_iff.2 fun r _ => h p r
  rw [Pattern.marks, List.flatMap_cons, hnone, List.append_nil]

theorem indexEntries_patterns (ps : List Pattern) :
    (ps.flatMap Pattern.marks).flatMap indexEntries =
      ps.map fun p => (Scalar.text (Text.lowerText p.name), p.key) := by
  rw [flatMap_patterns fun _ _ => rfl, List.map_eq_flatMap]
  rfl

theorem draftEntries_patterns (ps : List Pattern) :
    (ps.flatMap Pattern.marks).flatMap draftEntries = ps.map fun p => (p.key, p.draft) := by
  rw [flatMap_patterns fun _ _ => rfl, List.map_eq_flatMap]
  rfl

end Mark

/-- Whether the concept of a pattern is there and knows how many nodes show the pattern. -/
def Pattern.Noted (g : Graph) (p : Pattern) : Prop :=
  ∃ c, g.nodes.get? p.key = some c ∧ c.kind = .concept ∧ c.name = .text p.name ∧
    c.properties.get? (.text "instances") = some (.int p.related.length)

namespace Discovery

variable {g : Graph} {now : String} {threshold : Value} {found : Found} {texts : List String}
  {p q : Pattern}

/-- The last pattern found that has this name, apart from case. -/
def Found.lastNamed (found : Found) (name : String) : Option Pattern :=
  found.all.reverse.find? fun q => Text.lowerText q.name = Text.lowerText name

theorem exists_lastNamed (hp : p ∈ found.all) :
    ∃ q ∈ found.all, found.lastNamed p.name = some q ∧ Text.lowerText p.name = Text.lowerText q.name := by
  have hsome : (found.lastNamed p.name).isSome = true :=
    List.find?_isSome.2 ⟨p, List.mem_reverse.2 hp, decide_eq_true rfl⟩
  obtain ⟨q, hq⟩ := Option.isSome_iff_exists.1 hsome
  refine ⟨q, List.mem_reverse.1 (List.mem_of_find?_eq_some hq), hq, ?_⟩
  exact (of_decide_eq_true (List.find?_some (p := fun r => decide _) hq)).symm

theorem conceptId?_marks {name : String} (h : found.lastNamed name = some q) :
    (g.mark now found.marks).conceptId? name = some q.key := by
  have hview : (g.mark now found.marks).concepts =
      g.concepts.writeAll (found.marks.flatMap Mark.indexEntries) :=
    Mark.view_mark Graph.concepts Mark.indexEntries Mark.concepts_apply now
  rw [Graph.conceptId?, hview, Found.marks, Mark.indexEntries_patterns, Table.get?_writeAll,
    ← List.map_reverse, lookup?_loweredNames]
  have hfound : (found.all.reverse.find? fun p => Text.lowerText p.name = Text.lowerText name) = some q := h
  rw [hfound]
  rfl

theorem key_injective (hids : NoCollision texts) (htexts : ∀ t ∈ hashedTexts threshold g, t ∈ texts)
    (hfound : detect threshold g = .ok found) (hnames : (found.all.map Pattern.name).Nodup)
    (hp : p ∈ found.all) (hq : q ∈ found.all) (hkey : p.key = q.key) : p = q := by
  rw [hashedTexts, hfound] at htexts
  have htext : ∀ r ∈ found.all, nodeText NodeKind.concept.name r.name ∈ texts := fun r hr =>
    htexts _ (List.mem_flatMap.2 ⟨r, hr, List.mem_cons_self⟩)
  have hsame := hids _ (htext p hp) _ (htext q hq) (Scalar.text.inj hkey)
  exact List.inj_on_of_nodup_map hnames hp hq (nodeText_injective hsame).2

/-- Each pattern has a concept with its own data. -/
theorem noted_of_mem (hkeys : ∀ p ∈ found.all, ∀ q ∈ found.all, p.key = q.key → p = q)
    (hnames : (found.all.map Pattern.name).Nodup) (hp : p ∈ found.all) :
    p.Noted (g.mark now found.marks) := by
  have hview : (g.mark now found.marks).nodes.mapValues Node.draft =
      (g.nodes.mapValues Node.draft).writeAll (found.marks.flatMap Mark.draftEntries) :=
    Mark.view_mark (fun g => g.nodes.mapValues Node.draft) Mark.draftEntries Mark.drafts_apply now
  have hdistinct : DistinctKeys (found.all.reverse.map fun p => (p.key, p.draft)) := by
    have hnodup : found.all.reverse.Nodup := List.nodup_reverse.2 (List.Nodup.of_map _ hnames)
    refine List.pairwise_map.2 (hnodup.pairwise_of_forall_ne fun p hp q hq hne hcanon => hne ?_)
    exact hkeys p (List.mem_reverse.1 hp) q (List.mem_reverse.1 hq)
      (Scalar.isText_of_canon_eq hcanon ⟨_, rfl⟩)
  have hlast : lookup? p.key (found.all.reverse.map fun p => (p.key, p.draft)) = some p.draft :=
    lookup?_of_mem hdistinct (List.mem_map_of_mem (List.mem_reverse.2 hp))
  have hdraft : ((g.mark now found.marks).nodes.mapValues Node.draft).get? p.key = some p.draft := by
    rw [hview, Found.marks, Mark.draftEntries_patterns, Table.get?_writeAll, ← List.map_reverse, hlast]
    rfl
  rw [Table.get?_mapValues] at hdraft
  obtain ⟨c, hc, hsame⟩ := Option.map_eq_some_iff.1 hdraft
  refine ⟨c, hc, congrArg NodeDraft.kind hsame, ?_, ?_⟩
  · exact Option.some.inj (congrArg NodeDraft.name hsame)
  · have hproperties : c.properties = p.draft.properties := congrArg NodeDraft.properties hsame
    rw [hproperties]
    rfl

end Discovery

def Graph.Conceptless (g : Graph) : Prop := ∀ k n, g.nodes.get? k = some n → n.kind ≠ .concept

theorem Graph.conceptless_kept (now : String) :
    Kept now (fun _ d => d.kind ≠ .concept) fun g _ => g.NodesKeyed ∧ g.Conceptless where
  node g _ id d hd h := by
    rcases after_writeNode g now id d with hsame | ⟨c, hwritten, -⟩
    · rwa [hsame]
    · rw [hwritten]
      refine ⟨h.1.withNode c, fun k n hn => ?_⟩
      rw [get?_nodes_withNode] at hn
      split at hn
      · cases hn
        rwa [written_kind]
      · exact h.2 k n hn
  edge g _ _ _ _ _ e _ h := by
    refine ⟨h.1.putEdge, fun k n hn => ?_⟩
    rw [get?_nodes_putEdge] at hn
    obtain ⟨m, hm, rfl⟩ := Option.map_eq_some_iff.1 hn
    rw [Node.meet_kind]
    exact h.2 k m hm

/-- Ingestion writes no concepts. -/
theorem Graph.conceptless_ingest (now : String) (records : List Value) :
    (ofCalls [.ingest now records]).Conceptless := by
  rw [← History.graph_ofCalls]
  have hkept : ∀ c ∈ [Call.ingest now records],
      Kept c.now (fun _ d => d.kind ≠ .concept) fun g _ => g.NodesKeyed ∧ g.Conceptless :=
    fun c _ => conceptless_kept c.now
  have hdrafts : ∀ c ∈ [Call.ingest now records], c.Drafts fun _ d => d.kind ≠ .concept := by
    intro c hc
    rw [List.mem_singleton.1 hc]
    exact Ingestion.drafts_of_each (fun _ _ _ _ => NodeKind.noConfusion)
      (fun _ _ _ => NodeKind.noConfusion) (fun _ _ _ => NodeKind.noConfusion)
      fun _ _ => NodeKind.noConfusion
  refine (History.ofCalls_kept ⟨linked_empty.nodes_keyed, fun _ _ h => nomatch h⟩ (fun g _ h => h.1)
    hkept hdrafts ?_).2
  intro now data g edges hc
  cases List.mem_singleton.1 hc

namespace Discovery

section Uses

variable {g g' : Graph} {now : String} {found : Found} {texts : List String} {q : Pattern} {e : Edge}

theorem implements_of_target (h : Wrought texts g) (hids : NoCollision texts)
    (hkey : Names texts q.key .concept) (he : e ∈ g.edges.values) (htarget : e.target = q.key) :
    e.kind = .implements := by
  obtain ⟨k, hk⟩ := Table.mem_values_iff.1 he
  obtain ⟨a, b, -, hb, hjoins⟩ := (h.schema.edges k e hk).joins
  rw [htarget] at hb
  rw [hb.kind_eq hids hkey] at hjoins
  rcases hjoins.cases with ⟨-, -, hfile⟩ | ⟨-, -, hdependency⟩ | ⟨hkind, -, -⟩
  · exact absurd hfile NodeKind.noConfusion
  · exact absurd hdependency NodeKind.noConfusion
  · exact hkind

theorem source_mem_related (hadds : Adds found.all g g') (h : Schematic texts g) (hids : NoCollision texts)
    (hplain : g.Conceptless) (hkey : Names texts q.key .concept)
    (hkeys : ∀ p ∈ found.all, p.key = q.key → p = q) (he : e ∈ g'.edges.values)
    (htarget : e.target = q.key) : e.source ∈ q.related := by
  obtain ⟨k, hk⟩ := Table.mem_values_iff.1 he
  rcases hadds.edge_added k e hk with hold | ⟨-, p, hp, hpkey, hsource⟩
  · -- an edge that was there before leads to a node that was there before, and that is no concept
    obtain ⟨n, hn⟩ := Graph.hasNode_iff.1 (h.ends k e hold).2
    rw [htarget] at hn
    exact absurd (h.kind_eq hids hkey hn) (hplain _ n hn)
  · rwa [hkeys p hp (hpkey.symm.trans htarget)] at hsource

theorem exists_edge_of_related (h : Wrought texts g) (hids : NoCollision texts) {r : Scalar}
    (hmade : (Mark.implement q r).Made g) (hfits : (q.edge "" r).Fits texts) :
    ∃ e ∈ g.edges.values, e.source = r ∧ e.target = q.key := by
  obtain ⟨n, hn, hlisted⟩ := hmade r (Or.inl rfl)
  obtain ⟨e, he⟩ := Table.contains_iff.1 (h.linked.stored r n hn _ hlisted)
  obtain ⟨hsource, htarget, -⟩ := (h.schema.edges _ e he).eq_of_id hids hfits (h.schema.keys _ e he).symm
  exact ⟨e, Table.mem_values_iff.2 ⟨_, he⟩, hsource, htarget⟩

theorem eq_of_ends (h : Wrought texts g) (ht : g.TextIds) {e e' : Edge} (he : e ∈ g.edges.values)
    (he' : e' ∈ g.edges.values) (hsource : e.source = e'.source) (htarget : e.target = e'.target)
    (hkind : e.kind = e'.kind) : e = e' := by
  obtain ⟨k, hk⟩ := Table.mem_values_iff.1 he
  obtain ⟨k', hk'⟩ := Table.mem_values_iff.1 he'
  have hid : e.id = e'.id := by
    rw [(h.schema.edges k e hk).id, (h.schema.edges k' e' hk').id, hsource, htarget, hkind]
  have hget := (h.linked.get?_edge ht he).1
  rw [hid, (h.linked.get?_edge ht he').1] at hget
  exact (Option.some.inj hget).symm

/-- The uses of a pattern's concept are the nodes that show the pattern. -/
theorem usages_of_pattern (h : Wrought texts g') (ht : g'.TextIds) (hids : NoCollision texts)
    (hkey : Names texts q.key .concept) (hrelated : q.related.Nodup)
    (hsources : ∀ e ∈ g'.edges.values, e.target = q.key → e.source ∈ q.related)
    (hedges : ∀ r ∈ q.related, ∃ e ∈ g'.edges.values, e.source = r ∧ e.target = q.key) :
    ((Query.usages g' q.key).map (·.node.id)).Perm q.related := by
  have hin : ∀ e, e ∈ Query.incoming g' q.key ↔ e ∈ g'.edges.values ∧ e.target = q.key :=
    fun e => Query.mem_incoming_iff h.linked ht ⟨_, rfl⟩
  rw [Query.map_id_usages h.linked ht]
  refine (List.perm_ext_iff_of_nodup ?_ hrelated).2 fun r => ⟨fun hr => ?_, fun hr => ?_⟩
  · refine (Query.nodup_incoming h.linked ht).map_on fun e he e' he' hsource => ?_
    obtain ⟨hmem, htarget⟩ := (hin e).1 he
    obtain ⟨hmem', htarget'⟩ := (hin e').1 he'
    refine eq_of_ends h ht hmem hmem' hsource (htarget.trans htarget'.symm) ?_
    exact (implements_of_target h hids hkey hmem htarget).trans
      (implements_of_target h hids hkey hmem' htarget').symm
  · obtain ⟨e, he, rfl⟩ := List.mem_map.1 hr
    obtain ⟨hmem, htarget⟩ := (hin e).1 he
    exact hsources e hmem htarget
  · obtain ⟨e, he, hsource, htarget⟩ := hedges r hr
    exact List.mem_map.2 ⟨e, (hin e).2 ⟨he, htarget⟩, hsource⟩

end Uses

section Marked

variable {texts : List String} {g : Graph} {now : String} {threshold : Value} {found : Found} {q : Pattern}

/-- After a discovery in a graph without concepts, the uses of a pattern's concept are the nodes that show the
pattern. -/
theorem usages_of_mem (h : Schematic texts g) (hkeyed : g.NodesKeyed) (hplain : g.Conceptless)
    (hids : NoCollision texts) (htexts : ∀ t ∈ hashedTexts threshold g, t ∈ texts)
    (hfound : detect threshold g = .ok found) (hmarked : Wrought texts (g.mark now found.marks))
    (hmarkedIds : (g.mark now found.marks).TextIds)
    (hkeys : ∀ p ∈ found.all, ∀ q ∈ found.all, p.key = q.key → p = q) (hrelated : q.related.Nodup)
    (hq : q ∈ found.all) :
    ((Query.usages (g.mark now found.marks) q.key).map (·.node.id)).Perm q.related ∧
      ∀ e ∈ (g.mark now found.marks).edges.values, e.target = q.key → e.kind = .implements := by
  have hfits := fits_of_mem_marks h hkeyed htexts hfound
  have hready : Mark.AllReady now found.marks g := Mark.allReady_patterns (hasNode_of_detect h hkeyed hfound)
  have hadds : Adds found.all g (g.mark now found.marks) := (Mark.adds_mark h hids hfits hready).1
  have hkey : Names texts q.key .concept :=
    hfits (.concept q) (List.mem_flatMap.2 ⟨q, hq, List.mem_cons_self⟩)
  refine ⟨usages_of_pattern hmarked hmarkedIds hids hkey hrelated (fun e he htarget => ?_) fun r hr => ?_,
    fun e he htarget => implements_of_target hmarked hids hkey he htarget⟩
  · exact source_mem_related hadds h hids hplain hkey (fun p hp => hkeys p hp q hq) he htarget
  · have hmem : .implement q r ∈ found.marks :=
      List.mem_flatMap.2 ⟨q, hq, List.mem_cons_of_mem _ (List.mem_map_of_mem hr)⟩
    obtain ⟨htext, hjoins⟩ := hfits _ hmem
    exact exists_edge_of_related hmarked hids (hready.made _ hmem) ⟨htext, rfl, hjoins⟩

end Marked

end Discovery

namespace Query

variable {g : Graph} {id : Scalar} {name : String}

theorem patterns_eq (hl : g.Linked) (ht : g.TextIds) (hindex : g.conceptId? name = some id)
    (hid : g.hasNode id = true) (hnonempty : (Value.scalar id).isFalsy = false) {limit : Int}
    (hlimit : (usages g id).length ≤ limit) : patterns g (.int limit) (.text name) = .ok (usages g id) := by
  simp only [patterns, hindex, hnonempty]
  exact usage_eq hl ht hid hlimit

end Query

theorem Pattern.isFalsy_key (p : Pattern) : (Value.scalar p.key).isFalsy = false := by
  refine Value.isFalsy_text fun hempty => ?_
  have hlength := length_contentId (nodeText NodeKind.concept.name p.name)
  have hkey : contentId (nodeText NodeKind.concept.name p.name) = "" := hempty
  rw [hkey] at hlength
  cases hlength

namespace Discovery

/-- Whether a graph answers for what was found: every pattern has its concept, which the nodes that show the
pattern implement and nothing else does, and the index leads from a name to the last pattern of that name. -/
structure Found.Answered (found : Found) (g : Graph) : Prop where
  linked : g.Linked
  textIds : g.TextIds
  noted : ∀ p ∈ found.all, p.related.Nodup ∧ p.Noted g
  indexed : ∀ name q, found.lastNamed name = some q → g.conceptId? name = some q.key
  used : ∀ q ∈ found.all, ((Query.usages g q.key).map (·.node.id)).Perm q.related
  implemented : ∀ q ∈ found.all, ∀ e ∈ g.edges.values, e.target = q.key → e.kind = .implements
  named : ∀ p ∈ found.all, ∀ q ∈ found.all, Text.lowerText p.name = Text.lowerText q.name →
    p = q ∨ p ∈ found.dependency ∧ q ∈ found.dependency

section Answered

variable {found : Found} {g : Graph} {q : Pattern}

/-- Asked for a name, the graph answers with the uses of the concept of the last pattern of that name. -/
theorem Found.Answered.findPatterns (h : found.Answered g) {name : String}
    (hlast : found.lastNamed name = some q) {engine : QueryEngine} (hengine : engine.graph = g) {limit : Int}
    (hlimit : q.related.length ≤ limit) :
    ∃ hits, engine.findPatterns (.text name) (.int limit) = .ok hits ∧
      hits.length = q.related.length ∧ (hits.map (·.node.id)).Perm q.related ∧
      ∀ hit ∈ hits, ∃ e ∈ g.edges.values, hit.relationship = some e ∧ e.kind = .implements ∧
        g.nodes.get? e.source = some hit.node ∧ e.target = q.key := by
  have hq : q ∈ found.all := List.mem_reverse.1 (List.mem_of_find?_eq_some hlast)
  obtain ⟨-, c, hc, -⟩ := h.noted q hq
  have hlength := (h.used q hq).length_eq
  rw [List.length_map] at hlength
  refine ⟨_, ?_, hlength, h.used q hq, fun hit hhit => ?_⟩
  · rw [QueryEngine.findPatterns, hengine]
    refine Query.patterns_eq h.linked h.textIds (h.indexed name q hlast) (Graph.hasNode_iff.2 ⟨c, hc⟩)
      q.isFalsy_key ?_
    rwa [hlength]
  · obtain ⟨e, he, hedge, hnode⟩ := Query.of_mem_usages hhit
    obtain ⟨hmem, htarget⟩ := (Query.mem_incoming_iff h.linked h.textIds ⟨_, rfl⟩).1 he
    exact ⟨e, hmem, hedge, h.implemented q hq e hmem htarget, hnode, htarget⟩

/-- The graph after one ingestion and one discovery answers for what was found. -/
theorem answered_of_run {now now' : String} {records : List Value} {threshold : Value}
    (hrecords : (Call.ingest now records).hasTextNames = true)
    (hids : NoCollision (Graph.hashedTexts [.ingest now records, .discover now' threshold]))
    (hrun : (discover now' threshold).run (Graph.ofCalls [.ingest now records]) = .ok found g) :
    found.Answered g := by
  have hingest : ∀ c ∈ [Call.ingest now records], c.isPipeline = true := by
    simpa [Call.isPipeline] using hrecords
  have hcalls : ∀ c ∈ [Call.ingest now records, .discover now' threshold], c.isPipeline = true := by
    simpa [Call.isPipeline] using hrecords
  have htexts : Graph.hashedTexts [.ingest now records, .discover now' threshold] =
      Graph.hashedTexts [.ingest now records] ++
        hashedTexts threshold (Graph.ofCalls [.ingest now records]) :=
    @Graph.hashedTexts_append [.ingest now records] (.discover now' threshold)
  have hold : Wrought _ (Graph.ofCalls [.ingest now records]) := (Wrought.empty _).foldl_after hids hingest
    fun t ht => htexts.symm ▸ List.mem_append_left _ ht
  have hfinds : ∀ t ∈ hashedTexts threshold (Graph.ofCalls [.ingest now records]),
      t ∈ Graph.hashedTexts [.ingest now records, .discover now' threshold] :=
    fun t ht => htexts.symm ▸ List.mem_append_right _ ht
  have hg : Graph.ofCalls [.ingest now records, .discover now' threshold] = g := Change.after_of_ok hrun
  have hfound := detect_of_run hrun
  have hthere := hasNode_of_detect hold.schema hold.linked.nodes_keyed hfound
  cases hrun.symm.trans (discover_run now' hold.linked.nodes_keyed hfound hthere)
  have hnew := Graph.wrought_ofCalls hcalls hids
  have hnewIds := Graph.textIds_ofPipeline hcalls
  rw [hg] at hnew hnewIds
  have huses := uses_texts (textPackages_of_scannable (Graph.scannable_ofCalls hingest).of_mem_values)
  have hnames := nodup_names hfound huses
  have hkeys : ∀ p ∈ found.all, ∀ q ∈ found.all, p.key = q.key → p = q :=
    fun p hp q hq => key_injective hids hfinds hfound hnames hp hq
  have hrelated : RelatedOnce found.all := relatedOnce_of_detect hfound hold.linked.nodes_keyed
  have hused := fun q (hq : q ∈ found.all) => usages_of_mem hold.schema hold.linked.nodes_keyed
    (Graph.conceptless_ingest now records) hids hfinds hfound hnew hnewIds hkeys (hrelated q hq) hq
  exact {
    linked := hnew.linked
    textIds := hnewIds
    noted := fun p hp => ⟨hrelated p hp, noted_of_mem hkeys hnames hp⟩
    indexed := fun name q hlast => conceptId?_marks hlast
    used := fun q hq => (hused q hq).1
    implemented := fun q hq => (hused q hq).2
    named := fun p hp q hq hname => eq_or_packages hfound huses hp hq hname }

end Answered

/-- What one discovery finds after one ingestion of records with textual paths, failing or not, if no two of
the texts that were hashed have one id. Every pattern has a concept that knows how many nodes show it. Asked
for a pattern by its name, with a limit that is large enough, the graph answers with the last pattern that
has this name apart from case, which is the pattern itself unless both are patterns of packages. The answer
has one hit for each node that shows that pattern, by the edge through which the node implements the
pattern's concept, and no other hit. -/
theorem findPatterns_of_discovered (now now' : String) (records : List Value) (threshold : Value)
    (hrecords : (Call.ingest now records).hasTextNames = true)
    (hids : NoCollision (Graph.hashedTexts [.ingest now records, .discover now' threshold]))
    {found : Found} {g : Graph}
    (hrun : (discover now' threshold).run (Graph.ofCalls [.ingest now records]) = .ok found g) :
    (∀ p ∈ found.all, p.related.Nodup ∧ p.Noted g) ∧
    ∀ p ∈ found.all, ∃ q ∈ found.all, found.lastNamed p.name = some q ∧
      (q = p ∨ p ∈ found.dependency ∧ q ∈ found.dependency) ∧
      ∀ (engine : QueryEngine) (limit : Int), engine.graph = g → q.related.length ≤ limit →
        ∃ hits, engine.findPatterns (.text p.name) (.int limit) = .ok hits ∧
          hits.length = q.related.length ∧ (hits.map (·.node.id)).Perm q.related ∧
          ∀ hit ∈ hits, ∃ e ∈ g.edges.values, hit.relationship = some e ∧ e.kind = .implements ∧
            g.nodes.get? e.source = some hit.node ∧ e.target = q.key := by
  have hanswered : found.Answered g := answered_of_run hrecords hids hrun
  refine ⟨hanswered.noted, fun p hp => ?_⟩
  obtain ⟨q, hq, hlast, hname⟩ := exists_lastNamed hp
  refine ⟨q, hq, hlast, (hanswered.named p hp q hq hname).imp_left Eq.symm, ?_⟩
  exact fun engine limit hengine hlimit => hanswered.findPatterns hlast hengine hlimit

def twoCases : List Value := [
  .fields [("path", .text "a"), ("imports", .list [.text "React"])],
  .fields [("path", .text "b"), ("imports", .list [.text "react"])]]

set_option maxRecDepth 100000 in
/-- The ids of what is ingested and discovered in the two files; each digest is worked out once. -/
theorem contentIds_twoCases :
    contentId "file:a" = "98c64c8ae66ca1f5" ∧
    contentId "dependency:React" = "f1bc34c6c7504b80" ∧
    contentId (edgeText "98c64c8ae66ca1f5" "f1bc34c6c7504b80" "DEPENDS_ON") = "c1a60cde4384093e" ∧
    contentId "file:b" = "db0c31313d790294" ∧
    contentId "dependency:react" = "c20355254f8935f0" ∧
    contentId (edgeText "db0c31313d790294" "c20355254f8935f0" "DEPENDS_ON") = "e317689cf473b9d1" ∧
    contentId "concept:naming_camelCase" = "eee25ad028cbffe4" ∧
    contentId (edgeText "98c64c8ae66ca1f5" "eee25ad028cbffe4" "IMPLEMENTS") = "5a69a7657230d19e" ∧
    contentId (edgeText "db0c31313d790294" "eee25ad028cbffe4" "IMPLEMENTS") = "519f4182f5d3a41a" ∧
    contentId (edgeText "c20355254f8935f0" "eee25ad028cbffe4" "IMPLEMENTS") = "aa21d9f96cb3f8ba" ∧
    contentId "concept:naming_PascalCase" = "f91ff0c24bbac321" ∧
    contentId (edgeText "f1bc34c6c7504b80" "f91ff0c24bbac321" "IMPLEMENTS") = "06036d9a8c7c4826" ∧
    contentId "concept:dependency_React" = "4fb8527fe12919a2" ∧
    contentId (edgeText "98c64c8ae66ca1f5" "4fb8527fe12919a2" "IMPLEMENTS") = "6a48a817f61e3df0" ∧
    contentId "concept:dependency_react" = "5556e656cea9e661" ∧
    contentId (edgeText "db0c31313d790294" "5556e656cea9e661" "IMPLEMENTS") = "b49c32dacb76350c" := by
  decide +kernel

set_option maxRecDepth 100000 in
/-- The patterns that are found in the two files, and which of them answers for a package. -/
theorem exists_found_twoCases :
    ∃ found, detect (.int 1) (Graph.ofCalls [.ingest "t1" twoCases]) = .ok found ∧
      (found.all.map fun p => (p.name, p.related)) = [
        ("naming_camelCase",
          [.text "98c64c8ae66ca1f5", .text "db0c31313d790294", .text "c20355254f8935f0"]),
        ("naming_PascalCase", [.text "f1bc34c6c7504b80"]),
        ("dependency_React", [.text "98c64c8ae66ca1f5"]),
        ("dependency_react", [.text "db0c31313d790294"])] ∧
      (found.lastNamed "dependency_React").map Pattern.related = some [.text "db0c31313d790294"] := by
  have hshown : (detect (.int 1) (Graph.ofCalls [.ingest "t1" twoCases])).toOption.map (fun found =>
      (found.all.map fun p => (p.name, p.related),
        (found.lastNamed "dependency_React").map Pattern.related)) = some ([
          ("naming_camelCase",
            [.text "98c64c8ae66ca1f5", .text "db0c31313d790294", .text "c20355254f8935f0"]),
          ("naming_PascalCase", [.text "f1bc34c6c7504b80"]),
          ("dependency_React", [.text "98c64c8ae66ca1f5"]),
          ("dependency_react", [.text "db0c31313d790294"])],
        some [.text "db0c31313d790294"]) := by
    decide +kernel
  obtain ⟨found, hfound, hpair⟩ := Option.map_eq_some_iff.1 hshown
  obtain ⟨hall, hlast⟩ := Prod.mk.inj hpair
  exact ⟨found, Except.toOption_eq_some.1 hfound, hall, hlast⟩

theorem noCollision_twoCases :
    NoCollision (Graph.hashedTexts [.ingest "t1" twoCases, .discover "t2" (.int 1)]) := by
  obtain ⟨found, hdetect, hall, -⟩ := exists_found_twoCases
  have hdiscovered : hashedTexts (.int 1) (Graph.ofCalls [.ingest "t1" twoCases]) =
      (found.all.map fun p => (p.name, p.related)).flatMap fun p =>
        nodeText NodeKind.concept.name p.1 :: p.2.map fun r =>
          edgeText r.shown (nodeId NodeKind.concept.name p.1) RelationKind.implements.name := by
    rw [hashedTexts, hdetect, List.flatMap_map]
    rfl
  have hingested : Graph.hashedTexts [.ingest "t1" twoCases] = [
      "file:a", "dependency:React",
      edgeText (contentId "file:a") (contentId "dependency:React") "DEPENDS_ON",
      "file:b", "dependency:react",
      edgeText (contentId "file:b") (contentId "dependency:react") "DEPENDS_ON"] := rfl
  have htexts : Graph.hashedTexts [.ingest "t1" twoCases, .discover "t2" (.int 1)] = _ ++ _ :=
    @Graph.hashedTexts_append [.ingest "t1" twoCases] (.discover "t2" (.int 1))
  refine List.inj_on_of_nodup_map ?_
  rw [htexts, hingested, Call.hashedTexts, hdiscovered, hall]
  obtain ⟨hfileA, hReact, hAReact, hfileB, hreact, hBreact, hcamel, hAcamel, hBcamel, hreactCamel,
    hpascal, hReactPascal, hheavyReact, hAheavy, hheavyreact, hBheavy⟩ := contentIds_twoCases
  simp only [List.flatMap_cons, List.flatMap_nil, List.map_cons, List.map_nil, List.cons_append,
    List.nil_append, nodeId, nodeText, NodeKind.name, RelationKind.name, Scalar.shown_text,
    String.reduceAppend,
    hfileA, hReact, hAReact, hfileB, hreact, hBreact, hcamel, hAcamel, hBcamel, hreactCamel,
    hpascal, hReactPascal, hheavyReact, hAheavy, hheavyreact, hBheavy]
  decide

/-- The two files are ingested, and discovery finds what it finds. -/
theorem exists_run_twoCases :
    ∃ found g, (discover "t2" (.int 1)).run (Graph.ofCalls [.ingest "t1" twoCases]) = .ok found g ∧
      (∃ p ∈ found.all, p.name = "dependency_React" ∧ p.related = [.text "98c64c8ae66ca1f5"]) ∧
      ∃ q, found.lastNamed "dependency_React" = some q ∧ q.related = [.text "db0c31313d790294"] := by
  obtain ⟨found, hdetect, hall, hlast⟩ := exists_found_twoCases
  have hingest : ∀ c ∈ [Call.ingest "t1" twoCases], c.isPipeline = true := by decide
  have hschema := (Graph.schematic_ofCalls hingest fun _ ht => ht).2
  have hkeyed := Graph.nodesKeyed_ofCalls [.ingest "t1" twoCases]
  refine ⟨found, _, discover_run "t2" hkeyed hdetect (hasNode_of_detect hschema hkeyed hdetect), ?_,
    Option.map_eq_some_iff.1 hlast⟩
  have hmem : ("dependency_React", [.text "98c64c8ae66ca1f5"]) ∈
      found.all.map fun p => (p.name, p.related) := by
    rw [hall]
    simp
  obtain ⟨p, hp, hpair⟩ := List.mem_map.1 hmem
  exact ⟨p, hp, Prod.mk.inj hpair⟩

theorem findPatterns_twoCases :
    (Call.ingest "t1" twoCases).hasTextNames = true ∧
    NoCollision (Graph.hashedTexts [.ingest "t1" twoCases, .discover "t2" (.int 1)]) ∧
    ∃ found g, (discover "t2" (.int 1)).run (Graph.ofCalls [.ingest "t1" twoCases]) = .ok found g ∧
      (∃ p ∈ found.all, p.name = "dependency_React" ∧ p.Noted g) ∧
      ∃ hits, (QueryEngine.mk g .null .null).findPatterns (.text "dependency_React") (.int 1) = .ok hits ∧
        hits.map (·.node.id) = [.text "db0c31313d790294"] := by
  have hrecords : (Call.ingest "t1" twoCases).hasTextNames = true := by decide
  obtain ⟨found, g, hrun, ⟨p, hp, hname, -⟩, q, hlast, hrelated⟩ := exists_run_twoCases
  obtain ⟨hnoted, hasked⟩ :=
    findPatterns_of_discovered "t1" "t2" twoCases (.int 1) hrecords noCollision_twoCases hrun
  obtain ⟨q', -, hlast', -, hanswer⟩ := hasked p hp
  rw [hname] at hlast' hanswer
  cases hlast.symm.trans hlast'
  obtain ⟨hits, hfind, -, hperm, -⟩ := hanswer ⟨g, .null, .null⟩ 1 rfl (by rw [hrelated]; decide)
  rw [hrelated] at hperm
  exact ⟨hrecords, noCollision_twoCases, found, g, hrun, ⟨p, hp, hname, (hnoted p hp).2⟩, hits, hfind,
    List.perm_singleton.1 hperm⟩

/-- Asked for the pattern of one package, the graph may answer with the nodes of another: only the second
file shows up, which does not import the package asked for. -/
theorem not_own_nodes_twoCases :
    (Call.ingest "t1" twoCases).hasTextNames = true ∧
    NoCollision (Graph.hashedTexts [.ingest "t1" twoCases, .discover "t2" (.int 1)]) ∧
    ∃ found g, (discover "t2" (.int 1)).run (Graph.ofCalls [.ingest "t1" twoCases]) = .ok found g ∧
      ∃ p ∈ found.all, p.related.length ≤ 1 ∧ ∀ engine : QueryEngine, engine.graph = g →
        ∃ hits, engine.findPatterns (.text p.name) (.int 1) = .ok hits ∧
          ¬ (hits.map (·.node.id)).Perm p.related := by
  have hrecords : (Call.ingest "t1" twoCases).hasTextNames = true := by decide
  obtain ⟨found, g, hrun, ⟨p, hp, hname, hown⟩, q, hlast, hrelated⟩ := exists_run_twoCases
  have hanswered : found.Answered g := answered_of_run hrecords noCollision_twoCases hrun
  refine ⟨hrecords, noCollision_twoCases, found, g, hrun, p, hp, ?_, fun engine hengine => ?_⟩
  · rw [hown]
    decide
  · obtain ⟨hits, hfind, -, hperm, -⟩ := @Found.Answered.findPatterns _ _ _ hanswered _ hlast engine hengine 1
      (by rw [hrelated]; decide)
    rw [hname, hown]
    rw [hrelated] at hperm
    refine ⟨hits, hfind, fun hsame => ?_⟩
    exact absurd (List.perm_singleton.1 (hperm.symm.trans hsame)) (by decide)

end Discovery

end CodeAtlas
