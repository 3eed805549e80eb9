import CodeAtlas.Proofs.Discovery.Distinct

/-! The patterns of naming styles share out the code: every node that is no concept is in the one pattern of the
style of its name, and nothing else is in any. -/

namespace CodeAtlas.Discovery

variable {g : Graph} {style : NamingStyle}

/-- The nodes whose names are written in a style, in the order in which they were added. -/
def followers (g : Graph) (style : NamingStyle) : List Scalar :=
  (g.nodes.values.filter fun n => n.kind ≠ .concept ∧ n.style = style).map Node.id

theorem followers_eq : followers g style = ((codeNodes g).filter (·.style = style)).map Node.id := by
  unfold followers codeNodes
  rw [List.filter_filter]
  congr 1
  refine List.filter_congr fun n _ => ?_
  rw [Bool.decide_and, Bool.and_comm]

theorem itemsOf_codeNodes :
    itemsOf ((codeNodes g).map fun n => (n.style, n.id)) style = followers g style := by
  rw [followers_eq, itemsOf, List.filter_map, List.map_map]
  rfl

theorem exists_styleGroups_eq (g : Graph) :
    ∃ styles : List NamingStyle,
      FirstOrder (fun style n => n.style = style) (g.nodes.values.filter (·.kind ≠ .concept)) styles ∧
      (∀ n ∈ g.nodes.values, n.kind ≠ .concept → n.style ∈ styles) ∧
      styleGroups g = styles.map fun style => (style, followers g style) := by
  obtain ⟨styles, horder, hstyles, hgroups⟩ :=
    exists_groupItems_eq ((codeNodes g).map fun n => (n.style, n.id))
  refine ⟨styles, ?_, fun n hn hkind => ?_, ?_⟩
  · rw [← List.filterMap_eq_map] at horder
    exact horder.of_filterMap.congr fun style _ => rfl
  · exact hstyles _ (List.mem_map_of_mem (List.mem_filter.2 ⟨hn, decide_eq_true hkind⟩))
  · rw [styleGroups, hgroups]
    exact List.map_congr_left fun style _ => congrArg (Prod.mk style) itemsOf_codeNodes

theorem id_mem_followers_iff (h : g.NodesKeyed) {n : Node} (hn : n ∈ g.nodes.values) (hkind : n.kind ≠ .concept) :
    n.id ∈ followers g style ↔ n.style = style := by
  constructor
  · intro hid
    obtain ⟨m, hm, heq⟩ := List.mem_map.1 hid
    obtain ⟨hvalue, hstyle⟩ := List.mem_filter.1 hm
    have hget := h.get?_id hvalue
    rw [heq, h.get?_id hn] at hget
    cases hget
    exact (of_decide_eq_true hstyle).2
  · intro hstyle
    exact List.mem_map_of_mem (List.mem_filter.2 ⟨hn, decide_eq_true ⟨hkind, hstyle⟩⟩)

/-- There is a pattern for each style that a node follows, in the order of the first nodes that do; together
the patterns name every node that is no concept once. -/
theorem naming_partition (hkeyed : g.NodesKeyed)
    (hnames : ∀ n ∈ g.nodes.values, n.kind ≠ .concept → ∃ s, n.name = .text s) :
    let code := g.nodes.values.filter (·.kind ≠ .concept)
    ∃ styles : List NamingStyle,
      let ps := styles.map fun style => convention style (followers g style)
      naming g = .ok ps ∧ (ps.map Pattern.name).Nodup ∧
      FirstOrder (fun style n => n.style = style) code styles ∧
      (ps.flatMap Pattern.related).Perm (code.map Node.id) ∧
      ((ps.flatMap Pattern.related).map Scalar.canon).Nodup ∧
      (∀ p ∈ ps, p.related ≠ [] ∧ p.related.Sublist (code.map Node.id)) ∧
      ∀ n ∈ code, ∀ s, n.name = .text s → NamingStyle.of s ∈ styles ∧
        ∀ style, n.id ∈ followers g style ↔ style = NamingStyle.of s := by
  intro code
  obtain ⟨styles, horder, hstyles, hgroups⟩ := exists_styleGroups_eq g
  obtain ⟨found, hnaming⟩ := exists_naming fun n hn =>
    hnames n (List.mem_of_mem_filter hn) (of_decide_eq_true (List.mem_filter.1 hn).2)
  have hfound : found = styles.map fun style => convention style (followers g style) := by
    rw [naming_ok hnaming, hgroups, List.map_map]
    rfl
  have hperm : (found.flatMap Pattern.related).Perm (code.map Node.id) := by
    have hshared := perm_groupItems ((codeNodes g).map fun n => (n.style, n.id))
    rw [List.map_map] at hshared
    rw [naming_ok hnaming, List.flatMap_map]
    exact hshared
  have hnodup : ((code.map Node.id).map Scalar.canon).Nodup := by
    rw [List.map_map]
    exact (List.filter_sublist.map _).nodup hkeyed.nodup_ids
  cases hfound
  refine ⟨styles, hnaming, ?_, horder, hperm, (hperm.map _).nodup_iff.2 hnodup, fun p hp => ?_,
    fun n hn s hs => ?_⟩
  · rw [List.map_map]
    exact horder.nodup.map fun _ _ => styleName_injective
  · obtain ⟨style, hstyle, rfl⟩ := List.mem_map.1 hp
    obtain ⟨n, hn, hfollows⟩ := horder.present style hstyle
    obtain ⟨hvalue, hkind⟩ := List.mem_filter.1 hn
    have hmem : n.id ∈ followers g style :=
      (id_mem_followers_iff hkeyed hvalue (of_decide_eq_true hkind)).2 (of_decide_eq_true hfollows)
    refine ⟨List.ne_nil_of_mem hmem, ?_⟩
    rw [convention, followers_eq]
    exact List.filter_sublist.map Node.id
  · obtain ⟨hvalue, hkind⟩ := List.mem_filter.1 hn
    rw [← Node.style_of_name hs]
    refine ⟨hstyles n hvalue (of_decide_eq_true hkind), fun style => ?_⟩
    rw [id_mem_followers_iff hkeyed hvalue (of_decide_eq_true hkind)]
    exact eq_comm

/-- Two classes in one style, a function in another, and a concept. -/
def styledGraph : Graph :=
  .ofDrafts "t0" [
    ("w", ⟨.classDecl, some (.text "Widget"), ∅, 1.0⟩), ("r", ⟨.function, some (.text "run_all"), ∅, 1.0⟩),
    ("c", ⟨.concept, some (.text "Cache"), ∅, 1.0⟩), ("g", ⟨.classDecl, some (.text "Gadget"), ∅, 1.0⟩)]

theorem naming_styledGraph :
    styledGraph.NodesKeyed ∧ (∀ n ∈ styledGraph.nodes.values, n.kind ≠ .concept → ∃ s, n.name = .text s) ∧
    ∃ styles : List NamingStyle,
      naming styledGraph = .ok (styles.map fun style => convention style (followers styledGraph style)) ∧
      styles.Nodup ∧ NamingStyle.pascal ∈ styles ∧ NamingStyle.snake ∈ styles ∧
      (styles.flatMap (followers styledGraph)).Perm [.text "w", .text "r", .text "g"] := by
  have hkeyed : styledGraph.NodesKeyed := (Graph.accounted_ofDrafts _ _).linked.nodes_keyed
  have hnames : ∀ n ∈ styledGraph.nodes.values, n.kind ≠ .concept → ∃ s, n.name = .text s := by
    intro n hn _
    obtain ⟨k, hk⟩ := Table.mem_values_iff.1 hn
    obtain ⟨e, he, -, rfl⟩ := Table.mem_of_get?_ofList hk
    simp only [List.map_cons, List.map_nil, List.mem_cons, List.not_mem_nil, or_false] at he
    rcases he with rfl | rfl | rfl | rfl <;> exact ⟨_, rfl⟩
  obtain ⟨styles, hnaming, -, horder, hperm, -, -, hstyles⟩ := naming_partition hkeyed hnames
  rw [List.flatMap_map] at hperm
  refine ⟨hkeyed, hnames, styles, hnaming, horder.nodup, ?_, ?_, hperm⟩
  · exact (hstyles (.fresh "t0" (.text "w") ⟨.classDecl, some (.text "Widget"), ∅, 1.0⟩)
      List.mem_cons_self "Widget" rfl).1
  · exact (hstyles (.fresh "t0" (.text "r") ⟨.function, some (.text "run_all"), ∅, 1.0⟩)
      (List.mem_cons_of_mem _ List.mem_cons_self) "run_all" rfl).1

end CodeAtlas.Discovery
