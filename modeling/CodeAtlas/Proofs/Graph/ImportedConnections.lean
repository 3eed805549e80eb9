import CodeAtlas.Proofs.Graph.RoundTrip

/-! The connections of an import whose edge table may give a key more than once. Of the records of one key the
edge table keeps the last, but the nodes at the ends of every record list the key. So the connections are
what the stored edges say exactly if the last record of a key has the ends of all records before it. -/

namespace CodeAtlas

/-- The last of these edges that stands under a key. -/
def lastRecord (records : List Edge) (key : Scalar) : Option Edge :=
  records.reverse.find? fun e => e.id.same key

section LastRecord

variable {e : Edge} {records : List Edge} {key : Scalar}

theorem lastRecord_cons :
    lastRecord (e :: records) key =
      (lastRecord records key).or (if e.id.canon = key.canon then some e else none) := by
  rw [lastRecord, List.reverse_cons, List.find?_append]
  by_cases hk : e.id.canon = key.canon <;> simp [lastRecord, Scalar.same, hk]

theorem mem_of_lastRecord (h : lastRecord records key = some e) :
    e ∈ records ∧ e.id.canon = key.canon := by
  have hfind : records.reverse.find? (fun e => e.id.same key) = some e := h
  have hsame : e.id.canon = key.canon := by simpa using List.find?_some hfind
  exact ⟨List.mem_reverse.1 (List.mem_of_find?_eq_some hfind), hsame⟩

theorem exists_lastRecord (h : e ∈ records) : ∃ last, lastRecord records e.id = some last := by
  refine Option.isSome_iff_exists.1 (List.find?_isSome.2 ?_)
  exact ⟨e, List.mem_reverse.2 h, Scalar.same_iff.2 rfl⟩

theorem lastRecord_of_nodup (h : (records.map fun e => e.id.canon).Nodup) (he : e ∈ records) :
    lastRecord records e.id = some e := by
  obtain ⟨last, hlast⟩ := exists_lastRecord he
  obtain ⟨hmem, hid⟩ := mem_of_lastRecord hlast
  rw [hlast, List.inj_on_of_nodup_map h hmem he hid]

end LastRecord

namespace Graph

variable {g : Graph} {now : String} {data : Value} {records : List Edge} {k x : Scalar} {n m : Node}

theorem get?_edges_foldl_putEdge :
    (records.foldl putEdge g).edges.get? x = (lastRecord records x).or (g.edges.get? x) := by
  induction records generalizing g with
  | nil => rfl
  | cons e rest ih =>
    rw [List.foldl_cons, ih, lastRecord_cons, get?_edges_putEdge, Option.or_assoc]
    by_cases hk : e.id.canon = x.canon <;> simp [hk]

/-- A node lists what it listed before and the ids of all edges that were stored with it at an end. -/
theorem contains_foldl_putEdge (hn : g.nodes.get? k = some n)
    (hm : (records.foldl putEdge g).nodes.get? k = some m) :
    m.connections.contains x = true ↔
      n.connections.contains x = true ∨ ∃ e ∈ records, e.id.canon = x.canon ∧ e.Touches k := by
  induction records generalizing g n with
  | nil =>
    cases hn.symm.trans hm
    simp
  | cons e rest ih =>
    have hmeet : (g.putEdge e).nodes.get? k = some (n.meet e k) := by
      rw [get?_nodes_putEdge, hn, Option.map_some]
    rw [ih hmeet hm, Node.contains_meet]
    simp [or_assoc]

/-- What an import stores and what its nodes list, in terms of its edge records. -/
theorem ofExport_records (h : ofExport now data = .ok g)
    (hrecords : importedNodes now data >>= importedEdges now data = .ok records) :
    (∀ x, g.edges.get? x = lastRecord records x) ∧
      ∀ k n, g.nodes.get? k = some n → ∀ x, n.connections.contains x = true ↔
        ∃ e ∈ records, e.id.canon = x.canon ∧ e.Touches n.id := by
  have hlinked := (accounted_ofExport h hrecords).linked
  obtain ⟨nodes, taken, c, hnodes, -, -, -, rfl⟩ := ofExport_ok h hrecords
  constructor
  · intro x
    have hget : (records.foldl putEdge (ofNodes nodes)).edges.get? x = _ := get?_edges_foldl_putEdge
    rw [hget]
    exact Option.or_none
  · intro k m hm x
    have hkey : m.id.canon = k.canon := hlinked.nodes_keyed k m hm
    have hthere : (records.foldl putEdge (ofNodes nodes)).nodes.contains k = true :=
      Table.contains_of_get? hm
    rw [Table.contains_iff_mem, keys_nodes_foldl_putEdge, ← Table.contains_iff_mem] at hthere
    obtain ⟨n, hn⟩ := Table.contains_iff.1 hthere
    have hbare : n.connections = ∅ :=
      (forall_importedNodes (P := fun n => n.connections = ∅) hnodes
        (fun _ _ _ _ _ _ _ _ hread => (Node.read_ok hread).2.1) k n hn).2
    have hnone : n.connections.contains x = false := by
      rw [hbare]
      rfl
    rw [contains_foldl_putEdge hn hm, hnone]
    simp [Edge.touches_congr hkey]

/-- The ends of every edge record are nodes of the import. -/
theorem exists_end_of_record (h : ofExport now data = .ok g)
    (hrecords : importedNodes now data >>= importedEdges now data = .ok records) {e : Edge}
    (he : e ∈ records) {j : Scalar} (hj : e.Touches j) :
    ∃ n, g.nodes.get? j = some n ∧ n.id.canon = j.canon := by
  have hlinked := (accounted_ofExport h hrecords).linked
  obtain ⟨nodes, taken, c, -, hread, -, -, rfl⟩ := ofExport_ok h hrecords
  obtain ⟨hs, ht, -⟩ := forall_importedEdges (P := fun _ => True) hread
    (fun _ _ _ _ _ _ _ _ _ => trivial) e he
  have hthere : nodes.contains j = true := by
    rcases hj with hj | hj
    · rwa [← Table.contains_congr hj]
    · rwa [← Table.contains_congr hj]
  have hnode : (records.foldl putEdge (ofNodes nodes)).nodes.contains j = true := by
    rwa [Table.contains_iff_mem, keys_nodes_foldl_putEdge, ← Table.contains_iff_mem]
  obtain ⟨n, hn⟩ := Table.contains_iff.1 hnode
  exact ⟨n, hn, hlinked.nodes_keyed j n hn⟩

/-- The connections of an import are what its stored edges say exactly if no record has an end that the last
record of its key has not. -/
theorem exact_ofExport_iff (h : ofExport now data = .ok g)
    (hrecords : importedNodes now data >>= importedEdges now data = .ok records) :
    g.Exact ↔ ∀ e ∈ records, ∀ j, e.Touches j →
      ∃ last, lastRecord records e.id = some last ∧ last.Touches j := by
  obtain ⟨hstored, hlists⟩ := ofExport_records h hrecords
  constructor
  · intro hexact e he j hj
    obtain ⟨n, hn, hkey⟩ := exists_end_of_record h hrecords he hj
    have hlisted := (hlists j n hn e.id).2 ⟨e, he, rfl, (Edge.touches_congr hkey).2 hj⟩
    obtain ⟨last, hlast, htouch⟩ := (hexact j n hn e.id).1 hlisted
    exact ⟨last, hstored e.id ▸ hlast, (Edge.touches_congr hkey).1 htouch⟩
  · intro hlast k n hn x
    rw [hlists k n hn x, hstored x]
    constructor
    · rintro ⟨e, he, hid, htouch⟩
      obtain ⟨last, hfound, htouch'⟩ := hlast e he n.id htouch
      have hkey : lastRecord records x = lastRecord records e.id := by
        simp only [lastRecord, Scalar.same, hid]
      exact ⟨last, hkey.trans hfound, htouch'⟩
    · rintro ⟨e, hfound, htouch⟩
      obtain ⟨he, hid⟩ := mem_of_lastRecord hfound
      exact ⟨e, he, hid, htouch⟩

/-- Every export that is accepted, whatever keys its tables repeat: under an edge key the last record of the
key is stored; a node lists the keys of all records that have it at an end, also of those that a later
record of the same key replaced. So every node lists exactly the stored edges that touch it if and only if no
record has an end that the last record of its key has not; and that is so where no key is repeated. -/
theorem connections_of_import (h : ofExport now data = .ok g) :
    ∃ records, importedNodes now data >>= importedEdges now data = .ok records ∧
      (∀ x, g.edges.get? x = lastRecord records x) ∧
      (∀ k n, g.nodes.get? k = some n → ∀ x, n.connections.contains x = true ↔
        ∃ e ∈ records, e.id.canon = x.canon ∧ e.Touches n.id) ∧
      (g.Exact ↔ ∀ e ∈ records, ∀ j, e.Touches j →
        ∃ last, lastRecord records e.id = some last ∧ last.Touches j) ∧
      ((records.map fun e => e.id.canon).Nodup → g.Exact) := by
  obtain ⟨records, hrecords⟩ := exists_imported h
  obtain ⟨hstored, hlists⟩ := ofExport_records h hrecords
  have hiff := exact_ofExport_iff h hrecords
  refine ⟨records, hrecords, hstored, hlists, hiff, fun hnodup => hiff.2 fun e he j hj => ?_⟩
  exact ⟨e, lastRecord_of_nodup hnodup he, hj⟩

/-- An export whose edge table gives one key twice: first between a first pair of nodes, then between these
ends. -/
def repeatedKey (source target : String) : Value :=
  .fields [
    ("nodes", .list (["a", "b", "c", "d"].map fun id =>
      .list [.text id, .fields [("type", .text "file"), ("name", .text id)]])),
    ("edges", .list ([("a", "b"), (source, target)].map fun ends =>
      .list [.text "e", .fields [
        ("from", .text ends.1), ("to", .text ends.2), ("type", .text "USES")]]))]

/-- The edge that a record of that export gives. -/
def repeatedEdge (source target : String) : Edge where
  id := .text "e"
  source := .text source
  target := .text target
  kind := .uses
  strength := 1.0
  properties := ∅
  created := .text "t0"

/-- Where the second record has the same ends the other way round, nothing is listed in vain. -/
theorem connections_of_repeatedKey :
    ∃ g, ofExport "t0" (repeatedKey "b" "a") = .ok g ∧ g.Exact := by
  obtain ⟨g, hg⟩ : ∃ g, ofExport "t0" (repeatedKey "b" "a") = .ok g := ⟨_, rfl⟩
  obtain ⟨records, hrecords, -, -, hiff, -⟩ := connections_of_import hg
  have hread : importedNodes "t0" (repeatedKey "b" "a") >>= importedEdges "t0" (repeatedKey "b" "a") =
      .ok [repeatedEdge "a" "b", repeatedEdge "b" "a"] := rfl
  cases hread.symm.trans hrecords
  refine ⟨g, hg, hiff.2 fun e he j hj => ⟨repeatedEdge "b" "a", ?_, ?_⟩⟩
  · rcases List.mem_pair.1 he with rfl | rfl <;> rfl
  · rcases List.mem_pair.1 he with rfl | rfl
    · exact hj.symm
    · exact hj

/-- Where the second record has other ends, the nodes of the first one list the key all the same. -/
theorem not_exact_repeatedKey : ∃ g, ofExport "t0" (repeatedKey "c" "d") = .ok g ∧ ¬ g.Exact := by
  obtain ⟨g, hg⟩ : ∃ g, ofExport "t0" (repeatedKey "c" "d") = .ok g := ⟨_, rfl⟩
  have hread : importedNodes "t0" (repeatedKey "c" "d") >>= importedEdges "t0" (repeatedKey "c" "d") =
      .ok [repeatedEdge "a" "b", repeatedEdge "c" "d"] := rfl
  refine ⟨g, hg, fun hexact => ?_⟩
  obtain ⟨last, hlast, htouch⟩ := (exact_ofExport_iff hg hread).1 hexact (repeatedEdge "a" "b")
    List.mem_cons_self (.text "a") (Or.inl rfl)
  have hsecond : last = repeatedEdge "c" "d" := (Option.some.inj hlast).symm
  rw [hsecond] at htouch
  rcases htouch with h | h
  · exact absurd h (by decide)
  · exact absurd h (by decide)

end Graph

end CodeAtlas
