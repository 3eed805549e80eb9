import CodeAtlas.Graph.View
import CodeAtlas.Proofs.Graph.Connections
import CodeAtlas.Proofs.Grouping
import Mathlib.Algebra.BigOperators.Group.List.Basic
import Mathlib.Algebra.GroupWithZero.Nat

/-! Counts over a graph. Counting by kind loses nothing. The connections of the nodes count every edge at both of its
ends, and a loop, which has one end only, once; so they are twice as many as the edges, less the loops. -/

namespace CodeAtlas

/-- Whether counts by kind are those of a list: every kind that occurs is there once, with the positive number of
its items, and all items are counted. -/
structure Counts {κ α : Type} [DecidableEq κ] (kind : α → κ) (xs : List α) (counts : List (κ × Nat)) : Prop where
  once : (counts.map Prod.fst).Nodup
  complete : ∀ x ∈ xs, kind x ∈ counts.map Prod.fst
  number : ∀ k c, (k, c) ∈ counts → 0 < c ∧ c = (xs.filter (kind · = k)).length
  total : (counts.map Prod.snd).sum = xs.length

theorem counts_tally {κ α : Type} [DecidableEq κ] (kind : α → κ) (xs : List α) :
    Counts kind xs (tally (xs.map kind)) := by
  obtain ⟨ks, horder, hkeys, htally⟩ := exists_tally_eq (xs.map kind)
  have hfst : (tally (xs.map kind)).map Prod.fst = ks := by
    rw [htally, List.map_map]
    exact List.map_id _
  refine ⟨hfst ▸ horder.nodup, fun x hx => hfst ▸ hkeys _ (List.mem_map_of_mem hx), fun k c hc => ?_, ?_⟩
  · rw [htally] at hc
    obtain ⟨j, hj, hpair⟩ := List.mem_map.1 hc
    cases hpair
    obtain ⟨y, hy, hocc⟩ := horder.present k hj
    refine ⟨List.count_pos_iff.2 (of_decide_eq_true hocc ▸ hy), ?_⟩
    rw [List.count_eq_length_filter, List.filter_map, List.length_map]
    rfl
  · rw [sum_tally, List.length_map]

section DoubleCounting

variable {α β : Type}

theorem countP_eq_sum (p : β → Bool) (bs : List β) :
    bs.countP p = (bs.map fun b => if p b then 1 else 0).sum := by
  induction bs with
  | nil => rfl
  | cons b rest ih => rw [List.countP_cons, ih, List.map_cons, List.sum_cons, Nat.add_comm]

theorem sum_countP_comm (r : α → β → Bool) (as : List α) (bs : List β) :
    (as.map fun a => bs.countP (r a)).sum = (bs.map fun b => as.countP fun a => r a b).sum := by
  induction as with
  | nil => simp
  | cons a rest ih =>
    have hcons : ∀ b, (a :: rest).countP (fun a => r a b) =
        (if r a b then 1 else 0) + rest.countP fun a => r a b := by
      intro b
      rw [List.countP_cons, Nat.add_comm]
    rw [List.map_cons, List.sum_cons, ih, countP_eq_sum, ← List.sum_map_add]
    simp only [hcons]

theorem countP_or_add_countP_and (p q : α → Bool) (as : List α) :
    as.countP (fun a => p a || q a) + as.countP (fun a => p a && q a) = as.countP p + as.countP q := by
  induction as with
  | nil => rfl
  | cons a rest ih =>
    simp only [List.countP_cons]
    cases p a <;> cases q a <;> simp <;> omega

end DoubleCounting

namespace Edge

variable {e : Edge} {id : Scalar}

/-- Whether an edge leads back to where it comes from. -/
def isLoop (e : Edge) : Bool := e.source.same e.target

def endsAt (e : Edge) (id : Scalar) : Bool := e.source.same id || e.target.same id

theorem endsAt_iff : e.endsAt id = true ↔ e.Touches id := by
  rw [endsAt, Bool.or_eq_true, Scalar.same_iff, Scalar.same_iff, Touches]

end Edge

namespace Graph

variable {g : Graph} {e : Edge} {n : Node} {k : Scalar}

theorem NodesKeyed.countP_same (h : g.NodesKeyed) (hk : g.hasNode k = true) :
    g.nodes.values.countP (fun n => k.same n.id) = 1 := by
  have hmem : k.canon ∈ g.nodes.values.map (·.id.canon) := by
    obtain ⟨n, hn⟩ := hasNode_iff.1 hk
    exact List.mem_map.2 ⟨n, Table.mem_values_of_get? hn, h k n hn⟩
  have hone := List.count_eq_one_of_mem h.nodup_ids hmem
  rw [List.count_eq_countP, List.countP_map] at hone
  rw [← hone]
  refine List.countP_congr fun n _ => ?_
  rw [Scalar.same_iff, Function.comp_apply, beq_iff_eq]
  exact eq_comm

theorem Linked.hasNode_end (h : g.Linked) (he : e ∈ g.edges.values) (htouch : e.Touches k) :
    g.hasNode k = true := by
  obtain ⟨j, hj⟩ := Table.mem_values_iff.1 he
  obtain ⟨n, hn, -⟩ := h.listed j e hj k htouch
  exact hasNode_iff.2 ⟨n, hn⟩

/-- Two nodes stand at the ends of an edge, and one at those of a loop. -/
theorem Linked.countP_endsAt (h : g.Linked) (he : e ∈ g.edges.values) :
    g.nodes.values.countP (fun n => e.endsAt n.id) + (if e.isLoop then 1 else 0) = 2 := by
  have hsource := h.nodes_keyed.countP_same (h.hasNode_end he (Or.inl rfl))
  have htarget := h.nodes_keyed.countP_same (h.hasNode_end he (Or.inr rfl))
  have hboth : g.nodes.values.countP (fun n => e.source.same n.id && e.target.same n.id) =
      if e.isLoop then 1 else 0 := by
    cases hloop : e.isLoop with
    | true =>
      have hsame : e.source.canon = e.target.canon := Scalar.same_iff.1 hloop
      rw [if_pos rfl, ← hsource]
      refine List.countP_congr fun n _ => ?_
      simp [hsame]
    | false =>
      rw [if_neg Bool.false_ne_true, List.countP_eq_zero]
      intro n _ hn
      rw [Bool.and_eq_true, Scalar.same_iff, Scalar.same_iff] at hn
      exact absurd (Scalar.same_iff.2 (hn.1.trans hn.2.symm)) (Bool.eq_false_iff.1 hloop)
  rw [← hboth]
  exact (countP_or_add_countP_and _ _ _).trans (by rw [hsource, htarget])

/-- A node of an exact graph lists as many edges as have the node at one of their ends. -/
theorem Exact.size_connections (h : g.Exact) (hl : g.Linked) (hn : n ∈ g.nodes.values) :
    n.connections.size = g.edges.values.countP (·.endsAt n.id) := by
  have hedges : (((g.edges.values.filter (·.endsAt n.id)).map Edge.id).map Scalar.canon).Nodup := by
    have hids : (g.edges.values.map (·.id.canon)).Nodup :=
      Table.map_canon_of_keyed hl.edges_keyed ▸ Table.nodup_keys
    rw [List.map_map]
    exact (List.filter_sublist.map _).nodup hids
  rw [List.countP_eq_length_filter, ← List.length_map Edge.id]
  refine KeySet.size_eq_length hedges fun x => ?_
  rw [h _ n (hl.nodes_keyed.get?_id hn) x]
  constructor
  · rintro ⟨e, he, htouch⟩
    exact ⟨e.id, List.mem_map_of_mem (List.mem_filter.2 ⟨Table.mem_values_of_get? he,
      Edge.endsAt_iff.2 htouch⟩), hl.edges_keyed x e he⟩
  · rintro ⟨_, hid, hsame⟩
    obtain ⟨e, he, rfl⟩ := List.mem_map.1 hid
    obtain ⟨hvalue, hends⟩ := List.mem_filter.1 he
    obtain ⟨k, hk⟩ := Table.mem_values_iff.1 hvalue
    have hx : k.canon = x.canon := (hl.edges_keyed k e hk).symm.trans hsame
    exact ⟨e, Table.get?_congr hx ▸ hk, Edge.endsAt_iff.1 hends⟩

theorem connectionTotal_eq_sum : g.connectionTotal = (g.nodes.values.map (·.connections.size)).sum := by
  rw [Graph.connectionTotal, List.sum_eq_foldl, List.foldl_map]

/-- The connections of a graph are twice its edges, less the loops. -/
theorem Exact.sum_connections (h : g.Exact) (hl : g.Linked) :
    (g.nodes.values.map (·.connections.size)).sum + g.edges.values.countP Edge.isLoop = 2 * g.edges.size := by
  have hnodes : (g.nodes.values.map (·.connections.size)).sum =
      (g.nodes.values.map fun n => g.edges.values.countP (·.endsAt n.id)).sum :=
    congrArg List.sum (List.map_congr_left fun n hn => h.size_connections hl hn)
  have hedges : ∀ e ∈ g.edges.values,
      g.nodes.values.countP (fun n => e.endsAt n.id) + (if e.isLoop then 1 else 0) = 2 :=
    fun e he => hl.countP_endsAt he
  calc (g.nodes.values.map (·.connections.size)).sum + g.edges.values.countP Edge.isLoop
      = (g.edges.values.map fun e => g.nodes.values.countP (fun n => e.endsAt n.id) +
          if e.isLoop then 1 else 0).sum := by
        rw [hnodes, sum_countP_comm (fun (n : Node) (e : Edge) => e.endsAt n.id), List.sum_map_add,
          countP_eq_sum Edge.isLoop]
    _ = (g.edges.values.map fun _ => 2).sum := congrArg List.sum (List.map_congr_left hedges)
    _ = 2 * g.edges.size := by
        rw [List.map_const', List.sum_replicate_nat, ← Table.size_eq_length_values, Nat.mul_comm]

end Graph

/-- Counts by kind are those of the nodes and the edges. Where every node lists the edges it is an end of, the
connections that are averaged over the nodes are twice the edges, less the loops. -/
theorem stats_balance {g : Graph} (hl : g.Linked) (h : g.Exact) :
    let total := (g.nodes.values.map (·.connections.size)).sum
    Counts (·.kind) g.nodes.values g.stats.nodesByKind ∧ g.stats.nodeCount = g.nodes.values.length ∧
    Counts (·.kind) g.edges.values g.stats.edgesByKind ∧ g.stats.edgeCount = g.edges.values.length ∧
    total + g.edges.values.countP Edge.isLoop = 2 * g.stats.edgeCount ∧
    g.stats.averageConnections =
      if g.stats.nodeCount = 0 then 0.0 else Float.ofNat total / Float.ofNat g.stats.nodeCount := by
  refine ⟨counts_tally _ _, Table.size_eq_length_values, counts_tally _ _, Table.size_eq_length_values,
    h.sum_connections hl, ?_⟩
  rw [← Graph.connectionTotal_eq_sum]
  rfl

def loopedUses : List Edge :=
  [("e0", "a"), ("e1", "b"), ("e2", "b")].map fun (id, target) =>
    ⟨.text id, .text "a", .text target, .uses, 1.0, ∅, .text "t1"⟩

def loopedGraph : Graph :=
  loopedUses.foldl .putEdge (.ofDrafts "t0" (["a", "b"].map fun id => (id, ⟨.file, some (.text id), ∅, 1.0⟩)))

theorem accounted_loopedGraph : Accounted loopedGraph loopedUses :=
  (Graph.accounted_ofDrafts _ _).foldl_putEdge (by decide)

theorem stats_balance_loopedGraph :
    loopedGraph.Linked ∧ loopedGraph.Exact ∧ loopedGraph.stats.edgeCount = 3 ∧
    loopedGraph.edges.values.countP Edge.isLoop = 1 ∧
    (loopedGraph.nodes.values.map (·.connections.size)).sum = 5 := by
  have hlinked := accounted_loopedGraph.linked
  have hexact : loopedGraph.Exact :=
    accounted_loopedGraph.exact (by simp [loopedUses, Scalar.IsText]) (by simp [Agreeing, loopedUses])
  have hedges : loopedGraph.stats.edgeCount = 3 := by decide
  have hloops : loopedGraph.edges.values.countP Edge.isLoop = 1 := by decide
  obtain ⟨-, -, -, -, htotal, -⟩ := stats_balance hlinked hexact
  exact ⟨hlinked, hexact, hedges, hloops, by omega⟩

end CodeAtlas
