import CodeAtlas.Proofs.Graph.WellNamed
import CodeAtlas.Proofs.Query.Ranking

/-! Being among the nodes like another is mutual: where nothing is cut off, a node finds another with the score
with which the other finds it. Likeness does not depend on the order, and whether there is an answer at all
depends on the kind of the node only: all nodes of a kind must have names with elements. -/

namespace CodeAtlas

theorem scoredHit_injective : Function.Injective scoredHit := by
  rintro ⟨n, score⟩ ⟨m, score'⟩ h
  simpa [scoredHit] using h

namespace Query

variable {g : Graph} {t n : Node}

theorem isRival_comm : isRival t n = isRival n t := by
  simp only [isRival, Scalar.same, eq_comm]

/-- A rival of a node that can be compared can be compared as well, the two being of one kind. -/
theorem Comparable.of_isRival (hkeyed : g.NodesKeyed) (ht : t ∈ g.nodes.values) (hn : n ∈ g.nodes.values)
    (hrival : isRival t n = true) (h : Comparable g t) : Comparable g n := by
  have hkind : n.kind = t.kind := ((hkeyed.isRival_iff ht hn).1 hrival).2
  have helements : ∀ m ∈ g.nodes.values, isRival t m = true →
      t.name.elements.isOk = true ∧ m.name.elements.isOk = true := by
    intro m hm hm'
    have hok := h m hm hm'
    rwa [Graph.isOk_similarity ((hkeyed.isRival_iff ht hm).1 hm').2.symm, Bool.and_eq_true] at hok
  obtain ⟨htok, hnok⟩ := helements n hn hrival
  intro m hm hm'
  have hmkind : m.kind = n.kind := ((hkeyed.isRival_iff hn hm).1 hm').2
  rw [Graph.isOk_similarity hmkind.symm, hnok, Bool.true_and]
  by_cases heq : m = t
  · exact heq ▸ htok
  · exact (helements m hm ((hkeyed.isRival_iff ht hm).2 ⟨heq, hmkind.trans hkind⟩)).2

end Query

namespace QueryEngine

variable {q : QueryEngine} {id : Value} {t n : Node} {least score : Float} {limit : ℤ}

theorem findSimilar_of_isFalsy {limit : Value} (h : id.isFalsy = true) : q.findSimilar id limit = .ok [] := by
  rw [findSimilar, node?, h]
  rfl

/-- The hits of a node, when nothing is cut off. -/
theorem mem_findSimilar_iff (ht : q.node? id = .ok (some t)) (hleast : q.threshold.threshold = .ok least)
    (hlimit : (q.graph.nodes.size : ℤ) ≤ limit) :
    (∃ hits, q.findSimilar id (.int limit) = .ok hits ∧ scoredHit (n, score) ∈ hits) ↔
      Query.Comparable q.graph t ∧ n ∈ q.graph.nodes.values ∧ Query.isRival t n = true ∧
        q.graph.similarity t n = .ok score ∧ least < score := by
  by_cases h : Query.Comparable q.graph t
  · have hsize : q.graph.nodes.values.length = q.graph.nodes.size := List.length_map _
    have hfound := (@Query.found_sublist q.graph least t q.graph.nodes.values).length_le
    rw [List.length_map] at hfound
    have hwhole : (Query.rank (Query.found q.graph least t q.graph.nodes.values)).take limit.toNat =
        Query.rank (Query.found q.graph least t q.graph.nodes.values) := by
      refine List.take_of_length_le ?_
      rw [(Query.perm_rank _).length_eq]
      omega
    rw [findSimilar_eq_rank ht hleast h (by omega), hwhole]
    simp only [Except.ok.injEq, exists_eq_left', List.mem_map_of_injective scoredHit_injective,
      (Query.perm_rank _).mem_iff, Query.mem_found, h, true_and]
  · simp [findSimilar_eq_error ht hleast h, h]

end QueryEngine

namespace QueryEngine

theorem mutual_of_names {q : QueryEngine} {least : Float} (hkeyed : q.graph.NodesKeyed)
    (hnames : q.graph.Names Value.WellFormed) (hleast : q.threshold.threshold = .ok least) {i j : Scalar}
    {a b : Node} (hi : (Value.scalar i).isFalsy = false) (hj : (Value.scalar j).isFalsy = false)
    (ha : q.graph.nodes.get? i = some a) (hb : q.graph.nodes.get? j = some b) {limit : ℤ}
    (hlimit : (q.graph.nodes.size : ℤ) ≤ limit) (score : Float) :
    (∃ hits, q.findSimilar (.scalar i) (.int limit) = .ok hits ∧ scoredHit (b, score) ∈ hits) ↔
      ∃ hits, q.findSimilar (.scalar j) (.int limit) = .ok hits ∧ scoredHit (a, score) ∈ hits := by
  have hamem := Table.mem_values_of_get? ha
  have hbmem := Table.mem_values_of_get? hb
  have hcomm : q.graph.similarity a b = q.graph.similarity b a :=
    Graph.similarity_comm (hnames.of_mem_values a hamem) (hnames.of_mem_values b hbmem)
  rw [mem_findSimilar_iff (node?_eq_some hi ha) hleast hlimit, mem_findSimilar_iff (node?_eq_some hj hb) hleast hlimit,
    Query.isRival_comm, hcomm]
  constructor
  · rintro ⟨hcomparable, -, hrival, hscore⟩
    have hrival' := Query.isRival_comm.trans hrival
    exact ⟨hcomparable.of_isRival hkeyed hamem hbmem hrival', hamem, hrival, hscore⟩
  · rintro ⟨hcomparable, -, hrival, hscore⟩
    exact ⟨hcomparable.of_isRival hkeyed hbmem hamem hrival, hbmem, hrival, hscore⟩

end QueryEngine

/-- Likeness is symmetric, to the last bit: two nodes are alike with one double in either order, or cannot be
compared in either, which does not happen to names with elements, as texts are. So where a limit leaves room for
all nodes, a node is found by another with the score with which it finds the other, whatever the threshold. Ids
that count as absent are the exception: they name no node, so nothing is found through them.

What is asked of the graph is so after any calls whose values have no key twice, and documents hold no others. -/
theorem findSimilar_mutual :
    (∀ (q : QueryEngine) (least : Float), q.graph.NodesKeyed → q.graph.Names Value.WellFormed →
      q.threshold.threshold = .ok least →
      (∀ a ∈ q.graph.nodes.values, ∀ b ∈ q.graph.nodes.values,
        q.graph.similarity a b = q.graph.similarity b a ∧
        (a.name.elements.isOk = true → b.name.elements.isOk = true →
          ∃ s, q.graph.similarity a b = .ok s)) ∧
      (∀ (i j : Scalar) (a b : Node), (Value.scalar i).isFalsy = false → (Value.scalar j).isFalsy = false →
        q.graph.nodes.get? i = some a → q.graph.nodes.get? j = some b →
        ∀ limit : ℤ, (q.graph.nodes.size : ℤ) ≤ limit → ∀ score : Float,
          (∃ hits, q.findSimilar (.scalar i) (.int limit) = .ok hits ∧ scoredHit (b, score) ∈ hits) ↔
            ∃ hits, q.findSimilar (.scalar j) (.int limit) = .ok hits ∧ scoredHit (a, score) ∈ hits) ∧
      ∀ id limit : Value, id.isFalsy = true → q.findSimilar id limit = .ok []) ∧
    (∀ calls : List Call, (∀ c ∈ calls, c.WellFormed) →
      (Graph.ofCalls calls).NodesKeyed ∧ (Graph.ofCalls calls).Names Value.WellFormed) ∧
    ∀ (text : String) (v : Value), Value.parse text = .ok v → v.WellFormed := by
  refine ⟨fun q least hkeyed hnames hleast => ⟨fun a ha b hb => ⟨?_, Graph.exists_similarity⟩, ?_,
    fun id limit hid => QueryEngine.findSimilar_of_isFalsy hid⟩,
    fun calls h => ⟨Graph.nodesKeyed_ofCalls calls, Graph.wellFormed_names_ofCalls h⟩,
    fun text v h => Value.wellFormed_parse text v h⟩
  · exact Graph.similarity_comm (hnames.of_mem_values a ha) (hnames.of_mem_values b hb)
  · intro i j a b hi hj ha hb limit hlimit score
    exact QueryEngine.mutual_of_names hkeyed hnames hleast hi hj ha hb hlimit score

theorem wellFormed_names_packageEngine : packageEngine.graph.Names Value.WellFormed := by
  have htexts : packageEngine.graph.nodes.values.all (·.name.isText) = true := by decide +kernel
  intro k n hn
  obtain ⟨s, hs⟩ := Value.isText_iff.1 (List.all_eq_true.1 htexts n (Table.mem_values_of_get? hn))
  exact hs ▸ .scalar _

theorem findSimilar_mutual_packageEngine : ∃ a b : Node, a.id = .text "A" ∧ b.id = .text "B" ∧
    packageEngine.graph.similarity b a = .ok 0.6 ∧
    (∃ hits, packageEngine.findSimilar (.text "A") (.int 4) = .ok hits ∧ scoredHit (b, 0.6) ∈ hits) ∧
    ∃ hits, packageEngine.findSimilar (.text "B") (.int 4) = .ok hits ∧ scoredHit (a, 0.6) ∈ hits := by
  obtain ⟨a, b, ha, haid, hb, hbid, hkind, hcompared, hscore, hlt⟩ := alike_packageEngine
  have hkeyed := accounted_packageEngine.linked.nodes_keyed
  have hamem := Table.mem_values_of_get? ha
  have hbmem := Table.mem_values_of_get? hb
  have hne : b ≠ a := by
    rintro rfl
    exact absurd (haid.symm.trans hbid) (by decide)
  have hfinds : ∃ hits, packageEngine.findSimilar (.text "A") (.int 4) = .ok hits ∧
      scoredHit (b, 0.6) ∈ hits :=
    (QueryEngine.mem_findSimilar_iff (QueryEngine.node?_eq_some rfl ha) (Eq.refl (Except.ok 0.5))
      (by decide +kernel)).2
      ⟨fun n hn _ => hcompared n hn, hbmem, (hkeyed.isRival_iff hamem hbmem).2 ⟨hne, hkind⟩, hscore,
        hlt⟩
  obtain ⟨hcomm, hmutual, -⟩ :=
    findSimilar_mutual.1 packageEngine 0.5 hkeyed wellFormed_names_packageEngine rfl
  exact ⟨a, b, haid, hbid, (hcomm a hamem b hbmem).1 ▸ hscore, hfinds,
    (hmutual (.text "A") (.text "B") a b rfl rfl ha hb 4 (by decide +kernel) 0.6).1 hfinds⟩

/-- Two files of one name, one of which has the empty id. -/
def namelessEngine : QueryEngine where
  graph := .ofCalls [
    .addNode "t0" (.text "") (.fields [("type", .text "file"), ("name", .text "ab")]),
    .addNode "t1" (.text "b") (.fields [("type", .text "file"), ("name", .text "ab")])]
  threshold := .float 0.5
  budget := .int 10

/-- The empty id counts as absent: the file that has it is found, with a score, but finds nothing itself. -/
theorem findSimilar_namelessEngine : ∃ a b : Node,
    namelessEngine.graph.nodes.get? (.text "") = some a ∧
    namelessEngine.graph.nodes.get? (.text "b") = some b ∧ namelessEngine.graph.nodes.size = 2 ∧
    (∃ hits, namelessEngine.findSimilar (.text "b") (.int 2) = .ok hits ∧ scoredHit (a, 0.7) ∈ hits) ∧
    namelessEngine.findSimilar (.text "") (.int 2) = .ok [] := by
  obtain ⟨a, ha⟩ : ∃ a, namelessEngine.graph.nodes.get? (.text "") = some a := ⟨_, rfl⟩
  obtain ⟨b, hb⟩ : ∃ b, namelessEngine.graph.nodes.get? (.text "b") = some b := ⟨_, rfl⟩
  have hfacts : ((namelessEngine.graph.nodes.get? (.text "")).bind fun a =>
      (namelessEngine.graph.nodes.get? (.text "b")).map fun b =>
        (namelessEngine.graph.nodes.values.all (fun n => (namelessEngine.graph.similarity b n).isOk),
          Query.isRival b a, (namelessEngine.graph.similarity b a).toOption)) =
      some (true, true, some 0.7) := by
    decide +kernel
  rw [ha, hb] at hfacts
  simp only [Option.bind_some, Option.map_some, Option.some.injEq, Prod.mk.injEq] at hfacts
  obtain ⟨hcompared, hrival, hscore⟩ := hfacts
  have hfinds : ∃ hits, namelessEngine.findSimilar (.text "b") (.int 2) = .ok hits ∧
      scoredHit (a, 0.7) ∈ hits :=
    (QueryEngine.mem_findSimilar_iff (QueryEngine.node?_eq_some rfl hb) (Eq.refl (Except.ok 0.5))
      (by decide +kernel)).2
      ⟨fun n hn _ => List.all_eq_true.1 hcompared n hn, Table.mem_values_of_get? ha, hrival,
        Except.toOption_eq_some.1 hscore, by decide +kernel⟩
  exact ⟨a, b, ha, hb, by decide +kernel, hfinds, rfl⟩

end CodeAtlas
