import CodeAtlas.Proofs.Query.Answered
import CodeAtlas.Proofs.Query.Limits
import CodeAtlas.Proofs.Similarity.DoubleOrder
import CodeAtlas.Proofs.Similarity.Symmetry
import Mathlib.Data.List.Nodup

/-! The ranking of similar nodes. The scores that pass the threshold are defined, so they stand in one line; the
candidates come with the best score first and, at one score, in the order of the graph. That order leaves no
choice: whoever sorts the indices of the negated scores, in ascending order and without moving ties, finds the
same nodes in the same places. -/

namespace CodeAtlas

section StableOrder

variable {α κ : Type} [LinearOrder κ] {f : α → κ} {l l₁ l₂ : List α} {a b : α}

/-- In a list without repetition two items stand in one order only. -/
theorem pair_sublist_asymm (hl : l.Nodup) (hab : [a, b].Sublist l) : ¬ [b, a].Sublist l := by
  induction l with
  | nil => exact absurd hab (by simp)
  | cons x rest ih =>
    intro hba
    obtain ⟨hx, hrest⟩ := List.nodup_cons.1 hl
    cases hab with
    | cons _ hab =>
      cases hba with
      | cons _ hba => exact ih hrest hab hba
      | cons_cons _ hba => exact hx (hab.subset (by simp))
    | cons_cons _ hab =>
      cases hba with
      | cons _ hba => exact hx (hba.subset (by simp))
      | cons_cons _ hba => exact hx (hab.subset (by simp))

theorem pair_sublist_total (ha : a ∈ l) (hb : b ∈ l) (hne : a ≠ b) :
    [a, b].Sublist l ∨ [b, a].Sublist l := by
  induction l with
  | nil => exact absurd ha List.not_mem_nil
  | cons x rest ih =>
    rcases List.mem_cons.1 ha with rfl | harest
    · rcases List.mem_cons.1 hb with rfl | hbrest
      · exact absurd rfl hne
      · exact Or.inl ((List.singleton_sublist.2 hbrest).cons_cons a)
    · rcases List.mem_cons.1 hb with rfl | hbrest
      · exact Or.inr ((List.singleton_sublist.2 harest).cons_cons b)
      · exact (ih harest hbrest).imp (·.cons x) (·.cons x)

/-- Items at rising indices stand in that order. -/
theorem pair_sublist_of_lt {i j : ℕ} (hij : i < j) (hi : l[i]? = some a) (hj : l[j]? = some b) :
    [a, b].Sublist l := by
  induction l generalizing i j with
  | nil => simp at hi
  | cons x rest ih =>
    obtain ⟨j, rfl⟩ : ∃ k, j = k + 1 := ⟨j - 1, by omega⟩
    rw [List.getElem?_cons_succ] at hj
    cases i with
    | zero =>
      obtain rfl : x = a := by simpa using hi
      exact (List.singleton_sublist.2 (List.mem_of_getElem? hj)).cons_cons x
    | succ i =>
      rw [List.getElem?_cons_succ] at hi
      exact (ih (by omega) hi hj).cons x

/-- Whether an item comes before another when a list is put in the order of a key and ties stay as they are. -/
def StablyBefore (f : α → κ) (l : List α) (a b : α) : Prop :=
  f a < f b ∨ f a = f b ∧ [a, b].Sublist l

theorem StablyBefore.asymm (hl : l.Nodup) (hab : StablyBefore f l a b) : ¬ StablyBefore f l b a := by
  rintro (hlt | ⟨heq, hba⟩)
  · rcases hab with hlt' | ⟨heq, -⟩
    · exact absurd hlt hlt'.asymm
    · exact absurd heq hlt.ne'
  · rcases hab with hlt | ⟨-, hab⟩
    · exact absurd heq hlt.ne'
    · exact pair_sublist_asymm hl hab hba

/-- Sorting by a key leaves ties as they are. -/
theorem pairwise_mergeSort_stably (hl : l.Nodup) :
    (l.mergeSort fun a b => f a ≤ f b).Pairwise (StablyBefore f l) := by
  have htrans : ∀ a b c : α, decide (f a ≤ f b) → decide (f b ≤ f c) → decide (f a ≤ f c) := by
    simpa using fun a b c => le_trans
  have htotal : ∀ a b : α, decide (f a ≤ f b) || decide (f b ≤ f a) := by
    simpa using fun a b => le_total (f a) (f b)
  have hnodup := (List.mergeSort_perm l fun a b => f a ≤ f b).nodup_iff.2 hl
  rw [List.pairwise_iff_forall_sublist]
  intro a b hab
  have hle : f a ≤ f b := by
    have hsorted := List.pairwise_iff_forall_sublist.1 (List.pairwise_mergeSort htrans htotal l) hab
    simpa using hsorted
  refine hle.lt_or_eq.imp id fun heq => ⟨heq, ?_⟩
  have ha : a ∈ l := List.mem_mergeSort.1 (hab.subset (by simp))
  have hb : b ∈ l := List.mem_mergeSort.1 (hab.subset (by simp))
  have hne : a ≠ b := by simpa using hnodup.sublist hab
  refine (pair_sublist_total ha hb hne).resolve_right fun hba => ?_
  have hsorted := List.pair_sublist_mergeSort htrans htotal (by simpa using heq.ge) hba
  exact pair_sublist_asymm hnodup hab hsorted

theorem eq_of_stably (hl : l.Nodup) (h₁ : l₁.Pairwise (StablyBefore f l))
    (h₂ : l₂.Pairwise (StablyBefore f l)) (hperm : l₁.Perm l₂) : l₁ = l₂ :=
  hperm.eq_of_pairwise (fun _ _ _ _ hab hba => absurd hba (hab.asymm hl)) h₁ h₂

end StableOrder

section Argsort

/-- Whether a function sorts indices: ascending by what stands at them, if that is defined everywhere, and ties
by the indices themselves. -/
structure StableArgsort (argsort : List Float → List ℕ) : Prop where
  perm : ∀ xs, (argsort xs).Perm (List.range xs.length)
  ordered : ∀ xs, (∀ x ∈ xs, x.isNaN = false) → (argsort xs).Pairwise fun i j =>
    ∀ x, xs[i]? = some x → ∀ y, xs[j]? = some y → x < y ∨ (x == y) = true ∧ i < j

/-- The items at the given indices. -/
def pick {α : Type} (xs : List α) (indices : List ℕ) : List α := indices.filterMap (xs[·]?)

theorem pick_range {α : Type} (xs : List α) : pick xs (List.range xs.length) = xs := by
  induction xs with
  | nil => rfl
  | cons x rest ih =>
    rw [pick, List.length_cons, List.range_succ_eq_map, List.filterMap_cons]
    simpa [pick, List.filterMap_map, Function.comp_def] using ih

def indexSort (xs : List Float) : List ℕ :=
  (List.range xs.length).mergeSort fun i j => place (xs.getD i 0.0) ≤ place (xs.getD j 0.0)

theorem stableArgsort_indexSort : StableArgsort indexSort where
  perm xs := List.mergeSort_perm _ _
  ordered xs hdefined := by
    have hstable := pairwise_mergeSort_stably (f := fun i => place (xs.getD i 0.0))
      (List.nodup_range (n := xs.length))
    refine hstable.imp fun {i j} hbefore x hx y hy => ?_
    have hget : ∀ {k z}, xs[k]? = some z → xs.getD k 0.0 = z := by
      intro k z hz
      rw [List.getD_eq_getElem?_getD, hz, Option.getD_some]
    have hxdef := hdefined x (List.mem_of_getElem? hx)
    have hydef := hdefined y (List.mem_of_getElem? hy)
    simp only [StablyBefore, hget hx, hget hy] at hbefore
    rcases hbefore with hlt | ⟨heq, hpair⟩
    · exact Or.inl ((float_lt_iff hxdef hydef).2 hlt)
    · have hij := List.pairwise_iff_forall_sublist.1 List.pairwise_lt_range hpair
      exact Or.inr ⟨(float_beq_iff hxdef hydef).2 heq, hij⟩

end Argsort

namespace Query

section Ranked

variable {scored : List (Node × Float)}

def rankKey (x : Node × Float) : (ℤ ×ₗ ℤ ×ₗ ℤ)ᵒᵈ := OrderDual.toDual (place x.2)

variable (hdefined : ∀ x ∈ scored, x.2.isNaN = false)

include hdefined

theorem rankKey_lt_iff {x y : Node × Float} (hx : x ∈ scored) (hy : y ∈ scored) :
    rankKey x < rankKey y ↔ y.2 < x.2 := (float_lt_iff (hdefined y hy) (hdefined x hx)).symm

theorem rankKey_eq_iff {x y : Node × Float} (hx : x ∈ scored) (hy : y ∈ scored) :
    rankKey x = rankKey y ↔ (x.2 == y.2) = true := (float_beq_iff (hdefined x hx) (hdefined y hy)).symm

theorem rank_eq_mergeSort : rank scored = scored.mergeSort fun x y => rankKey x ≤ rankKey y := by
  have hle : ∀ x ∈ scored, ∀ y ∈ scored,
      decide (y.2 ≤ x.2) = decide (rankKey (id x) ≤ rankKey (id y)) := by
    intro x hx y hy
    exact decide_eq_decide.2 (float_le_iff (hdefined y hy) (hdefined x hx))
  simpa [rank] using @List.map_mergeSort _ _ (fun x y => decide (y.2 ≤ x.2))
    (fun x y => decide (rankKey x ≤ rankKey y)) id scored hle

theorem pairwise_rank (hnodup : scored.Nodup) : (rank scored).Pairwise (StablyBefore rankKey scored) := by
  rw [rank_eq_mergeSort hdefined]
  exact pairwise_mergeSort_stably hnodup

theorem pairwise_rank_scores (hnodup : scored.Nodup) : (rank scored).Pairwise fun x y => y.2 ≤ x.2 := by
  refine (pairwise_rank hdefined hnodup).imp_of_mem fun {x y} hx hy hbefore => ?_
  have hxy : rankKey x ≤ rankKey y := hbefore.elim le_of_lt fun ⟨heq, _⟩ => heq.le
  exact (float_le_iff (hdefined y (List.mem_mergeSort.1 hy)) (hdefined x (List.mem_mergeSort.1 hx))).2 hxy

/-- Sorting the indices of the negated scores finds the ranking. -/
theorem pick_argsort {argsort : List Float → List ℕ} (hsort : StableArgsort argsort) (hnodup : scored.Nodup) :
    pick scored (argsort (scored.map fun x => -x.2)) = rank scored := by
  have hperm : (pick scored (argsort (scored.map fun x => -x.2))).Perm scored := by
    have hindices := hsort.perm (scored.map fun x => -x.2)
    rw [List.length_map] at hindices
    exact (hindices.filterMap _).trans (List.Perm.of_eq (pick_range scored))
  have hneg : ∀ x ∈ scored.map fun x => -x.2, x.isNaN = false := by
    intro x hx
    obtain ⟨y, hy, rfl⟩ := List.mem_map.1 hx
    rw [isNaN_neg]
    exact hdefined y hy
  refine eq_of_stably hnodup ?_ (pairwise_rank hdefined hnodup)
    (hperm.trans (List.mergeSort_perm scored _).symm)
  rw [pick, List.pairwise_filterMap]
  refine (hsort.ordered _ hneg).imp fun {i j} h x hx y hy => ?_
  have hxmem := List.mem_of_getElem? hx
  have hymem := List.mem_of_getElem? hy
  have hbefore := h (-x.2) (by simp [hx]) (-y.2) (by simp [hy])
  rcases hbefore with hlt | ⟨heq, hij⟩
  · exact Or.inl ((rankKey_lt_iff hdefined hxmem hymem).2 (float_neg_lt_neg_iff.1 hlt))
  · have hkeys := (rankKey_eq_iff hdefined hymem hxmem).2 (float_neg_beq_neg_iff.1 heq)
    exact Or.inr ⟨hkeys.symm, pair_sublist_of_lt hij hx hy⟩

end Ranked

section Candidates

variable {g : Graph} {least : Float} {target : Node} {ns : List Node}

def isRival (target n : Node) : Bool := !(n.id.same target.id) && n.kind = target.kind

theorem candidates_cons_isRival {threshold : Checked Float} {n : Node} :
    candidates g threshold target (n :: ns) =
      if isRival target n then
        enlist threshold n (g.similarity target n) (candidates g threshold target ns)
      else candidates g threshold target ns := by
  rw [candidates_cons, isRival]
  cases n.id.same target.id <;> by_cases hkind : n.kind = target.kind <;> simp [hkind]

/-- A node with its likeness to a target, if that exceeds a threshold. -/
def admitted (g : Graph) (least : Float) (target n : Node) : Option (Node × Float) :=
  match g.similarity target n with
  | .ok score => if least < score then some (n, score) else none
  | .error _ => none

theorem admitted_eq_some {n : Node} {x : Node × Float} :
    admitted g least target n = some x ↔ n = x.1 ∧ g.similarity target n = .ok x.2 ∧ least < x.2 := by
  obtain ⟨m, score⟩ := x
  unfold admitted
  cases g.similarity target n with
  | error e => simp
  | ok likeness =>
    by_cases hlt : least < likeness
    · simp only [if_pos hlt, Option.some.injEq, Prod.mk.injEq, Except.ok.injEq]
      exact ⟨fun ⟨hm, hscore⟩ => ⟨hm, hscore, hscore ▸ hlt⟩, fun ⟨hm, hscore, _⟩ => ⟨hm, hscore⟩⟩
    · simp only [if_neg hlt, reduceCtorEq, Except.ok.injEq, false_iff, not_and]
      exact fun _ hscore hlt' => hlt (hscore ▸ hlt')

def found (g : Graph) (least : Float) (target : Node) (ns : List Node) : List (Node × Float) :=
  (ns.filter (isRival target)).filterMap (admitted g least target)

/-- Where all rivals can be compared with the target, those are found that exceed the threshold. -/
theorem candidates_eq_ok (h : ∀ n ∈ ns, isRival target n = true → (g.similarity target n).isOk = true) :
    candidates g (.ok least) target ns = .ok (found g least target ns) := by
  induction ns with
  | nil => rfl
  | cons n rest ih =>
    have hrest := ih fun m hm => h m (List.mem_cons_of_mem _ hm)
    rw [candidates_cons_isRival, hrest]
    simp only [found, List.filter_cons]
    by_cases hrival : isRival target n = true
    · obtain ⟨score, hscore⟩ := isOk_iff.1 (h n List.mem_cons_self hrival)
      rw [if_pos hrival, if_pos hrival, List.filterMap_cons, admitted, hscore, enlist]
      by_cases hlt : least < score <;> simp [hlt, bind, Except.bind, pure, Except.pure]
    · rw [if_neg hrival, if_neg hrival]

/-- Where a rival cannot be compared with the target, there is no answer. -/
theorem candidates_eq_error
    (h : ∃ n ∈ ns, isRival target n = true ∧ (g.similarity target n).isOk = false) :
    candidates g (.ok least) target ns = .error .wrongSort := by
  obtain ⟨m, hm, hrival, hfails⟩ := h
  induction ns with
  | nil => exact absurd hm List.not_mem_nil
  | cons n rest ih =>
    rw [candidates_cons_isRival]
    cases hscore : g.similarity target n with
    | error e =>
      rw [Graph.similarity_eq_error hscore]
      split
      · rfl
      · rename_i hskip
        rcases List.mem_cons.1 hm with rfl | hmrest
        · exact absurd hrival hskip
        · exact ih hmrest
    | ok score =>
      have hmrest : m ∈ rest := by
        refine (List.mem_cons.1 hm).resolve_left fun heq => ?_
        rw [heq, hscore] at hfails
        cases hfails
      rw [ih hmrest, enlist]
      split
      · simp only [bind, Except.bind]
        split <;> rfl
      · rfl

theorem mem_found {x : Node × Float} :
    x ∈ found g least target ns ↔ x.1 ∈ ns ∧ isRival target x.1 = true ∧
      g.similarity target x.1 = .ok x.2 ∧ least < x.2 := by
  simp only [found, List.mem_filterMap, List.mem_filter, admitted_eq_some]
  constructor
  · rintro ⟨n, ⟨hn, hrival⟩, rfl, hscore, hlt⟩
    exact ⟨hn, hrival, hscore, hlt⟩
  · rintro ⟨hn, hrival, hscore, hlt⟩
    exact ⟨x.1, ⟨hn, hrival⟩, rfl, hscore, hlt⟩

theorem found_sublist : ((found g least target ns).map Prod.fst).Sublist ns := by
  have hfst : ∀ ms : List Node, ((ms.filterMap (admitted g least target)).map Prod.fst).Sublist ms := by
    intro ms
    induction ms with
    | nil => exact List.Sublist.refl _
    | cons n rest ih =>
      rw [List.filterMap_cons]
      split
      · exact ih.cons n
      · rename_i x hx
        rw [List.map_cons, ← (admitted_eq_some.1 hx).1]
        exact ih.cons_cons n
  exact (hfst _).trans List.filter_sublist

theorem isNaN_of_mem_found : ∀ x ∈ found g least target ns, x.2.isNaN = false :=
  fun _ hx => (isNaN_of_lt (mem_found.1 hx).2.2.2).2

theorem perm_rank (scored : List (Node × Float)) : (rank scored).Perm scored := List.mergeSort_perm _ _

theorem pairwise_rank_found (hnodup : (found g least target ns).Nodup) :
    (rank (found g least target ns)).Pairwise fun x y =>
      y.2 < x.2 ∨ (x.2 == y.2) = true ∧ [x.1, y.1].Sublist ns := by
  have hdefined : ∀ x ∈ found g least target ns, x.2.isNaN = false := isNaN_of_mem_found
  refine (pairwise_rank hdefined hnodup).imp_of_mem fun {x y} hx hy hbefore => ?_
  have hxfound := (perm_rank _).mem_iff.1 hx
  have hyfound := (perm_rank _).mem_iff.1 hy
  rcases hbefore with hlt | ⟨heq, hpair⟩
  · exact Or.inl ((rankKey_lt_iff hdefined hxfound hyfound).1 hlt)
  · exact Or.inr ⟨(rankKey_eq_iff hdefined hxfound hyfound).1 heq, (hpair.map Prod.fst).trans found_sublist⟩

def Comparable (g : Graph) (t : Node) : Prop :=
  ∀ n ∈ g.nodes.values, isRival t n = true → (g.similarity t n).isOk = true

end Candidates

end Query

section Graphs

variable {g : Graph} {t : Node} {k : Scalar}

theorem Graph.NodesKeyed.isRival_iff (h : g.NodesKeyed) (ht : t ∈ g.nodes.values) {n : Node}
    (hn : n ∈ g.nodes.values) : Query.isRival t n = true ↔ n ≠ t ∧ n.kind = t.kind := by
  have hid : n.id.canon = t.id.canon ↔ n = t :=
    ⟨fun heq => List.inj_on_of_nodup_map h.nodup_ids hn ht heq, fun heq => by rw [heq]⟩
  simp [Query.isRival, Scalar.same, hid]

theorem Graph.NodesKeyed.mem_found_iff (h : g.NodesKeyed) (ht : t ∈ g.nodes.values) {least score : Float}
    {n : Node} : (n, score) ∈ Query.found g least t g.nodes.values ↔ n ∈ g.nodes.values ∧ n ≠ t ∧
      n.kind = t.kind ∧ g.similarity t n = .ok score ∧ least < score := by
  rw [Query.mem_found]
  refine and_congr_right fun hn => ?_
  rw [h.isRival_iff ht hn, and_assoc]

theorem Graph.NodesKeyed.nodup_found (h : g.NodesKeyed) {least : Float} :
    ((Query.found g least t g.nodes.values).map (·.1.id.canon)).Nodup := by
  have hsub : ((Query.found g least t g.nodes.values).map Prod.fst).Sublist g.nodes.values :=
    Query.found_sublist
  have hids := h.nodup_ids.sublist (hsub.map (·.id.canon))
  rwa [List.map_map] at hids

end Graphs

namespace QueryEngine

variable {q : QueryEngine} {id : Value} {t : Node} {least : Float}

variable (ht : q.node? id = .ok (some t)) (hleast : q.threshold.threshold = .ok least)

include ht hleast

/-- The best of what is found, where all rivals can be compared. -/
theorem findSimilar_eq_rank (h : Query.Comparable q.graph t) {limit : ℤ} (hlimit : 0 ≤ limit) :
    q.findSimilar id (.int limit) =
      .ok (((Query.rank (Query.found q.graph least t q.graph.nodes.values)).take limit.toNat).map
        scoredHit) := by
  rw [findSimilar_eq_candidates ht hleast, Query.candidates_eq_ok h]
  change best (.int limit) (Query.found q.graph least t q.graph.nodes.values) = _
  generalize Query.found q.graph least t q.graph.nodes.values = scored
  cases scored with
  | nil => simp [best, Query.rank]
  | cons x rest =>
    change Except.map (List.map scoredHit) (.ok (takeUpTo limit (Query.rank (x :: rest)))) = _
    rw [takeUpTo_of_nonneg hlimit]
    rfl

theorem findSimilar_eq_error (h : ¬ Query.Comparable q.graph t) (limit : Value) :
    q.findSimilar id limit = .error .wrongSort := by
  rw [findSimilar_eq_candidates ht hleast, Query.candidates_eq_error (by simpa [Query.Comparable] using h)]
  rfl

end QueryEngine

/-- Asked for the nodes like one of its nodes, the engine answers with the first of a ranking. Ranked are the
other nodes of that kind whose likeness exceeds the threshold, the best first and ties in the order of the
graph, which is where a stable sort of the indices of the negated scores puts them. So scores never rise, no
node is there twice, nor is the node itself, and what a limit leaves out is no better than what it leaves in.
If one of those nodes cannot be compared, because a name has no parts, there is no answer. -/
theorem findSimilar_ranks {q : QueryEngine} {id : String} {t : Node} {least : Float}
    {argsort : List Float → List ℕ} (hkeyed : q.graph.NodesKeyed) (hid : id ≠ "")
    (ht : q.graph.nodes.get? (.text id) = some t) (hleast : q.threshold.threshold = .ok least)
    (hsort : StableArgsort argsort) :
    ((∀ n ∈ q.graph.nodes.values, n ≠ t → n.kind = t.kind → ∃ s, q.graph.similarity t n = .ok s) →
      ∃ found ranked : List (Node × Float),
        (found.map Prod.fst).Sublist q.graph.nodes.values ∧
        (∀ n score, (n, score) ∈ found ↔ n ∈ q.graph.nodes.values ∧ n ≠ t ∧ n.kind = t.kind ∧
          q.graph.similarity t n = .ok score ∧ least < score) ∧
        ranked = pick found (argsort (found.map fun x => -x.2)) ∧ ranked.Perm found ∧
        (ranked.Pairwise fun x y => y.2 < x.2 ∨
          (x.2 == y.2) = true ∧ [x.1, y.1].Sublist q.graph.nodes.values) ∧
        (ranked.Pairwise fun x y => y.2 ≤ x.2) ∧
        (ranked.map (·.1.id.canon)).Nodup ∧ (∀ x ∈ ranked, x.1.id.canon ≠ t.id.canon) ∧
        ∀ limit : ℤ, 0 ≤ limit →
          q.findSimilar (.text id) (.int limit) = .ok ((ranked.take limit.toNat).map scoredHit) ∧
          ∀ x ∈ ranked.take limit.toNat, ∀ y ∈ ranked.drop limit.toNat, y.2 ≤ x.2) ∧
    ((∃ n ∈ q.graph.nodes.values, n ≠ t ∧ n.kind = t.kind ∧ ∃ e, q.graph.similarity t n = .error e) →
      ∀ limit, q.findSimilar (.text id) limit = .error .wrongSort) := by
  have htmem : t ∈ q.graph.nodes.values := Table.mem_values_of_get? ht
  have hnode := QueryEngine.node?_eq_some (Value.isFalsy_text hid) ht
  constructor
  · intro h
    have hcompared : Query.Comparable q.graph t := by
      intro n hn hrival
      obtain ⟨hne, hkind⟩ := (hkeyed.isRival_iff htmem hn).1 hrival
      exact isOk_iff.2 (h n hn hne hkind)
    have hdefined : ∀ x ∈ Query.found q.graph least t q.graph.nodes.values, x.2.isNaN = false :=
      Query.isNaN_of_mem_found
    have hids := @Graph.NodesKeyed.nodup_found _ t hkeyed least
    have hnodup := List.Nodup.of_map _ hids
    have hperm := Query.perm_rank (Query.found q.graph least t q.graph.nodes.values)
    have hscores := Query.pairwise_rank_scores hdefined hnodup
    refine ⟨_, _, Query.found_sublist, fun n score => hkeyed.mem_found_iff htmem,
      (Query.pick_argsort hdefined hsort hnodup).symm, hperm, Query.pairwise_rank_found hnodup, hscores,
      (hperm.map _).nodup_iff.2 hids, fun x hx => ?_, fun limit hlimit => ⟨?_, ?_⟩⟩
    · have hrival := (Query.mem_found.1 (hperm.mem_iff.1 hx)).2.1
      simp only [Query.isRival, Bool.and_eq_true, Bool.not_eq_true'] at hrival
      exact fun heq => absurd (Scalar.same_iff.2 heq) (by simp [hrival.1])
    · exact QueryEngine.findSimilar_eq_rank hnode hleast hcompared hlimit
    · rw [← List.take_append_drop limit.toNat (Query.rank _)] at hscores
      exact (List.pairwise_append.1 hscores).2.2
  · rintro ⟨n, hn, hne, hkind, e, herror⟩
    refine QueryEngine.findSimilar_eq_error hnode hleast fun hcompared => ?_
    have hok := hcompared n hn ((hkeyed.isRival_iff htmem hn).2 ⟨hne, hkind⟩)
    rw [herror] at hok
    cases hok

/-- Two of the packages can be compared with all packages and are alike beyond the threshold. -/
theorem alike_packageEngine : ∃ a b : Node,
    packageEngine.graph.nodes.get? (.text "A") = some a ∧ a.id = .text "A" ∧
    packageEngine.graph.nodes.get? (.text "B") = some b ∧ b.id = .text "B" ∧ b.kind = a.kind ∧
    (∀ n ∈ packageEngine.graph.nodes.values, (packageEngine.graph.similarity a n).isOk = true) ∧
    packageEngine.graph.similarity a b = .ok 0.6 ∧ (0.5 : Float) < 0.6 := by
  obtain ⟨a, ha⟩ : ∃ a, packageEngine.graph.nodes.get? (.text "A") = some a := ⟨_, rfl⟩
  obtain ⟨b, hb⟩ : ∃ b, packageEngine.graph.nodes.get? (.text "B") = some b := ⟨_, rfl⟩
  have hcompared : (packageEngine.graph.nodes.get? (.text "A")).all (fun a =>
      packageEngine.graph.nodes.values.all fun n => (packageEngine.graph.similarity a n).isOk) = true := by
    decide +kernel
  have hscore : ((packageEngine.graph.nodes.get? (.text "A")).bind fun a =>
      (packageEngine.graph.nodes.get? (.text "B")).bind fun b =>
        (packageEngine.graph.similarity a b).toOption) = some 0.6 := by
    decide +kernel
  have hids : a.id = .text "A" ∧ b.id = .text "B" ∧ b.kind = a.kind := by
    cases ha
    cases hb
    exact ⟨rfl, rfl, rfl⟩
  rw [ha] at hcompared hscore
  rw [hb] at hscore
  exact ⟨a, b, ha, hids.1, hb, hids.2.1, hids.2.2, fun n hn => List.all_eq_true.1 hcompared n hn,
    Except.toOption_eq_some.1 hscore, by decide +kernel⟩

theorem findSimilar_ranks_packageEngine :
    ∃ ranked : List (Node × Float),
      packageEngine.findSimilar (.text "A") (.int 2) = .ok ((ranked.take 2).map scoredHit) ∧
      (ranked.Pairwise fun x y => y.2 ≤ x.2) ∧ ∃ x ∈ ranked, x.1.id = .text "B" ∧ x.2 = 0.6 := by
  obtain ⟨a, b, ha, haid, hb, hbid, hkind, hcompared, hscore, hlt⟩ := alike_packageEngine
  obtain ⟨found, ranked, -, hfound, -, hperm, -, hscores, -, -, hlimits⟩ :=
    (findSimilar_ranks accounted_packageEngine.linked.nodes_keyed (by decide) ha
      (Eq.refl (Except.ok 0.5)) stableArgsort_indexSort).1 fun n hn _ _ => isOk_iff.1 (hcompared n hn)
  have hne : b ≠ a := by
    rintro rfl
    exact absurd (haid.symm.trans hbid) (by decide)
  have hmem := (hfound b 0.6).2 ⟨Table.mem_values_of_get? hb, hne, hkind, hscore, hlt⟩
  exact ⟨ranked, (hlimits 2 (by decide)).1, hscores, (b, 0.6), hperm.mem_iff.2 hmem, hbid, rfl⟩

end CodeAtlas
