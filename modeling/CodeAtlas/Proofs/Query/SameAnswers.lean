import CodeAtlas.Graph.View
import CodeAtlas.Proofs.Query.LookAlike

/-! Graphs that differ at most in the order in which connections came. They have the same statistics, and
every question has the same answer in both, down to the way in which it fails. -/

namespace CodeAtlas

/-- Texts have one order, whatever order they came in. -/
theorem sortKeys_eq_of_perm {keys keys' : List Scalar} (h : keys.Perm keys')
    (htexts : ∀ k ∈ keys, k.IsText) : sortKeys keys = sortKeys keys' := by
  obtain ⟨ss, rfl⟩ := exists_map_text htexts
  obtain ⟨ss', rfl⟩ := exists_map_text fun k hk => htexts k (h.mem_iff.2 hk)
  have hperm : ss.Perm ss' := (List.map_perm_map_iff fun s t hst => Scalar.text.inj hst).1 h
  rw [sortKeys_map_text, sortKeys_map_text]
  refine congrArg _ (List.Perm.eq_of_pairwise (fun s t _ _ => String.le_antisymm)
    (pairwise_mergeSort_texts ss) (pairwise_mergeSort_texts ss') ?_)
  exact (List.mergeSort_perm _ _).trans (hperm.trans (List.mergeSort_perm _ _).symm)

/-- Nodes that look alike one by one. -/
abbrev AlikeInTurn (ns ms : List Node) : Prop := List.Forall₂ (fun n m => n.profile = m.profile) ns ms

/-- Whether two graphs show the same in the same order. -/
structure Graph.ReadsLike (g h : Graph) : Prop where
  nodes : g.nodes.mapValues Node.profile = h.nodes.mapValues Node.profile
  edges : g.edges = h.edges
  concepts : g.concepts = h.concepts

section Same

variable {g h : Graph} {n m : Node}

theorem Node.profile_eq_of_mem_iff (hsame : n.SameRecord m)
    (hmem : ∀ x, x ∈ n.connections.keys ↔ x ∈ m.connections.keys)
    (htexts : ∀ x ∈ n.connections.keys, x.IsText) : n.profile = m.profile := by
  have hnodup : ∀ s : KeySet, s.keys.Nodup := fun s => List.Nodup.of_map _ Table.nodup_keys
  have hperm : n.connections.keys.Perm m.connections.keys :=
    (List.perm_ext_iff_of_nodup (hnodup _) (hnodup _)).2 hmem
  have hbare : n.bare = m.bare := by
    rw [hsame]
    rfl
  exact Node.profile_eq.2 ⟨hbare, sortKeys_eq_of_perm hperm htexts⟩

/-- Graphs that are the same but for the order of connections show the same, if all ids are texts. -/
theorem Graph.Same.readsLike (hsame : g.Same h) (hl : g.Linked) (ht : g.TextIds) : g.ReadsLike h where
  nodes := by
    have hnodes := (List.forall₂_and_left _ _).2 ⟨fun p (hp : p ∈ g.nodes.entries) => hp, hsame.nodes⟩
    refine Table.ext (List.forall₂_eq_eq_eq ▸ ?_)
    rw [Table.mapValues, Table.mapValues, List.forall₂_map_left_iff, List.forall₂_map_right_iff]
    refine hnodes.imp fun p q h => ?_
    obtain ⟨hp, hkey, hrecord, hmem⟩ := h
    refine Prod.ext hkey.symm ?_
    exact Node.profile_eq_of_mem_iff hrecord hmem fun x hx =>
      (hl.mem_edges_of_mem_connections ht (List.mem_map_of_mem hp) hx).1
  edges := hsame.edges.symm
  concepts := hsame.concepts.symm

end Same

namespace Graph.ReadsLike

variable {g h : Graph}

theorem looksLike (hlike : g.ReadsLike h) : g.LooksLike h where
  nodes k := by rw [← Table.get?_mapValues, ← Table.get?_mapValues, hlike.nodes]
  edges k := by rw [hlike.edges]

theorem alikeInTurn (hlike : g.ReadsLike h) : AlikeInTurn g.nodes.values h.nodes.values := by
  have hentries := congrArg Table.entries hlike.nodes
  rw [Table.mapValues, Table.mapValues, ← List.forall₂_eq_eq_eq, List.forall₂_map_left_iff,
    List.forall₂_map_right_iff] at hentries
  rw [AlikeInTurn, Table.values, Table.values, List.forall₂_map_left_iff, List.forall₂_map_right_iff]
  exact hentries.imp fun _ _ h => (Prod.mk.inj h).2

end Graph.ReadsLike

theorem AlikeInTurn.map_eq {α : Type} {f : Node → α} {ns ms : List Node} (h : AlikeInTurn ns ms)
    (hf : ∀ n m, n.profile = m.profile → f n = f m) : ns.map f = ms.map f := by
  rw [← List.forall₂_eq_eq_eq, List.forall₂_map_left_iff, List.forall₂_map_right_iff]
  exact h.imp hf

section Statistics

variable {g h : Graph}

/-- Graphs that read alike have the same statistics. -/
theorem Graph.ReadsLike.stats_eq (hlike : g.ReadsLike h) : g.stats = h.stats := by
  have hsize : g.nodes.size = h.nodes.size := by
    have hkeys := congrArg Table.keys hlike.nodes
    rw [Table.keys_mapValues, Table.keys_mapValues] at hkeys
    rw [Table.size_eq_length_keys, Table.size_eq_length_keys, hkeys]
  have hkinds : g.nodes.values.map (·.kind) = h.nodes.values.map (·.kind) :=
    hlike.alikeInTurn.map_eq fun n m hprofile => Node.eq_of_profile (fun _ => rfl) hprofile
  have hcounts : g.nodes.values.map (·.connections.size) = h.nodes.values.map (·.connections.size) := by
    refine hlike.alikeInTurn.map_eq fun n m hprofile => ?_
    rw [Table.size_eq_length_keys, Table.size_eq_length_keys, (Node.perm_connections hprofile).length_eq]
  have htotal : ∀ f : Graph, f.connectionTotal =
      (f.nodes.values.map (·.connections.size)).foldl (· + ·) 0 := by
    intro f
    rw [Graph.connectionTotal, List.foldl_map]
  simp only [Graph.stats, Graph.averageConnections, htotal, hsize, hkinds, hcounts, hlike.edges,
    hlike.concepts]

end Statistics

section Similarity

variable {g h : Graph} {n n' m m' : Node}

theorem connectionKinds_congr (hedges : g.edges = h.edges) (hprofile : n.profile = m.profile) :
    g.connectionKinds n = h.connectionKinds m := by
  rw [Graph.connectionKinds, Graph.connectionKinds, hedges]
  exact List.filter_congr fun k _ => (Node.perm_connections hprofile).any_eq

theorem connectionSimilarity_congr (hedges : g.edges = h.edges) (hn : n.profile = m.profile)
    (hn' : n'.profile = m'.profile) : g.connectionSimilarity n n' = h.connectionSimilarity m m' := by
  rw [Graph.connectionSimilarity, Graph.connectionSimilarity, connectionKinds_congr hedges hn,
    connectionKinds_congr hedges hn']

theorem similarity_congr (hedges : g.edges = h.edges) (hn : n.profile = m.profile)
    (hn' : n'.profile = m'.profile) : g.similarity n n' = h.similarity m m' := by
  have hkind : n.kind = m.kind := Node.eq_of_profile (fun _ => rfl) hn
  have hkind' : n'.kind = m'.kind := Node.eq_of_profile (fun _ => rfl) hn'
  have hname : n.name = m.name := Node.eq_of_profile (fun _ => rfl) hn
  have hname' : n'.name = m'.name := Node.eq_of_profile (fun _ => rfl) hn'
  have hkeys : n.properties = m.properties := Node.eq_of_profile (fun _ => rfl) hn
  have hkeys' : n'.properties = m'.properties := Node.eq_of_profile (fun _ => rfl) hn'
  rw [Graph.similarity, Graph.similarity, hkind, hkind', hname, hname', hkeys, hkeys',
    connectionSimilarity_congr hedges hn hn']

def bareScore (scored : Node × Float) : Node × Float := (scored.1.bare, scored.2)

def enlist (threshold : Checked Float) (n : Node) (score : Checked Float)
    (rest : Checked (List (Node × Float))) : Checked (List (Node × Float)) := do
  let score ← score
  if (← threshold) < score then return (n, score) :: (← rest) else rest

theorem candidates_cons {threshold : Checked Float} {target : Node} {ns : List Node} :
    Query.candidates g threshold target (n :: ns) =
      if n.id.same target.id || n.kind ≠ target.kind then Query.candidates g threshold target ns
      else enlist threshold n (g.similarity target n) (Query.candidates g threshold target ns) := by
  rw [Query.candidates]
  rfl

theorem bareScore_enlist {threshold : Checked Float} {score : Checked Float}
    {rest : Checked (List (Node × Float))} :
    (enlist threshold n score rest).map (List.map bareScore) =
      enlist threshold n.bare score (rest.map (List.map bareScore)) := by
  unfold enlist
  cases score with
  | error => rfl
  | ok score =>
    cases threshold with
    | error => rfl
    | ok least =>
      simp only [bind, Except.bind]
      split
      · cases rest <;> rfl
      · rfl

/-- The candidates are the same nodes with the same scores in the same order. -/
theorem candidates_congr {threshold : Checked Float} {ns ms : List Node} (hedges : g.edges = h.edges)
    (hn : n.profile = m.profile) (halike : AlikeInTurn ns ms) :
    (Query.candidates g threshold n ns).map (List.map bareScore) =
      (Query.candidates h threshold m ms).map (List.map bareScore) := by
  induction halike with
  | nil => rfl
  | @cons a b as bs hab _ ih =>
    have hid : a.id = b.id := Node.eq_of_profile (fun _ => rfl) hab
    have hkind : a.kind = b.kind := Node.eq_of_profile (fun _ => rfl) hab
    have htarget : n.id = m.id := Node.eq_of_profile (fun _ => rfl) hn
    have htargetKind : n.kind = m.kind := Node.eq_of_profile (fun _ => rfl) hn
    rw [candidates_cons, candidates_cons, hid, hkind, htarget, htargetKind]
    split
    · exact ih
    · rw [bareScore_enlist, bareScore_enlist, ih, similarity_congr hedges hn hab,
        (Node.profile_eq.1 hab).1]

theorem rank_map {scored : List (Node × Float)} :
    (Query.rank scored).map bareScore = Query.rank (scored.map bareScore) := by
  have hle : ∀ a ∈ scored, ∀ b ∈ scored,
      decide (b.2 ≤ a.2) = decide ((bareScore b).2 ≤ (bareScore a).2) := fun _ _ _ _ => rfl
  exact List.map_mergeSort hle

/-- A scored node as a hit. -/
def scoredHit (scored : Node × Float) : Hit := { node := scored.1, score := some scored.2 }

/-- The best of the candidates, as an answer. -/
def best (limit : Value) (scored : List (Node × Float)) : Checked (List Hit) :=
  if scored.isEmpty then .ok [] else (limit.limited (Query.rank scored)).map (List.map scoredHit)

theorem similarTo_eq {threshold : Checked Float} {limit : Value} {target : Node} :
    Query.similarTo g threshold limit target =
      Query.candidates g threshold target g.nodes.values >>= best limit := by
  rw [Query.similarTo]
  refine congrArg _ (funext fun scored => ?_)
  rw [best]
  split
  · rfl
  · cases limit.limited (Query.rank scored) <;> rfl

theorem bareHits_best {limit : Value} {scored : List (Node × Float)} :
    bareHits (best limit scored) = best limit (scored.map bareScore) := by
  rw [best, best, List.isEmpty_map]
  split
  · rfl
  · rw [← rank_map, ← Value.limited_map]
    cases limit.limited (Query.rank scored) with
    | error => rfl
    | ok ranked => simp [bareHits, Except.map, scoredHit, bareScore, Hit.bare, Function.comp_def]

theorem similarTo_congr (hlike : g.ReadsLike h) {threshold : Checked Float} {limit : Value}
    (hn : n.profile = m.profile) :
    bareHits (Query.similarTo g threshold limit n) = bareHits (Query.similarTo h threshold limit m) := by
  have hshown : ∀ scored : Checked (List (Node × Float)),
      bareHits (scored >>= best limit) = scored.map (List.map bareScore) >>= best limit := by
    intro scored
    cases scored with
    | error => rfl
    | ok scored => exact bareHits_best
  rw [similarTo_eq, similarTo_eq, hshown, hshown,
    candidates_congr hlike.edges hn hlike.alikeInTurn]

end Similarity

section Search

variable {g h : Graph}

/-- A choice among items carries over to views of them that the test does not tell from the items. -/
theorem takeWhere_map {α : Type} {f : α → α} {limit : Checked Int} {test : α → Checked Bool}
    (htest : ∀ x, test (f x) = test x) {count : Nat} {xs : List α} :
    (Query.takeWhere limit test count xs).map (List.map f) =
      Query.takeWhere limit test count (xs.map f) := by
  induction xs generalizing count with
  | nil => rfl
  | cons x rest ih =>
    rw [List.map_cons, Query.takeWhere, Query.takeWhere, htest, ← ih, ← ih]
    cases test x with
    | error => rfl
    | ok passes =>
      cases passes with
      | false => rfl
      | true =>
        cases limit with
        | error => rfl
        | ok limit =>
          simp only [bind, Except.bind, if_true]
          split
          · rfl
          · cases Query.takeWhere (.ok limit) test (count + 1) rest <;> rfl

def foundHit (n : Node) : Hit := { node := n, score := some 1.0 }

/-- A choice among the nodes is the same, as far as an answer shows it, if the test does not see
connections. -/
theorem takeWhere_congr (hlike : g.ReadsLike h) {limit : Checked Int} {test : Node → Checked Bool}
    (htest : ∀ n, test n.bare = test n) :
    bareHits ((Query.takeWhere limit test 0 g.nodes.values).map (List.map foundHit)) =
      bareHits ((Query.takeWhere limit test 0 h.nodes.values).map (List.map foundHit)) := by
  have hshown : ∀ found : Checked (List Node), bareHits (found.map (List.map foundHit)) =
      (found.map (List.map Node.bare)).map (List.map foundHit) := by
    intro found
    cases found with
    | error => rfl
    | ok found => simp [bareHits, Except.map, foundHit, Hit.bare, Function.comp_def]
  have hnodes : g.nodes.values.map Node.bare = h.nodes.values.map Node.bare :=
    hlike.alikeInTurn.map_eq fun n m hprofile => (Node.profile_eq.1 hprofile).1
  rw [hshown, hshown, takeWhere_map htest, takeWhere_map htest, hnodes]

theorem mentioning_congr (hlike : g.ReadsLike h) {limit : Checked Int} {keyword : String} :
    bareHits (Query.mentioning g limit keyword) = bareHits (Query.mentioning h limit keyword) :=
  takeWhere_congr hlike fun _ => rfl

theorem patterns_congr (hlike : g.ReadsLike h) {limit name : Value} :
    bareHits (Query.patterns g limit name) = bareHits (Query.patterns h limit name) := by
  have hconcept : ∀ s, g.conceptId? s = h.conceptId? s := fun s => by
    rw [Graph.conceptId?, Graph.conceptId?, hlike.concepts]
  unfold Query.patterns
  split
  · rw [hconcept]
    split
    · split
      · exact mentioning_congr hlike
      · exact usage_congr hlike.looksLike
    · exact mentioning_congr hlike
  · rfl

theorem search_congr (hlike : g.ReadsLike h) {limit filters : Value} :
    bareHits (Query.search g limit filters) = bareHits (Query.search h limit filters) := by
  rw [Query.search, Query.search, bareHits_bind, bareHits_bind]
  refine congrArg _ (funext fun kind => ?_)
  rw [bareHits_bind, bareHits_bind]
  refine congrArg _ (funext fun given => ?_)
  rw [bareHits_bind, bareHits_bind]
  refine congrArg _ (funext fun name => ?_)
  exact takeWhere_congr hlike fun _ => rfl

end Search

namespace QueryEngine

variable {q : QueryEngine} {h : Graph}

theorem node?_congr (hlike : q.graph.LooksLike h) (id : Value) :
    (q.node? id).map (Option.map Node.profile) =
      ({ q with graph := h }.node? id).map (Option.map Node.profile) := by
  unfold node?
  split
  · rfl
  · cases id.key with
    | error => rfl
    | ok key => exact congrArg Except.ok (hlike.nodes key)

theorem bind_congr_of_profile {α : Type} {x y : Checked (Option Node)} {f f' : Option Node → Checked α}
    (hxy : x.map (Option.map Node.profile) = y.map (Option.map Node.profile)) (hnone : f none = f' none)
    (hsome : ∀ n m, n.profile = m.profile → f (some n) = f' (some m)) : x >>= f = y >>= f' := by
  match x, y, hxy with
  | .error _, .error _, hxy =>
    cases hxy
    rfl
  | .ok none, .ok none, _ => exact hnone
  | .ok (some n), .ok (some m), hxy => exact hsome n m (Option.some.inj (Except.ok.inj hxy))

theorem findSimilar_congr (hlike : q.graph.ReadsLike h) {id limit : Value} :
    bareHits (q.findSimilar id limit) = bareHits ({ q with graph := h }.findSimilar id limit) := by
  rw [findSimilar, findSimilar, bareHits_bind, bareHits_bind]
  exact bind_congr_of_profile (node?_congr hlike.looksLike id) rfl fun n m hprofile =>
    similarTo_congr hlike hprofile

def shown (hits : Checked (List Hit)) : Checked (List Value) := hits.map (List.map (·.toValue))

theorem shown_bareHits (hits : Checked (List Hit)) : shown (bareHits hits) = shown hits := by
  cases hits with
  | error => rfl
  | ok hits => simp [shown, bareHits, Except.map, Function.comp_def, Hit.toValue_bare]

/-- Every question has the same answer in graphs that read alike. -/
theorem answer_congr (hlike : q.graph.ReadsLike h) {settings : Settings} {r : QueryRequest} :
    q.answer settings r = { q with graph := h }.answer settings r := by
  have hshown : ∀ {x y : Checked (List Hit)}, bareHits x = bareHits y →
      (do return (← x).map (·.toValue) : Checked (List Value)) = do return (← y).map (·.toValue) := by
    intro x y hxy
    have hvalue := congrArg shown hxy
    rwa [shown_bareHits, shown_bareHits] at hvalue
  have hlooks := hlike.looksLike
  unfold answer
  dsimp only
  generalize QueryKind.read r.kind = kind
  cases kind with
  | findSimilar => exact bind_congr fun id => hshown (findSimilar_congr hlike)
  | findDependencies =>
    refine bind_congr fun depth => ?_
    split
    · exact bind_congr fun depth => bind_congr fun id => hshown (findDependencies_congr hlooks)
    · exact bind_congr fun depth => bind_congr fun id => hshown (findDependencies_congr hlooks)
  | findUsage => exact bind_congr fun id => hshown (findUsage_congr hlooks)
  | findPatterns => exact bind_congr fun name => hshown (patterns_congr hlike)
  | pathBetween =>
    exact bind_congr fun source => bind_congr fun target => pathBetween_congr hlooks
  | search => exact hshown (search_congr hlike)

end QueryEngine

end CodeAtlas
