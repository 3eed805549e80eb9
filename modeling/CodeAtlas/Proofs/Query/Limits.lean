import CodeAtlas.Proofs.Discovery.Detect
import CodeAtlas.Proofs.Query.Dependencies
import CodeAtlas.Proofs.Query.SameAnswers
import Mathlib.Data.List.Perm.Subperm

/-! What a limit does to an answer. The uses of a node and the nodes like it are found first and cut afterwards;
the scan of the nodes stops at the first match beyond the limit. Either way a limit leaves the front of the
answer, and one that is no smaller than the graph leaves all of it. -/

namespace CodeAtlas

theorem takeUpTo_of_nonneg {α : Type} {limit : Int} (h : 0 ≤ limit) (xs : List α) :
    takeUpTo limit xs = xs.take limit.toNat := by
  rw [takeUpTo, if_pos h]

/-- Whether a question that is asked with a limit is answered with the front of a whole answer. -/
def IsFront (ask : Value → Checked (List Hit)) (whole : Checked (List Hit)) : Prop :=
  ∀ limit : Int, 0 ≤ limit → ask (.int limit) = whole.map (List.take limit.toNat)

namespace IsFront

variable {ask : Value → Checked (List Hit)} {whole : Checked (List Hit)} {l m : Int}

theorem take (h : IsFront ask whole) (hl : 0 ≤ l) (hlm : l ≤ m) :
    ask (.int l) = (ask (.int m)).map (List.take l.toNat) := by
  rw [h l hl, h m (Int.le_trans hl hlm)]
  cases whole with
  | error e => rfl
  | ok hits =>
    have hmin : min l.toNat m.toNat = l.toNat := by omega
    simp [Except.map, List.take_take, hmin]

theorem eq_whole (h : IsFront ask whole) (hl : 0 ≤ l)
    (hlength : ∀ hits, whole = .ok hits → (hits.length : Int) ≤ l) : ask (.int l) = whole := by
  rw [h l hl]
  cases whole with
  | error e => rfl
  | ok hits =>
    have hfits := hlength hits rfl
    simp only [Except.map]
    rw [List.take_of_length_le (by omega)]

end IsFront

namespace Query

section Scan

variable {α : Type} {l m : Int} {test : α → Checked Bool} {count : Nat} {x : α} {xs ys : List α}

/-- An item that passes is taken if the limit is not reached yet, and ends the scan otherwise. -/
theorem takeWhere_cons {limit : Int} :
    takeWhere (.ok limit) test count (x :: xs) = test x >>= fun passes =>
      if passes then
        if limit ≤ count then .ok [] else (takeWhere (.ok limit) test (count + 1) xs).map (x :: ·)
      else takeWhere (.ok limit) test count xs := by
  rw [takeWhere]
  refine congrArg _ (funext fun passes => ?_)
  split
  · change (if limit ≤ count then _ else _) = _
    split
    · rfl
    · cases takeWhere (.ok limit) test (count + 1) xs <;> rfl
  · rfl

/-- With a smaller limit the scan takes the front of what it takes with a larger one. -/
theorem takeWhere_take (hlm : l ≤ m) (h : takeWhere (.ok m) test count xs = .ok ys) :
    takeWhere (.ok l) test count xs = .ok (ys.take (l - count).toNat) := by
  induction xs generalizing count ys with
  | nil =>
    cases h
    rw [takeWhere, List.take_nil]
  | cons x rest ih =>
    rw [takeWhere_cons] at h ⊢
    obtain ⟨passes, hpasses, h⟩ := Except.bind_eq_ok.1 h
    rw [hpasses]
    cases passes with
    | false => exact ih h
    | true =>
      change (if l ≤ count then _ else _) = _
      by_cases hlow : l ≤ count
      · have hnone : (l - count).toNat = 0 := by omega
        rw [if_pos hlow, hnone, List.take_zero]
      · have hhigh : ¬ m ≤ count := by omega
        have hone : (l - count).toNat = (l - (count + 1 : Nat)).toNat + 1 := by omega
        simp only [if_true, if_neg hhigh] at h
        cases hrest : takeWhere (.ok m) test (count + 1) rest with
        | error e =>
          rw [hrest] at h
          cases h
        | ok zs =>
          rw [hrest] at h
          cases h
          rw [if_neg hlow, ih hrest, hone, List.take_succ_cons]
          rfl

/-- What stops the scan with a smaller limit stops it with a larger one. -/
theorem takeWhere_error {e : Fault} (hlm : l ≤ m) (h : takeWhere (.ok l) test count xs = .error e) :
    takeWhere (.ok m) test count xs = .error e := by
  induction xs generalizing count with
  | nil => cases h
  | cons x rest ih =>
    rw [takeWhere_cons] at h ⊢
    rcases Except.bind_eq_error.1 h with herror | ⟨passes, hpasses, h⟩
    · rw [herror]
      rfl
    · rw [hpasses]
      cases passes with
      | false => exact ih h
      | true =>
        change (if m ≤ count then _ else _) = _
        by_cases hlow : l ≤ count
        · simp only [if_true, if_pos hlow] at h
          cases h
        · simp only [if_true, if_neg hlow] at h
          cases hrest : takeWhere (.ok l) test (count + 1) rest with
          | error e' =>
            rw [hrest] at h
            cases h
            rw [if_neg (by omega), ih hrest]
            rfl
          | ok zs =>
            rw [hrest] at h
            cases h

/-- With room for all items the scan takes whatever passes. -/
theorem takeWhere_eq_filterM (hroom : (count + xs.length : Nat) ≤ l) :
    takeWhere (.ok l) test count xs = xs.filterM test := by
  induction xs generalizing count with
  | nil => rfl
  | cons x rest ih =>
    rw [List.length_cons] at hroom
    rw [takeWhere_cons, filterM_cons]
    refine congrArg _ (funext fun passes => ?_)
    cases passes with
    | false =>
      rw [if_neg Bool.false_ne_true, ih (by omega)]
      cases rest.filterM test <;> rfl
    | true =>
      rw [if_pos rfl, if_neg (by omega), ih (by omega)]
      cases rest.filterM test <;> rfl

/-- A test that never fails: the scan takes the front of what passes. -/
theorem takeWhere_ok {p : α → Bool} :
    takeWhere (.ok l) (fun x => .ok (p x)) count xs = .ok ((xs.filter p).take (l - count).toNat) := by
  have hwhole : xs.filterM (fun x => (.ok (p x) : Checked Bool)) = .ok (xs.filter p) := by
    induction xs with
    | nil => rfl
    | cons x rest ih =>
      rw [filterM_cons, ih, List.filter_cons]
      rfl
  have hroom : (count + xs.length : Nat) ≤ max l (count + xs.length : Nat) := Int.le_max_right _ _
  exact takeWhere_take (Int.le_max_left _ _) ((takeWhere_eq_filterM hroom).trans hwhole)

end Scan

section Answers

variable {g : Graph} {limit : Int}

theorem best_isFront (scored : List (Node × Float)) :
    IsFront (fun limit => best limit scored) (best .null scored) := by
  intro limit hlimit
  unfold best
  split
  · simp [Except.map]
  · change Except.map (List.map scoredHit) (.ok (takeUpTo limit (rank scored))) = _
    rw [takeUpTo_of_nonneg hlimit]
    simp [Value.limited, Except.map, List.map_take]

theorem similarTo_isFront (g : Graph) (threshold : Checked Float) (target : Node) :
    IsFront (fun limit => similarTo g threshold limit target) (similarTo g threshold .null target) := by
  intro limit hlimit
  simp only [similarTo_eq]
  cases candidates g threshold target g.nodes.values with
  | error e => rfl
  | ok scored => exact best_isFront scored limit hlimit

theorem exists_best {limit : Int} (hlimit : 0 ≤ limit) (scored : List (Node × Float)) :
    ∃ hits, best (.int limit) scored = .ok hits ∧ hits.length = min limit.toNat scored.length := by
  have hfront : best (.int limit) scored = _ := best_isFront scored limit hlimit
  rw [hfront]
  unfold best
  split
  · simp_all [Except.map]
  · simp [Value.limited, Except.map, rank, List.length_mergeSort]

/-- There are no more candidates than nodes. -/
theorem length_candidates_le {threshold : Checked Float} {target : Node} {ns : List Node}
    {scored : List (Node × Float)} (h : candidates g threshold target ns = .ok scored) :
    scored.length ≤ ns.length := by
  induction ns generalizing scored with
  | nil =>
    cases h
    exact Nat.le_refl _
  | cons n rest ih =>
    rw [candidates_cons] at h
    rw [List.length_cons]
    split at h
    · have hrest := ih h
      omega
    · obtain ⟨score, -, h⟩ := Except.bind_eq_ok.1 h
      obtain ⟨least, -, h⟩ := Except.bind_eq_ok.1 h
      split at h
      · obtain ⟨scored, hscored, h⟩ := Except.bind_eq_ok.1 h
        cases h
        have hrest := ih hscored
        rw [List.length_cons]
        omega
      · have hrest := ih h
        omega

theorem length_similarTo_le {threshold : Checked Float} {target : Node} {hits : List Hit}
    (h : similarTo g threshold .null target = .ok hits) : hits.length ≤ g.nodes.size := by
  rw [similarTo_eq] at h
  obtain ⟨scored, hscored, h⟩ := Except.bind_eq_ok.1 h
  have hlength : scored.length ≤ g.nodes.size := by
    simpa [Table.values, Table.size] using length_candidates_le hscored
  unfold best at h
  split at h
  · cases h
    exact Nat.zero_le _
  · cases h
    simpa [rank, List.length_mergeSort] using hlength

theorem usage_isFront (g : Graph) (id : Scalar) :
    IsFront (fun limit => usage g limit id) (usage g .null id) := by
  intro limit hlimit
  unfold usage
  split
  · simp [Except.map, pure, Except.pure]
  · cases g.ordered [id] (usages g id) with
    | error e => rfl
    | ok uses => exact congrArg Except.ok (takeUpTo_of_nonneg hlimit uses)

/-- A node lists an id at most once, so it has no more neighbours than there are edges. -/
theorem length_neighbors_le (g : Graph) (id : Scalar) : (g.neighbors id).length ≤ g.edges.size := by
  unfold Graph.neighbors
  cases g.nodes.get? id with
  | none => exact Nat.zero_le _
  | some n =>
    have hlength : ∀ keys : List Scalar, (keys.filterMap fun eid =>
        (g.edges.get? eid).map fun e => (e, e.otherEnd id)).length =
          ((keys.filter g.edges.contains).map Scalar.canon).length := by
      intro keys
      induction keys with
      | nil => rfl
      | cons eid rest ih =>
        cases he : g.edges.get? eid <;> simp_all [Table.contains]
    have hnodup : ((sortKeys n.connections.keys).map Scalar.canon).Nodup :=
      ((List.mergeSort_perm _ _).map _).nodup_iff.2 Table.nodup_keys
    have hsub : ((sortKeys n.connections.keys).filter g.edges.contains).map Scalar.canon ⊆
        g.edges.keys.map Scalar.canon := by
      intro k hk
      obtain ⟨eid, heid, rfl⟩ := List.mem_map.1 hk
      obtain ⟨key, hkey, hcanon⟩ := Table.contains_iff_mem.1 (List.mem_filter.1 heid).2
      exact List.mem_map.2 ⟨key, hkey, hcanon⟩
    have hdistinct : (((sortKeys n.connections.keys).filter g.edges.contains).map Scalar.canon).Nodup :=
      hnodup.sublist (List.filter_sublist.map _)
    have hle := (hdistinct.subperm hsub).length_le
    simp only
    rw [hlength, Table.size_eq_length_keys]
    simpa using hle

theorem length_usage_le {id : Scalar} {hits : List Hit} (h : usage g .null id = .ok hits) :
    hits.length ≤ g.edges.size := by
  unfold usage at h
  split at h
  · cases h
    exact Nat.zero_le _
  · obtain ⟨uses, hordered, h⟩ := Except.bind_eq_ok.1 h
    have huses : uses = usages g id := by
      unfold Graph.ordered at hordered
      split at hordered
      · cases hordered
        rfl
      · cases hordered
    cases h
    rw [huses]
    exact Nat.le_trans (List.length_filterMap_le _ _) (length_neighbors_le g id)

/-- The nodes that pass a test, up to a limit, as an answer. -/
def scan (g : Graph) (limit : Checked Int) (test : Node → Checked Bool) : Checked (List Hit) :=
  takeWhere limit test 0 g.nodes.values >>= fun found => .ok (found.map foundHit)

theorem scan_take {test : Node → Checked Bool} {l m : Int} {hits : List Hit} (hlm : l ≤ m)
    (h : scan g (.ok m) test = .ok hits) : scan g (.ok l) test = .ok (hits.take l.toNat) := by
  obtain ⟨found, hfound, h⟩ := Except.bind_eq_ok.1 h
  cases h
  rw [scan, takeWhere_take hlm hfound]
  exact congrArg Except.ok (by simp [List.map_take])

theorem scan_error {test : Node → Checked Bool} {l m : Int} {e : Fault} (hlm : l ≤ m)
    (h : scan g (.ok l) test = .error e) : scan g (.ok m) test = .error e := by
  rcases Except.bind_eq_error.1 h with h | ⟨found, -, h⟩
  · rw [scan, takeWhere_error hlm h]
    rfl
  · cases h

def allMentioning (g : Graph) (keyword : String) : List Hit :=
  (g.nodes.values.filter fun n => Text.within (Text.lowerText keyword) (searchText n)).map foundHit

/-- All implementations of the concept of this name; if there is none, all nodes that mention the name. -/
def allPatterns (g : Graph) (name : Value) : Checked (List Hit) :=
  match name with
  | .text s =>
    match g.conceptId? s with
    | some id => if (Value.scalar id).isFalsy then .ok (allMentioning g s) else usage g .null id
    | none => .ok (allMentioning g s)
  | _ => .error .notOffered

theorem mentioning_isFront (g : Graph) (keyword : String) :
    IsFront (fun limit => mentioning g limit.ceiling keyword) (.ok (allMentioning g keyword)) := by
  intro limit hlimit
  change scan g (.ok limit) (fun n => .ok (Text.within (Text.lowerText keyword) (searchText n))) = _
  rw [scan, takeWhere_ok]
  simp [allMentioning, Except.map, List.map_take, bind, Except.bind]

theorem patterns_isFront (g : Graph) (name : Value) :
    IsFront (fun limit => patterns g limit name) (allPatterns g name) := by
  intro limit hlimit
  cases name with
  | scalar a =>
    cases a with
    | text s =>
      simp only [patterns, allPatterns]
      cases g.conceptId? s with
      | none => exact mentioning_isFront g s limit hlimit
      | some id =>
        by_cases hfalsy : (Value.scalar id).isFalsy = true
        · simp only [if_pos hfalsy]
          exact mentioning_isFront g s limit hlimit
        · simp only [if_neg hfalsy]
          exact usage_isFront g id limit hlimit
    | _ => rfl
  | _ => rfl

theorem length_allPatterns_le {name : Value} {hits : List Hit} (h : allPatterns g name = .ok hits) :
    hits.length ≤ g.nodes.size + g.edges.size := by
  have hmention : ∀ keyword, (allMentioning g keyword).length ≤ g.nodes.size := by
    intro keyword
    rw [allMentioning, List.length_map]
    simpa [Table.values, Table.size] using List.length_filter_le _ g.nodes.values
  unfold allPatterns at h
  split at h
  · rename_i s
    have hle := hmention s
    split at h
    · split at h
      · cases h
        omega
      · have huses := length_usage_le h
        omega
    · cases h
      omega
  · cases h

def readFilter (filters : Value) : Checked (Node → Checked Bool) := do
  let filters := filters.orElse (.object [])
  let kind ← filters.field "type"
  let name ← ((← filters.field "name").orElse (.text "")).lowered
  return matchesFilter kind name

/-- All nodes that match a filter. -/
def allMatches (g : Graph) (filters : Value) : Checked (List Hit) := do
  let test ← readFilter filters
  return (← g.nodes.values.filterM test).map foundHit

theorem search_eq (g : Graph) (limit filters : Value) :
    search g limit filters = readFilter filters >>= scan g limit.ceiling := by
  simp only [search, readFilter, bind_assoc]
  rfl

/-- Whatever stops a search does so wherever more may be found, and what it finds with more room begins with
what it finds with less. -/
theorem search_take {filters : Value} {l m : Int} (hlm : l ≤ m) :
    (∀ hits, search g (.int m) filters = .ok hits →
      search g (.int l) filters = .ok (hits.take l.toNat)) ∧
    ∀ e, search g (.int l) filters = .error e → search g (.int m) filters = .error e := by
  simp only [search_eq]
  cases readFilter filters with
  | error e => exact ⟨fun _ h => (nomatch h), fun _ h => h⟩
  | ok test => exact ⟨fun _ => scan_take hlm, fun _ => scan_error hlm⟩

theorem search_eq_allMatches {filters : Value} {l : Int} (hroom : (g.nodes.size : Int) ≤ l) :
    search g (.int l) filters = allMatches g filters := by
  rw [search_eq, allMatches]
  refine congrArg _ (funext fun test => ?_)
  have hlength : (0 + g.nodes.values.length : Nat) ≤ l := by
    simpa [Table.values, Table.size] using hroom
  change scan g (.ok l) test = _
  rw [scan, takeWhere_eq_filterM hlength]
  rfl

end Answers

end Query

namespace QueryEngine

variable (q : QueryEngine) (id : Value)

theorem findSimilar_isFront : IsFront (q.findSimilar id) (q.findSimilar id .null) := by
  intro limit hlimit
  unfold findSimilar
  cases q.node? id with
  | error e => rfl
  | ok found =>
    cases found with
    | none => simp [bind, Except.bind, pure, Except.pure, Except.map]
    | some n => exact Query.similarTo_isFront q.graph _ n limit hlimit

theorem findUsage_isFront : IsFront (q.findUsage id) (q.findUsage id .null) := by
  intro limit hlimit
  unfold findUsage
  cases q.nodeKey? id with
  | error e => rfl
  | ok found =>
    cases found with
    | none => simp [bind, Except.bind, pure, Except.pure, Except.map]
    | some key => exact Query.usage_isFront q.graph key limit hlimit

variable {q id}

theorem length_findSimilar_le {hits : List Hit} (h : q.findSimilar id .null = .ok hits) :
    hits.length ≤ q.graph.nodes.size := by
  unfold findSimilar at h
  obtain ⟨found, -, h⟩ := Except.bind_eq_ok.1 h
  cases found with
  | none =>
    cases h
    exact Nat.zero_le _
  | some n => exact Query.length_similarTo_le h

theorem length_findUsage_le {hits : List Hit} (h : q.findUsage id .null = .ok hits) :
    hits.length ≤ q.graph.edges.size := by
  unfold findUsage at h
  obtain ⟨found, -, h⟩ := Except.bind_eq_ok.1 h
  cases found with
  | none =>
    cases h
    exact Nat.zero_le _
  | some key => exact Query.length_usage_le h

/-- An id names the node that stands under it, unless it is one that counts as absent. -/
theorem node?_eq_some {k : Scalar} {t : Node} (hk : (Value.scalar k).isFalsy = false)
    (ht : q.graph.nodes.get? k = some t) : q.node? (.scalar k) = .ok (some t) := by
  rw [node?, hk, ← ht]
  rfl

theorem findSimilar_eq_candidates {t : Node} {least : Float} (ht : q.node? id = .ok (some t))
    (hleast : q.threshold.threshold = .ok least) (limit : Value) :
    q.findSimilar id limit = Query.candidates q.graph (.ok least) t q.graph.nodes.values >>= best limit := by
  rw [findSimilar, ht]
  change Query.similarTo q.graph q.threshold.threshold limit t = _
  rw [similarTo_eq, hleast]

end QueryEngine

/-- Asked with the smaller of two limits, the engine answers with the front of what it answers with the larger,
whatever the graph and the other arguments are, and with the same failure if it fails. A search may stop at its
limit before it comes to a node whose name it cannot read; what it then answers is the front of what a search
with more room answers, if that one answers. A limit that counts all nodes and edges cuts nothing off. -/
theorem limits_are_prefixes (q : QueryEngine) {l m : Int} (hl : 0 ≤ l) (hlm : l ≤ m) :
    (∀ id, q.findSimilar id (.int l) = (q.findSimilar id (.int m)).map (List.take l.toNat)) ∧
    (∀ id, q.findUsage id (.int l) = (q.findUsage id (.int m)).map (List.take l.toNat)) ∧
    (∀ name, q.findPatterns name (.int l) = (q.findPatterns name (.int m)).map (List.take l.toNat)) ∧
    (∀ filters,
      (∀ hits, q.search filters (.int m) = .ok hits →
        q.search filters (.int l) = .ok (hits.take l.toNat)) ∧
      ∀ e, q.search filters (.int l) = .error e → q.search filters (.int m) = .error e) ∧
    (q.graph.nodes.size + q.graph.edges.size ≤ l →
      (∀ id, q.findSimilar id (.int l) = q.findSimilar id .null) ∧
      (∀ id, q.findUsage id (.int l) = q.findUsage id .null) ∧
      (∀ name, q.findPatterns name (.int l) = Query.allPatterns q.graph name) ∧
      ∀ filters, q.search filters (.int l) = Query.allMatches q.graph filters) := by
  refine ⟨fun id => (q.findSimilar_isFront id).take hl hlm, fun id => (q.findUsage_isFront id).take hl hlm,
    fun name => (Query.patterns_isFront q.graph name).take hl hlm, fun filters => Query.search_take hlm,
    fun hroom => ⟨fun id => ?_, fun id => ?_, fun name => ?_, fun filters => ?_⟩⟩
  · refine (q.findSimilar_isFront id).eq_whole hl fun hits h => ?_
    have hlength := QueryEngine.length_findSimilar_le h
    omega
  · refine (q.findUsage_isFront id).eq_whole hl fun hits h => ?_
    have hlength := QueryEngine.length_findUsage_le h
    omega
  · refine (Query.patterns_isFront q.graph name).eq_whole hl fun hits h => ?_
    have hlength := Query.length_allPatterns_le h
    omega
  · exact Query.search_eq_allMatches (by omega)

/-- All other packages are like `A`, and two uses lead to `B`. -/
theorem answers_packageEngine :
    (∃ hits, packageEngine.findSimilar (.text "A") (.int 2) = .ok hits ∧ hits.length = 2) ∧
    ∃ hits, packageEngine.findUsage (.text "B") .null = .ok hits ∧ hits.length = 2 := by
  constructor
  · obtain ⟨a, ha⟩ : ∃ a, packageEngine.graph.nodes.get? (.text "A") = some a := ⟨_, rfl⟩
    have hcount : ((packageEngine.graph.nodes.get? (.text "A")).bind fun a =>
        (Query.candidates packageEngine.graph (.ok 0.5) a packageEngine.graph.nodes.values).toOption).map
          List.length = some 3 := by
      decide +kernel
    rw [ha, Option.bind_some, Option.map_eq_some_iff] at hcount
    obtain ⟨scored, hscored, hthree⟩ := hcount
    rw [QueryEngine.findSimilar_eq_candidates (QueryEngine.node?_eq_some rfl ha) (Eq.refl (Except.ok 0.5)),
      Except.toOption_eq_some.1 hscored]
    obtain ⟨hits, hhits, hlength⟩ := Query.exists_best (by decide : (0 : Int) ≤ 2) scored
    exact ⟨hits, hhits, hlength.trans (by rw [hthree]; rfl)⟩
  · have hB : packageEngine.graph.neighbors (.text "B") = [
        (sampleDependency "4554422983373ee4" "C" "B", .text "C"),
        (sampleDependency "74e80b328b287bad" "B" "D", .text "D"),
        (sampleDependency "cd20253d08f7afcd" "A" "B", .text "A")] :=
      (Graph.neighbors_of_pairwise rfl (by decide)).trans rfl
    have huses : packageEngine.findUsage (.text "B") .null =
        (packageEngine.graph.ordered [.text "B"] (Query.usages packageEngine.graph (.text "B"))) := rfl
    rw [huses, Query.usages, hB]
    exact ⟨_, rfl, rfl⟩

theorem limits_are_prefixes_packageEngine :
    (∃ hits, packageEngine.search .null (.int 2) = .ok hits ∧ hits.length = 2 ∧
      packageEngine.search .null (.int 1) = .ok (hits.take 1)) ∧
    (∃ hits, packageEngine.findSimilar (.text "A") (.int 2) = .ok hits ∧ hits.length = 2 ∧
      packageEngine.findSimilar (.text "A") (.int 1) = .ok (hits.take 1)) ∧
    (∃ hits, packageEngine.findPatterns (.text "b") (.int 2) = .ok hits ∧ hits.length = 1 ∧
      packageEngine.findPatterns (.text "b") (.int 1) = .ok (hits.take 1)) ∧
    ∃ hits, packageEngine.findUsage (.text "B") (.int 9) = .ok hits ∧ hits.length = 2 ∧
      packageEngine.findUsage (.text "B") .null = .ok hits := by
  obtain ⟨⟨alike, halike, hlength⟩, uses, huses, htwo⟩ := answers_packageEngine
  have hnamed : (packageEngine.findPatterns (.text "b") (.int 2)).toOption.map List.length = some 1 := by
    decide +kernel
  obtain ⟨named, hnamed, hone⟩ := Option.map_eq_some_iff.1 hnamed
  obtain ⟨hsimilar, -, hpatterns, hsearch, -⟩ :=
    limits_are_prefixes packageEngine (l := 1) (m := 2) (by decide) (by decide)
  obtain ⟨-, -, -, -, hwhole⟩ := limits_are_prefixes packageEngine (l := 9) (m := 9) (by decide) (by decide)
  obtain ⟨-, husage, -⟩ := hwhole (by decide)
  refine ⟨⟨_, rfl, rfl, (hsearch .null).1 _ rfl⟩, ⟨alike, halike, hlength, ?_⟩,
    ⟨named, Except.toOption_eq_some.1 hnamed, hone, ?_⟩, uses, (husage (.text "B")).trans huses, htwo, huses⟩
  · rw [hsimilar, halike]
    rfl
  · rw [hpatterns, Except.toOption_eq_some.1 hnamed]
    rfl

end CodeAtlas
