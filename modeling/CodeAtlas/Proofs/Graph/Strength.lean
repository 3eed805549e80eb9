import CodeAtlas.Proofs.Graph.ImportedConnections

/-! The strengths of edges. Whatever a relationship asks for is moved into the range from zero to one, also if
it is not a number; an import takes the strengths of its edge table as they are. So an edge out of range is
always one that an import gave. -/

namespace CodeAtlas

/-- A double below another one is at most the other one: neither of them is undefined then. -/
theorem float_le_of_lt {a b : Float} (h : a < b) : a ≤ b := by
  change Float.lt a b = true at h
  change Float.le a b = true
  unfold Float.lt at h
  unfold Float.le
  simp only [decide_eq_true_eq] at h ⊢
  change Float.Model.UnpackedFloat.lt _ _ = true at h
  change Float.Model.UnpackedFloat.le _ _ = true
  -- both relations read the same comparison, which answers nothing where a side is undefined
  unfold Float.Model.UnpackedFloat.lt at h
  unfold Float.Model.UnpackedFloat.le
  rw [beq_iff_eq.1 h]
  rfl

/-- Whether a strength lies between zero and one, and so is a number. -/
def IsStrength (x : Float) : Prop := 0.0 ≤ x ∧ x ≤ 1.0

instance (x : Float) : Decidable (IsStrength x) := inferInstanceAs (Decidable (0.0 ≤ x ∧ x ≤ 1.0))

theorem isStrength_one : IsStrength 1.0 := by decide

theorem isStrength_clampStrength (x : Float) : IsStrength (Graph.clampStrength x) := by
  unfold Graph.clampStrength
  by_cases hlow : 0.0 < x
  · simp only [if_pos hlow]
    by_cases hhigh : x < 1.0
    · rw [if_pos hhigh]
      exact ⟨float_le_of_lt hlow, float_le_of_lt hhigh⟩
    · rw [if_neg hhigh]
      exact isStrength_one
  · simp only [if_neg hlow]
    decide

namespace Graph

variable {g g' : Graph} {now : String} {source target : Scalar} {kind : RelationKind} {p : Properties}
  {e : Edge}

theorem isStrength_of_strengthOf {x : Float} (h : strengthOf p = .ok x) : IsStrength x := by
  unfold strengthOf at h
  split at h
  · cases h
    exact isStrength_one
  · obtain ⟨y, -, h⟩ := Except.bind_eq_ok.1 h
    cases h
    exact isStrength_clampStrength y

theorem isStrength_of_relate (h : (relate now source target kind p).run g = .ok e g') :
    IsStrength e.strength := by
  obtain ⟨-, -, ⟨x, hx, rfl⟩, -⟩ := relate_ok h
  exact isStrength_of_strengthOf hx

/-- What is true of all edges in range stays true of all stored edges. -/
theorem strengths_kept (now : String) {P : Edge → Prop} (hP : ∀ e, IsStrength e.strength → P e) :
    Kept now (fun _ _ => True) fun g _ => ∀ k e, g.edges.get? k = some e → P e where
  node g _ id d _ h := by
    rcases after_writeNode g now id d with hsame | ⟨c, hwritten, -⟩
    · rwa [hsame]
    · rw [hwritten]
      exact h
  edge g _ source target kind p e hrel h k e' he' := by
    rw [get?_edges_putEdge] at he'
    split at he'
    · cases he'
      exact hP _ (isStrength_of_relate hrel)
    · exact h k e' he'

end Graph

def strengthGiven (item : Value) : Checked Float := do
  let (_, record) ← item.pair
  ((← record.field? "strength").getD (.float 1.0)).toFloat

/-- Whether all strengths that an edge table gives are in range. -/
def strengthsInRange (data : Value) : Bool :=
  match exportTable "edges" data with
  | .error _ => true
  | .ok items =>
    items.all fun item =>
      match strengthGiven item with
      | .ok x => decide (IsStrength x)
      | .error _ => true

namespace Graph

variable {g : Graph} {now : String} {nodes : Table Node} {e : Edge} {data item : Value}
  {records : List Edge}

theorem strengthGiven_of_readEdge (h : readEdge now nodes item = .ok e) :
    strengthGiven item = .ok e.strength := by
  obtain ⟨⟨id, record⟩, hpair, hread⟩ := Except.bind_eq_ok.1 h
  obtain ⟨-, -, -, ⟨v, hv, hx⟩, -⟩ := Edge.read_ok hread
  exact Except.bind_eq_ok.2 ⟨_, hpair, Except.bind_eq_ok.2 ⟨v, hv, hx⟩⟩

theorem strengthsInRange_iff (h : importedNodes now data >>= importedEdges now data = .ok records) :
    strengthsInRange data = true ↔ ∀ e ∈ records, IsStrength e.strength := by
  obtain ⟨nodes, -, h⟩ := Except.bind_eq_ok.1 h
  obtain ⟨items, hitems, hread⟩ := Except.bind_eq_ok.1 h
  have hgiven : items.map strengthGiven = records.map fun e => .ok e.strength :=
    (map_of_mapM_ok hread fun _ _ hedge => (strengthGiven_of_readEdge hedge).symm).symm
  have hall : strengthsInRange data = (items.map strengthGiven).all fun
      | .ok x => decide (IsStrength x)
      | .error _ => true := by
    rw [strengthsInRange, hitems, List.all_map]
    rfl
  rw [hall, hgiven, List.all_map, List.all_eq_true]
  simp

/-- The edges of an import are in range exactly if the last record of every key is. -/
theorem strengths_ofExport_iff (h : ofExport now data = .ok g)
    (hrecords : importedNodes now data >>= importedEdges now data = .ok records) :
    (∀ e ∈ g.edges.values, IsStrength e.strength) ↔
      ∀ e ∈ records, lastRecord records e.id = some e → IsStrength e.strength := by
  have hstored := (ofExport_records h hrecords).1
  constructor
  · intro hall e _ hlast
    exact hall e (Table.mem_values_of_get? ((hstored e.id).trans hlast))
  · intro hall e he
    obtain ⟨k, hk⟩ := Table.mem_values_iff.1 he
    rw [hstored k] at hk
    obtain ⟨hmem, hid⟩ := mem_of_lastRecord hk
    refine hall e hmem ?_
    rw [← hk]
    simp only [lastRecord, Scalar.same, hid]

/-- An edge of a run is in range, or it is as an import of the run stored it. -/
theorem isStrength_or_imported (calls : List Call) : ∀ e ∈ (ofCalls calls).edges.values,
    IsStrength e.strength ∨ ∃ now data g, .importExport now data ∈ calls ∧
      ofExport now data = .ok g ∧ e ∈ g.edges.values := by
  let P (e : Edge) : Prop := IsStrength e.strength ∨ ∃ now data g, .importExport now data ∈ calls ∧
    ofExport now data = .ok g ∧ e ∈ g.edges.values
  have hkept : ∀ c ∈ calls, Kept c.now (fun _ _ => True ∧ True) fun g _ =>
      g.NodesKeyed ∧ ∀ k e, g.edges.get? k = some e → P e :=
    fun c _ => (nodesKeyed_kept c.now).and (strengths_kept c.now fun _ h => Or.inl h)
  have hinv := History.ofCalls_kept ⟨linked_empty.nodes_keyed, fun _ _ h => nomatch h⟩
    (fun _ _ h => h.1) hkept (fun c _ => c.drafts_of_forall fun _ _ => ⟨trivial, trivial⟩)
    fun now data g edges hc hg hedges => ⟨(accounted_ofExport hg hedges).linked.nodes_keyed,
      fun k e he => Or.inr ⟨now, data, g, hc, hg, Table.mem_values_of_get? he⟩⟩
  rw [History.graph_ofCalls] at hinv
  intro e he
  obtain ⟨k, hk⟩ := Table.mem_values_iff.1 he
  exact hinv.2 k e hk

end Graph

/-- After any calls an edge is in range unless an import of the run gave it as it is. So all edges are in range
if the imports that succeed give none but strengths in range; and after an import they are exactly if the
last record of every key is. -/
theorem strengths_of_calls (calls : List Call) :
    (∀ e ∈ (Graph.ofCalls calls).edges.values,
      IsStrength e.strength ∨ ∃ now data g, .importExport now data ∈ calls ∧
        Graph.ofExport now data = .ok g ∧ e ∈ g.edges.values) ∧
    ((∀ now data g, .importExport now data ∈ calls → Graph.ofExport now data = .ok g →
        strengthsInRange data = true) →
      ∀ e ∈ (Graph.ofCalls calls).edges.values, IsStrength e.strength) ∧
    ∀ now data g, Graph.ofExport now data = .ok g →
      ∃ records, Graph.importedNodes now data >>= Graph.importedEdges now data = .ok records ∧
        ((∀ e ∈ g.edges.values, IsStrength e.strength) ↔
          ∀ e ∈ records, lastRecord records e.id = some e → IsStrength e.strength) := by
  refine ⟨Graph.isStrength_or_imported calls, ?_, ?_⟩
  · intro hgiven e he
    rcases Graph.isStrength_or_imported calls e he with h | ⟨now, data, g, hc, hg, he⟩
    · exact h
    · obtain ⟨records, hrecords⟩ := Graph.exists_imported hg
      have hall := (Graph.strengthsInRange_iff hrecords).1 (hgiven now data g hc hg)
      exact (Graph.strengths_ofExport_iff hg hrecords).2 (fun e he _ => hall e he) e he
  · intro now data g hg
    obtain ⟨records, hrecords⟩ := Graph.exists_imported hg
    exact ⟨records, hrecords, Graph.strengths_ofExport_iff hg hrecords⟩

/-- An export of two nodes and of edges with these strengths. -/
def exportOfStrengths (strengths : List (String × Value)) : Value :=
  .fields [
    ("nodes", .list (["a", "b"].map fun id =>
      .list [.text id, .fields [("type", .text "file"), ("name", .text id)]])),
    ("edges", .list (strengths.map fun s => .list [.text s.1, .fields [
      ("from", .text "a"), ("to", .text "b"), ("type", .text "USES"), ("strength", s.2)]]))]

/-- An import in range, and relationships that ask for too much and for what is no number. -/
def boundedCalls : List Call := [
  .importExport "t0" (exportOfStrengths [("e", .float 0.5)]),
  .addRelationship "t1" (.text "a") (.text "b") (.text "CALLS") (.fields [("strength", .int 7)]),
  .addRelationship "t2" (.text "b") (.text "a") (.text "CALLS") (.fields [("strength", .text "nan")])]

theorem strengths_of_boundedCalls :
    (Graph.ofCalls boundedCalls).edges.size = 3 ∧
      ∀ e ∈ (Graph.ofCalls boundedCalls).edges.values, IsStrength e.strength := by
  have hsize : (Graph.ofCalls boundedCalls).edges.size = 3 := by decide +kernel
  refine ⟨hsize, (strengths_of_calls boundedCalls).2.1 fun now data g hc _ => ?_⟩
  simp only [boundedCalls, List.mem_cons, List.not_mem_nil, or_false, reduceCtorEq, or_self,
    Call.importExport.injEq] at hc
  obtain ⟨rfl, rfl⟩ := hc
  decide

/-- An import takes a strength above one as it is, and one that is not a number. -/
theorem imported_out_of_range :
    ∃ e e', (Graph.ofCalls [.importExport "t0"
        (exportOfStrengths [("e", .int 5), ("f", .text "nan")])]).edges.values = [e, e'] ∧
      1.0 < e.strength ∧ ¬ 0.0 ≤ e'.strength ∧ ¬ e'.strength ≤ 1.0 :=
  ⟨_, _, rfl, by decide, by decide, by decide⟩

end CodeAtlas
