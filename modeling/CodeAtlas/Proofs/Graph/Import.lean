import CodeAtlas.Graph.Export
import CodeAtlas.Proofs.Graph.Linked

/-! An import in three parts: the node table is read, the edges are read against it, and only then are the
edges stored one after the other, as if they had been related. -/

namespace CodeAtlas

theorem foldlM_invariant {ε α β : Type} {f : β → α → Except ε β} {P : β → Prop} {as : List α} {b b' : β}
    (hf : ∀ a ∈ as, ∀ b b', f b a = .ok b' → P b → P b') (h : as.foldlM f b = .ok b') (hb : P b) :
    P b' := by
  induction as generalizing b with
  | nil =>
    cases h
    exact hb
  | cons a rest ih =>
    rw [List.foldlM_cons] at h
    obtain ⟨b1, h1, h⟩ := Except.bind_eq_ok.1 h
    exact ih (fun a ha => hf a (List.mem_cons_of_mem _ ha)) h (hf a List.mem_cons_self b b1 h1 hb)

theorem mem_of_mapM_ok {ε α β : Type} {f : α → Except ε β} {as : List α} {bs : List β}
    (h : as.mapM f = .ok bs) : ∀ b ∈ bs, ∃ a ∈ as, f a = .ok b := by
  induction as generalizing bs with
  | nil =>
    cases h
    exact fun b hb => absurd hb List.not_mem_nil
  | cons a rest ih =>
    rw [List.mapM_cons] at h
    obtain ⟨b1, h1, h⟩ := Except.bind_eq_ok.1 h
    obtain ⟨bs1, h2, h⟩ := Except.bind_eq_ok.1 h
    cases h
    intro b hb
    rcases List.mem_cons.1 hb with rfl | hb
    · exact ⟨a, List.mem_cons_self, h1⟩
    · obtain ⟨a', ha', h⟩ := ih h2 b hb
      exact ⟨a', List.mem_cons_of_mem _ ha', h⟩

theorem exists_of_mapM_error {ε α β : Type} {f : α → Except ε β} {as : List α} {e : ε}
    (h : as.mapM f = .error e) : ∃ a ∈ as, f a = .error e := by
  induction as with
  | nil => cases h
  | cons a rest ih =>
    rw [List.mapM_cons] at h
    rcases Except.bind_eq_error.1 h with h | ⟨b, -, h⟩
    · exact ⟨a, List.mem_cons_self, h⟩
    · rcases Except.bind_eq_error.1 h with h | ⟨bs, -, h⟩
      · obtain ⟨a', ha', h⟩ := ih h
        exact ⟨a', List.mem_cons_of_mem _ ha', h⟩
      · cases h

/-- What a successful `mapM` makes of the items of a list shows the same as the items. -/
theorem map_of_mapM_ok {ε α β γ : Type} {f : α → Except ε β} {r : β → γ} {s : α → γ} {as : List α}
    {bs : List β} (h : as.mapM f = .ok bs) (hf : ∀ a b, f a = .ok b → r b = s a) :
    bs.map r = as.map s := by
  induction as generalizing bs with
  | nil =>
    cases h
    rfl
  | cons a rest ih =>
    rw [List.mapM_cons] at h
    obtain ⟨b, hb, h⟩ := Except.bind_eq_ok.1 h
    obtain ⟨bs', hrest, h⟩ := Except.bind_eq_ok.1 h
    cases h
    rw [List.map_cons, List.map_cons, hf a b hb, ih hrest]

theorem exists_mapM_ok {ε α β : Type} {f : α → Except ε β} {as : List α} (h : ∀ a ∈ as, ∃ b, f a = .ok b) :
    ∃ bs, as.mapM f = .ok bs := by
  induction as with
  | nil => exact ⟨[], rfl⟩
  | cons a rest ih =>
    obtain ⟨b, hb⟩ := h a List.mem_cons_self
    obtain ⟨bs, hbs⟩ := ih fun a ha => h a (List.mem_cons_of_mem _ ha)
    exact ⟨b :: bs, by rw [List.mapM_cons, hb, hbs]; rfl⟩

theorem exists_foldlM_ok {ε α β : Type} {f : β → α → Except ε β} {as : List α} {b : β}
    (h : ∀ a ∈ as, ∀ b, ∃ b', f b a = .ok b') : ∃ b', as.foldlM f b = .ok b' := by
  induction as generalizing b with
  | nil => exact ⟨b, rfl⟩
  | cons a rest ih =>
    obtain ⟨b₁, hb⟩ := h a List.mem_cons_self b
    obtain ⟨b', hrest⟩ := @ih b₁ fun a ha => h a (List.mem_cons_of_mem _ ha)
    exact ⟨b', by rw [List.foldlM_cons, hb]; exact hrest⟩

theorem exists_step_of_foldlM_ok {ε α β : Type} {f : β → α → Except ε β} {as : List α} {b b' : β}
    (h : as.foldlM f b = .ok b') : ∀ a ∈ as, ∃ c c', f c a = .ok c' := by
  induction as generalizing b with
  | nil => exact fun a ha => absurd ha List.not_mem_nil
  | cons a rest ih =>
    rw [List.foldlM_cons] at h
    obtain ⟨c, hc, h⟩ := Except.bind_eq_ok.1 h
    intro a' ha'
    rcases List.mem_cons.1 ha' with rfl | ha'
    · exact ⟨b, c, hc⟩
    · exact ih h a' ha'

theorem Value.key_eq_ok {v : Value} {k : Scalar} : v.key = .ok k ↔ v = .scalar k := by
  cases v <;> simp [Value.key]

theorem isFalsy_timeOr {now : String} {v : Value} (h : now ≠ "") : (timeOr now v).isFalsy = false := by
  unfold timeOr Value.orElse
  cases hv : v.isFalsy with
  | true =>
    rw [if_pos rfl]
    unfold Value.isFalsy
    split <;> simp_all
  | false => simpa using hv

variable {now : String} {id record : Value}

/-- What a node record says about times and name, and that its connections are not taken over. -/
theorem Node.read_ok {n : Node} (h : Node.read now id record = .ok n) :
    id = .scalar n.id ∧ n.connections = ∅ ∧
      (∃ name, record.field? "name" = .ok name ∧ n.name = name.getD (.text "")) ∧
      (∃ c, n.metadata.created = timeOr now c) ∧ ∃ u, n.metadata.lastUpdated = timeOr now u := by
  unfold Node.read at h
  obtain ⟨_, -, h⟩ := Except.bind_eq_ok.1 h
  obtain ⟨kind, -, h⟩ := Except.bind_eq_ok.1 h
  obtain ⟨name, hname, h⟩ := Except.bind_eq_ok.1 h
  obtain ⟨_, -, h⟩ := Except.bind_eq_ok.1 h
  obtain ⟨properties, -, h⟩ := Except.bind_eq_ok.1 h
  obtain ⟨_, -, h⟩ := Except.bind_eq_ok.1 h
  obtain ⟨metadata, hmeta, h⟩ := Except.bind_eq_ok.1 h
  obtain ⟨k, hk, h⟩ := Except.bind_eq_ok.1 h
  cases h
  unfold Metadata.read at hmeta
  obtain ⟨created, -, hmeta⟩ := Except.bind_eq_ok.1 hmeta
  obtain ⟨lastUpdated, -, hmeta⟩ := Except.bind_eq_ok.1 hmeta
  obtain ⟨older, -, hmeta⟩ := Except.bind_eq_ok.1 hmeta
  obtain ⟨_, -, hmeta⟩ := Except.bind_eq_ok.1 hmeta
  obtain ⟨weight, -, hmeta⟩ := Except.bind_eq_ok.1 hmeta
  cases hmeta
  exact ⟨Value.key_eq_ok.1 hk, rfl, ⟨name, hname, rfl⟩, ⟨_, rfl⟩, ⟨_, rfl⟩⟩

/-- An edge record is accepted only between nodes of the table, and its strength is taken as it is. -/
theorem Edge.read_ok {nodes : Table Node} {e : Edge} (h : Edge.read now nodes id record = .ok e) :
    id = .scalar e.id ∧ nodes.contains e.source = true ∧ nodes.contains e.target = true ∧
      (∃ v, record.field? "strength" = .ok v ∧ (v.getD (.float 1.0)).toFloat = .ok e.strength) ∧
      ∃ c, e.created = timeOr now c := by
  unfold Edge.read at h
  obtain ⟨source, -, h⟩ := Except.bind_eq_ok.1 h
  obtain ⟨target, -, h⟩ := Except.bind_eq_ok.1 h
  obtain ⟨s, hs, h⟩ := Except.bind_eq_ok.1 h
  obtain ⟨t, ht, h⟩ := Except.bind_eq_ok.1 h
  simp only at h
  split at h
  · rename_i hends
    obtain ⟨_, -, h⟩ := Except.bind_eq_ok.1 h
    obtain ⟨kind, -, h⟩ := Except.bind_eq_ok.1 h
    obtain ⟨given, hgiven, h⟩ := Except.bind_eq_ok.1 h
    obtain ⟨strength, hstrength, h⟩ := Except.bind_eq_ok.1 h
    obtain ⟨_, -, h⟩ := Except.bind_eq_ok.1 h
    obtain ⟨properties, -, h⟩ := Except.bind_eq_ok.1 h
    obtain ⟨created, -, h⟩ := Except.bind_eq_ok.1 h
    obtain ⟨k, hk, h⟩ := Except.bind_eq_ok.1 h
    rw [hs, ht] at h
    cases h
    have hall := List.filter_eq_nil_iff.1 hends
    exact ⟨Value.key_eq_ok.1 hk, by simpa using hall s (by simp), by simpa using hall t (by simp),
      ⟨given, hgiven, hstrength⟩, _, rfl⟩
  · obtain ⟨_, h', -⟩ := Except.bind_eq_ok.1 h
    cases h'

namespace Graph

/-- The node table that an export gives. -/
def importedNodes (now : String) (data : Value) : Checked (Table Node) := do
  (← exportTable "nodes" data).foldlM (importNode now) ∅

def readEdge (now : String) (nodes : Table Node) (item : Value) : Checked Edge := do
  let (id, record) ← item.pair
  Edge.read now nodes id record

/-- The edges that an export gives for a node table, in order; one key may come more than once. -/
def importedEdges (now : String) (data : Value) (nodes : Table Node) : Checked (List Edge) := do
  (← exportTable "edges" data).mapM (readEdge now nodes)

def ofNodes (nodes : Table Node) : Graph := { empty with nodes := nodes }

def importedConcepts (data : Value) (nodes : Table Node) : Checked (Table Scalar) := do
  (← exportTable "conceptIndex" data).foldlM (importConcept nodes) ∅

theorem readEdge_congr {nodes nodes' : Table Node} {item : Value}
    (h : ∀ k, nodes.contains k = nodes'.contains k) :
    readEdge now nodes item = readEdge now nodes' item := by
  simp only [readEdge, Edge.read, h]

theorem importEdge_eq {g : Graph} {item : Value} :
    importEdge now g item = (readEdge now g.nodes item).map g.putEdge := by
  unfold importEdge readEdge
  cases item.pair with
  | error e => rfl
  | ok p =>
    change (do return g.putEdge (← Edge.read now g.nodes p.1 p.2) : Checked Graph) =
      (Edge.read now g.nodes p.1 p.2).map g.putEdge
    cases Edge.read now g.nodes p.1 p.2 <;> rfl

/-- Storing edges does not change which nodes there are, so all edges can be read first. -/
theorem foldlM_importEdge {g : Graph} {items : List Value} :
    items.foldlM (importEdge now) g = (do
      let edges ← items.mapM (readEdge now g.nodes)
      return edges.foldl putEdge g) := by
  induction items generalizing g with
  | nil => rfl
  | cons item rest ih =>
    rw [List.foldlM_cons, List.mapM_cons, importEdge_eq]
    cases readEdge now g.nodes item with
    | error e => rfl
    | ok e =>
      have hread : ∀ item, readEdge now (g.putEdge e).nodes item = readEdge now g.nodes item :=
        fun item => readEdge_congr fun k => hasNode_putEdge
      change rest.foldlM (importEdge now) (g.putEdge e) = _
      rw [ih, funext hread]
      cases rest.mapM (readEdge now g.nodes) <;> rfl

theorem ofExport_eq {data : Value} :
    ofExport now data = (do
      let nodes ← importedNodes now data
      let edges ← importedEdges now data nodes
      let g := edges.foldl putEdge (ofNodes nodes)
      let concepts ← importedConcepts data g.nodes
      return { g with concepts := ← g.nodes.values.foldlM completeConcept concepts }) := by
  simp only [ofExport, importedNodes, importedEdges, importedConcepts, foldlM_importEdge, bind_assoc,
    pure_bind, ofNodes]

theorem exists_imported {data : Value} {g : Graph} (h : ofExport now data = .ok g) :
    ∃ edges, importedNodes now data >>= importedEdges now data = .ok edges := by
  rw [ofExport_eq] at h
  obtain ⟨nodes, hnodes, h⟩ := Except.bind_eq_ok.1 h
  obtain ⟨edges, hedges, -⟩ := Except.bind_eq_ok.1 h
  exact ⟨edges, Except.bind_eq_ok.2 ⟨nodes, hnodes, hedges⟩⟩

/-- The parts of an import that succeeds. -/
theorem ofExport_ok {data : Value} {edges : List Edge} {g : Graph} (h : ofExport now data = .ok g)
    (hedges : importedNodes now data >>= importedEdges now data = .ok edges) :
    ∃ nodes taken concepts, importedNodes now data = .ok nodes ∧
      importedEdges now data nodes = .ok edges ∧
      importedConcepts data (edges.foldl putEdge (ofNodes nodes)).nodes = .ok taken ∧
      (edges.foldl putEdge (ofNodes nodes)).nodes.values.foldlM completeConcept taken =
        .ok concepts ∧
      g = { edges.foldl putEdge (ofNodes nodes) with concepts := concepts } := by
  rw [ofExport_eq] at h
  obtain ⟨nodes, hnodes, h⟩ := Except.bind_eq_ok.1 h
  obtain ⟨edges', hread, h⟩ := Except.bind_eq_ok.1 h
  rw [hnodes] at hedges
  cases hread.symm.trans hedges
  obtain ⟨taken, htaken, h⟩ := Except.bind_eq_ok.1 h
  obtain ⟨concepts, hconcepts, h⟩ := Except.bind_eq_ok.1 h
  cases h
  exact ⟨nodes, taken, concepts, hnodes, hread, htaken, hconcepts, rfl⟩

end Graph

end CodeAtlas
