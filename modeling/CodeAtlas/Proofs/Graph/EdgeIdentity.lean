import CodeAtlas.Proofs.Graph.Failure
import CodeAtlas.Proofs.Graph.Identity

/-! Whether different relationships are different edges. An edge is stored under the digest of one text that
joins both ids and the kind, so besides collisions of the digest there is one way for two relationships to
be one edge: their texts are the same, because the ids themselves hold the arrow that should part them. -/

namespace CodeAtlas

namespace Graph

variable {g : Graph} {now now' s t s' t' : String} {kind kind' : RelationKind} {p p' : Properties}
  {x x' : Float}

theorem addRelationship_run_ok {properties : Value} (hs : g.hasNode (.text s) = true)
    (ht : g.hasNode (.text t) = true) (hp : properties.toTable = .ok p) (hx : strengthOf p = .ok x) :
    (addRelationship now (.text s) (.text t) (.text kind.name) properties).run g =
      .ok (relationship now (.text s) (.text t) kind p x)
        (g.putEdge (relationship now (.text s) (.text t) kind p x)) := by
  rw [addRelationship_text_run, if_pos (absentEnds_eq_nil.2 ⟨hs, ht⟩), hp]
  simp only [relate_run, checkEnds_eq_ok.2 ⟨hs, ht⟩, hx]

/-- Two relationships have one id exactly if they have one text, as long as the digest keeps texts apart. -/
theorem relationship_id_eq_iff
    (hids : NoCollision [edgeText s t kind.name, edgeText s' t' kind'.name]) :
    (relationship now (.text s) (.text t) kind p x).id =
        (relationship now' (.text s') (.text t') kind' p' x').id ↔
      kind = kind' ∧ (s = s' ∧ t = t' ∨ Shifted s t s' t' ∨ Shifted s' t' s t) := by
  rw [← edgeText_eq_iff]
  constructor
  · intro h
    exact hids _ (by simp) _ (by simp) (Scalar.text.inj h)
  · intro h
    exact congrArg (fun text => Scalar.text (contentId text)) h

/-- Two different relationships between nodes that are there, one stored after the other, are two edges, and
the first stays as it was stored, exactly if they do not differ only in where the arrow stands. -/
theorem relationships_apart_iff_not_shifted (g : Graph) (now now' s t s' t' : String)
    (kind kind' : RelationKind) (properties properties' : Value)
    (hs : g.hasNode (.text s) = true) (ht : g.hasNode (.text t) = true)
    (hs' : g.hasNode (.text s') = true) (ht' : g.hasNode (.text t') = true)
    (hp : properties.toTable = .ok p) (hx : strengthOf p = .ok x)
    (hp' : properties'.toTable = .ok p') (hx' : strengthOf p' = .ok x')
    (hne : (s, t, kind) ≠ (s', t', kind'))
    (hids : NoCollision [edgeText s t kind.name, edgeText s' t' kind'.name]) :
    let e := relationship now (.text s) (.text t) kind p x
    let e' := relationship now' (.text s') (.text t') kind' p' x'
    ∃ g₁ g₂,
      (addRelationship now (.text s) (.text t) (.text kind.name) properties).run g = .ok e g₁ ∧
      (addRelationship now' (.text s') (.text t') (.text kind'.name) properties').run g₁ = .ok e' g₂ ∧
      g₁.edges.get? e.id = some e ∧ g₂.edges.get? e'.id = some e' ∧
      ((e.id ≠ e'.id ∧ g₂.edges.get? e.id = some e) ↔
        ¬ (kind = kind' ∧ (Shifted s t s' t' ∨ Shifted s' t' s t))) := by
  intro e e'
  have hsame : e.id = e'.id ↔ kind = kind' ∧ (Shifted s t s' t' ∨ Shifted s' t' s t) := by
    rw [relationship_id_eq_iff hids]
    refine and_congr_right fun hkind => or_iff_right ?_
    rintro ⟨rfl, rfl⟩
    exact hne (by rw [hkind])
  have hstored : (g.putEdge e).edges.get? e.id = some e := by simp [get?_edges_putEdge]
  refine ⟨g.putEdge e, (g.putEdge e).putEdge e', addRelationship_run_ok hs ht hp hx,
    addRelationship_run_ok (by rwa [hasNode_putEdge]) (by rwa [hasNode_putEdge]) hp' hx', hstored,
    by simp [get?_edges_putEdge], ?_⟩
  rw [← hsame]
  refine ⟨fun h => h.1, fun h => ⟨h, ?_⟩⟩
  have hcanon : e'.id.canon ≠ e.id.canon := fun hc => h hc.symm
  rw [get?_edges_putEdge, if_neg hcanon, hstored]

def twoFiles : Graph := ofCalls [
  .addNode "t0" (.text "a") (.fields [("type", .text "file"), ("name", .text "a.py")]),
  .addNode "t0" (.text "b") (.fields [("type", .text "file"), ("name", .text "b.py")])]

theorem noCollision_twoFiles :
    NoCollision [edgeText "a" "b" RelationKind.uses.name, edgeText "b" "a" RelationKind.uses.name] := by
  decide +kernel

theorem relationships_apart_twoFiles :
    ∃ e e' g₁ g₂,
      (addRelationship "t1" (.text "a") (.text "b") (.text "USES") (.fields [("strength", .float 0.5)])).run
        twoFiles = .ok e g₁ ∧
      (addRelationship "t2" (.text "b") (.text "a") (.text "USES") .null).run g₁ = .ok e' g₂ ∧
      e.id ≠ e'.id ∧ g₂.edges.get? e.id = some e ∧ g₂.edges.get? e'.id = some e' := by
  obtain ⟨g₁, g₂, hrun, hrun', -, hstored', hiff⟩ := relationships_apart_iff_not_shifted twoFiles
    "t1" "t2" "a" "b" "b" "a" .uses .uses (.fields [("strength", .float 0.5)]) .null
    rfl rfl rfl rfl rfl rfl rfl rfl (by decide) noCollision_twoFiles
  have hnot : ¬ (RelationKind.uses = .uses ∧ (Shifted "a" "b" "b" "a" ∨ Shifted "b" "a" "a" "b")) := by
    rintro ⟨-, h | h⟩
    · exact absurd h.length_lt.1 (by decide)
    · exact absurd h.length_lt.1 (by decide)
  obtain ⟨hne, hstored⟩ := hiff.2 hnot
  exact ⟨_, _, g₁, g₂, hrun, hrun', hne, hstored, hstored'⟩

def arrowFiles : Graph := ofCalls (["a->b", "c", "a", "b->c"].map fun id =>
  .addNode "t0" (.text id) (.fields [("type", .text "file"), ("name", .text id)]))

/-- Of two relationships with one text only the second is left, and the source of the first goes on listing
an edge that does not touch it. -/
theorem relationships_confused_arrowFiles :
    edgeText "a->b" "c" "USES" = edgeText "a" "b->c" "USES" ∧ ∃ e e' g₁ g₂ n,
      (addRelationship "t1" (.text "a->b") (.text "c") (.text "USES") .null).run arrowFiles = .ok e g₁ ∧
      (addRelationship "t2" (.text "a") (.text "b->c") (.text "USES") (.fields [("strength", .float 0.5)])).run
        g₁ = .ok e' g₂ ∧
      e'.source ≠ e.source ∧ g₂.edges.get? e.id = some e' ∧ g₂.edges.size = 1 ∧
      g₂.nodes.get? (.text "a->b") = some n ∧ n.connections.contains e'.id = true ∧
      ¬ e'.Touches n.id := by
  let e := relationship "t1" (.text "a->b") (.text "c") .uses ∅ 1.0
  let e' := relationship "t2" (.text "a") (.text "b->c") .uses (.ofList [(.text "strength", .float 0.5)]) 0.5
  have htext : edgeText "a->b" "c" "USES" = edgeText "a" "b->c" "USES" := by decide
  have hid : e'.id = e.id := congrArg (fun text => Scalar.text (contentId text)) htext.symm
  have hget : ((arrowFiles.putEdge e).putEdge e').nodes.get? (.text "a->b") =
      (arrowFiles.nodes.get? (.text "a->b")).map fun n => (n.meet e (.text "a->b")).meet e' (.text "a->b") := by
    rw [get?_nodes_putEdge, get?_nodes_putEdge, Option.map_map]
    rfl
  refine ⟨htext, e, e', arrowFiles.putEdge e, (arrowFiles.putEdge e).putEdge e', _, rfl, rfl, ?_, ?_, ?_,
    hget, ?_, ?_⟩
  · decide
  · rw [get?_edges_putEdge, if_pos (congrArg Scalar.canon hid)]
  · have hone : (arrowFiles.putEdge e).edges.size = 1 := rfl
    have hthere : (arrowFiles.putEdge e).edges.contains e.id = true := Table.contains_insert_self
    rw [putEdge, Table.size_insert, hid, if_pos hthere, hone]
  · rw [hid, Node.contains_meet, Node.contains_meet]
    exact Or.inl (Or.inr ⟨rfl, Or.inl rfl⟩)
  · have hsource : Scalar.text "a" ≠ .text "a->b" := by decide
    have htarget : Scalar.text "b->c" ≠ .text "a->b" := by decide
    exact fun h => h.elim hsource htarget

end Graph

end CodeAtlas
