import CodeAtlas.Similarity.Score
import CodeAtlas.Proofs.Similarity.EditDistance
import CodeAtlas.Proofs.Value.WellFormed

/-! Likeness does not depend on which of two nodes comes first. It is a sum over the same three parts either way,
so it is enough that each of them is the same double: the names, by the symmetry of the edit distance and of
the equality of values, and the keys and the kinds, by counting what two lists have in common. -/

namespace CodeAtlas

theorem length_common_comm {α : Type} [DecidableEq α] {as bs : List α} (ha : as.Nodup) (hb : bs.Nodup) :
    (as.filter (· ∈ bs)).length = (bs.filter (· ∈ as)).length := by
  have hperm : (as.filter (· ∈ bs)).Perm (bs.filter (· ∈ as)) := by
    rw [List.perm_ext_iff_of_nodup (ha.filter _) (hb.filter _)]
    intro a
    simp [and_comm]
  exact hperm.length_eq

theorem Value.elements_eq_error {v : Value} {e : Fault} (h : v.elements = .error e) : e = .wrongSort := by
  unfold elements at h
  split at h <;> cases h
  rfl

namespace Similarity

/-- Two texts are compared by their characters, any other two values by their elements. -/
theorem names_cases (v w : Value) :
    (∃ s t : String, v = .text s ∧ w = .text t) ∨
      names v w = (do return sequenceSimilarity (← v.elements) (← w.elements)) ∧
        names w v = (do return sequenceSimilarity (← w.elements) (← v.elements)) := by
  by_cases htexts : ∃ s t : String, v = .text s ∧ w = .text t
  · exact Or.inl htexts
  · refine Or.inr ⟨?_, ?_⟩
    · unfold names
      split
      · rename_i s t
        exact absurd ⟨s, t, rfl, rfl⟩ htexts
      · rfl
    · unfold names
      split
      · rename_i t s
        exact absurd ⟨s, t, rfl, rfl⟩ htexts
      · rfl

theorem isOk_names {v w : Value} : (names v w).isOk = (v.elements.isOk && w.elements.isOk) := by
  obtain ⟨s, t, rfl, rfl⟩ | ⟨hvw, -⟩ := names_cases v w
  · rfl
  · rw [hvw]
    cases v.elements with
    | error e => rfl
    | ok vs => cases w.elements <;> rfl

theorem names_eq_error {v w : Value} {e : Fault} (h : names v w = .error e) : e = .wrongSort := by
  obtain ⟨s, t, rfl, rfl⟩ | ⟨hvw, -⟩ := names_cases v w
  · cases h
  · rw [hvw] at h
    rcases Except.bind_eq_error.1 h with h | ⟨vs, -, h⟩
    · exact Value.elements_eq_error h
    · rcases Except.bind_eq_error.1 h with h | ⟨ws, -, h⟩
      · exact Value.elements_eq_error h
      · cases h

/-- Two names are as alike in the one order as in the other. -/
theorem names_comm {v w : Value} (hv : v.WellFormed) (hw : w.WellFormed) : names v w = names w v := by
  obtain ⟨s, t, rfl, rfl⟩ | ⟨hvw, hwv⟩ := names_cases v w
  · exact congrArg Except.ok (sequenceSimilarity_comm fun c _ d _ => by simp [eq_comm])
  · rw [hvw, hwv]
    cases hvs : v.elements with
    | error e =>
      cases hws : w.elements with
      | error e' => rw [Value.elements_eq_error hvs, Value.elements_eq_error hws]
      | ok ws => rfl
    | ok vs =>
      cases hws : w.elements with
      | error e' => rfl
      | ok ws =>
        exact congrArg Except.ok <| sequenceSimilarity_comm fun x hx y hy =>
          Value.same_comm (hv.of_mem_elements hvs x hx) (hw.of_mem_elements hws y hy)

theorem length_filter_contains (s t : KeySet) :
    (s.keys.filter t.contains).length =
      ((s.keys.map Scalar.canon).filter (· ∈ t.keys.map Scalar.canon)).length := by
  rw [List.filter_map, List.length_map]
  refine congrArg List.length (List.filter_congr fun k _ => ?_)
  rw [Bool.eq_iff_iff, Table.contains_iff_mem]
  simp

theorem keySets_comm (s t : KeySet) : keySets s t = keySets t s := by
  have hlength : (s.keys.filter t.contains).length = (t.keys.filter s.contains).length := by
    rw [length_filter_contains, length_filter_contains]
    exact length_common_comm Table.nodup_keys Table.nodup_keys
  have hempty : (s.keys.filter t.contains).isEmpty = (t.keys.filter s.contains).isEmpty := by
    rw [Bool.eq_iff_iff, List.isEmpty_iff_length_eq_zero, List.isEmpty_iff_length_eq_zero, hlength]
  simp only [keySets, hlength, hempty, max_comm s.size, and_comm]

end Similarity

namespace Graph

variable (g : Graph)

theorem nodup_connectionKinds (n : Node) : (g.connectionKinds n).Nodup :=
  List.Nodup.filter _ (by decide)

theorem connectionSimilarity_comm (a b : Node) :
    g.connectionSimilarity a b = g.connectionSimilarity b a := by
  have hshared := length_common_comm (g.nodup_connectionKinds a) (g.nodup_connectionKinds b)
  simp only [connectionSimilarity, List.contains_eq_mem, hshared,
    max_comm (g.connectionKinds a).length]

variable {g} {a b : Node}

theorem similarity_eq_error {e : Fault} (h : g.similarity a b = .error e) : e = .wrongSort := by
  unfold similarity at h
  split at h
  · cases h
  · rcases Except.bind_eq_error.1 h with h | ⟨names, -, h⟩
    · exact Similarity.names_eq_error h
    · cases h

theorem isOk_similarity (hkind : a.kind = b.kind) :
    (g.similarity a b).isOk = (a.name.elements.isOk && b.name.elements.isOk) := by
  rw [← Similarity.isOk_names, similarity, if_neg (not_not.2 hkind)]
  cases Similarity.names a.name b.name <;> rfl

theorem exists_similarity (ha : a.name.elements.isOk = true) (hb : b.name.elements.isOk = true) :
    ∃ s, g.similarity a b = .ok s := by
  by_cases hkind : a.kind = b.kind
  · rw [← isOk_iff, isOk_similarity hkind, ha, hb]
    rfl
  · exact ⟨0.0, if_pos hkind⟩

/-- Two nodes are as alike in the one order as in the other: with the same double, or for want of the parts of a
name with the same failure. -/
theorem similarity_comm (ha : a.name.WellFormed) (hb : b.name.WellFormed) :
    g.similarity a b = g.similarity b a := by
  unfold similarity
  rw [Similarity.names_comm ha hb, Similarity.keySets_comm, g.connectionSimilarity_comm]
  simp only [ne_comm]

end Graph

end CodeAtlas
