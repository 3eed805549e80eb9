import CodeAtlas.CommandLine.Command
import CodeAtlas.Proofs.Query.Answered

/-! What arguments ask for that are accepted: the question of a query command is a plain one, since options give
texts, and whole numbers where these are wanted. -/

namespace CodeAtlas

/-- Whether a filter is one that an option sets: a whole number for the depth, and a text for all else. -/
def IsPlainFilter (f : String × Value) : Prop :=
  (f.1 = "depth" ∧ ∃ n, f.2 = .int n) ∨ (f.1 ≠ "depth" ∧ ∃ s, f.2 = .text s)

namespace Invocation

variable {settings : Settings} {args : List String} {i : Invocation} {kind : String}
  {filters : List (String × Value)} {limit : Int}

theorem isPlainFilter_of_optionValue? {p : Parsed} {o : OptionSpec × String} {v : Value}
    (ho : o ∈ filterOptions) (hv : optionValue? p o.1 = some v) : IsPlainFilter (o.2, v) := by
  have hsorts : ∀ o ∈ filterOptions, (o.1.sort = .whole ∧ o.2 = "depth") ∨
      (o.1.sort ≠ .whole ∧ o.2 ≠ "depth") := by decide
  obtain ⟨text, -, hv⟩ := Option.bind_eq_some_iff.1 hv
  rcases hsorts o ho with ⟨hwhole, hdepth⟩ | ⟨htext, hother⟩
  · rw [if_pos hwhole] at hv
    obtain ⟨n, -, rfl⟩ := Option.map_eq_some_iff.1 hv
    exact Or.inl ⟨hdepth, n, rfl⟩
  · rw [if_neg htext] at hv
    cases hv
    exact Or.inr ⟨hother, text, rfl⟩

theorem isPlainFilter_of_readQuery (h : readQuery settings args = .ok (.query kind filters limit)) :
    ∀ f ∈ filters, IsPlainFilter f := by
  obtain ⟨p, -, h⟩ := Except.bind_eq_ok.1 h
  obtain ⟨p, -, h⟩ := Except.bind_eq_ok.1 h
  cases h
  intro f hf
  obtain ⟨o, ho, hf⟩ := List.mem_filterMap.1 hf
  obtain ⟨v, hv, rfl⟩ := Option.map_eq_some_iff.1 hf
  exact isPlainFilter_of_optionValue? ho hv

/-- Accepted arguments have been read as one of the commands. -/
theorem exists_rest_of_read (h : read settings args = .ok i) : ∃ rest,
    readBuild rest = .ok i.command ∨ readStats rest = .ok i.command ∨
      readQuery settings rest = .ok i.command := by
  obtain ⟨p, -, h⟩ := Except.bind_eq_ok.1 h
  refine ⟨p.rest, ?_⟩
  simp only at h
  split at h
  · obtain ⟨command, hcommand, h⟩ := Except.bind_eq_ok.1 h
    obtain ⟨_, -, h⟩ := Except.bind_eq_ok.1 h
    cases h
    exact Or.inl hcommand
  · obtain ⟨command, hcommand, h⟩ := Except.bind_eq_ok.1 h
    obtain ⟨_, -, h⟩ := Except.bind_eq_ok.1 h
    cases h
    exact Or.inr (Or.inl hcommand)
  · obtain ⟨command, hcommand, h⟩ := Except.bind_eq_ok.1 h
    obtain ⟨_, -, h⟩ := Except.bind_eq_ok.1 h
    cases h
    exact Or.inr (Or.inr hcommand)
  · cases h

theorem isPlainFilter_of_read (h : read settings args = .ok i) (hquery : i.command = .query kind filters limit) :
    ∀ f ∈ filters, IsPlainFilter f := by
  obtain ⟨rest, hread⟩ := exists_rest_of_read h
  rw [hquery] at hread
  rcases hread with hbuild | hstats | hread
  · obtain ⟨p, -, hbuild⟩ := Except.bind_eq_ok.1 hbuild
    obtain ⟨p, -, hbuild⟩ := Except.bind_eq_ok.1 hbuild
    cases hbuild
  · obtain ⟨p, -, hstats⟩ := Except.bind_eq_ok.1 hstats
    obtain ⟨p, -, hstats⟩ := Except.bind_eq_ok.1 hstats
    cases hstats
  · exact isPlainFilter_of_readQuery hread

end Invocation

namespace Command

variable {kind : String} {filters : List (String × Value)} {limit : Int}

/-- The filters of a request by name: each is one that was given, or nothing. -/
theorem field_of_filters (filters : List (String × Value)) (name : String) :
    ∃ v, (Value.object (Table.ofList (filters.map fun f => (.text f.1, f.2))).entries).field name = .ok v ∧
      (v = .null ∨ ∃ f ∈ filters, f.1 = name ∧ f.2 = v) := by
  refine ⟨_, rfl, ?_⟩
  change ((Table.empty.writeAll _).get? (.text name)).getD Value.null = .null ∨ ∃ f ∈ filters,
    f.1 = name ∧ f.2 = ((Table.empty.writeAll _).get? (.text name)).getD Value.null
  rw [Table.get?_writeAll]
  cases hlookup : lookup? (.text name) (filters.map fun f => (Scalar.text f.1, f.2)).reverse with
  | none => exact Or.inl rfl
  | some v =>
    obtain ⟨e, he, hkey, rfl⟩ := canon_eq_of_lookup? hlookup
    obtain ⟨f, hf, rfl⟩ := List.mem_map.1 (List.mem_reverse.1 he)
    exact Or.inr ⟨f, hf, Scalar.text.inj hkey, rfl⟩

/-- Plain filters make a plain question. -/
theorem exists_plain (kind : String) (limit : Int) (h : ∀ f ∈ filters, IsPlainFilter f) :
    ∃ r, QueryRequest.read (request kind filters limit) = .ok r ∧ r.Plain := by
  have htable : (Value.fields filters).toTable =
      .ok (Table.ofList (filters.map fun f => (.text f.1, f.2))) := by cases filters <;> rfl
  refine ⟨⟨(Value.text kind).orElse (.text QueryKind.search.name),
    .object (Table.ofList (filters.map fun f => (.text f.1, f.2))).entries, .int limit⟩, ?_, ⟨_, rfl⟩, ⟨limit, rfl⟩,
    ?_, fun name hname => ?_⟩
  · change (do
      let table ← (Value.fields filters).toTable
      return _ : Checked QueryRequest) = _
    rw [htable]
    rfl
  · obtain ⟨v, hv, hnull | ⟨f, hf, hname, rfl⟩⟩ := field_of_filters filters "depth"
    · exact ⟨v, hv, Or.inl hnull⟩
    · rcases h f hf with ⟨-, hwhole⟩ | ⟨hother, -⟩
      · exact ⟨f.2, hv, Or.inr hwhole⟩
      · exact absurd hname hother
  · obtain ⟨v, hv, hnull | ⟨f, hf, hfname, rfl⟩⟩ := field_of_filters filters name
    · exact ⟨v, hv, Or.inl hnull⟩
    · rcases h f hf with ⟨hdepth, -⟩ | ⟨-, htext⟩
      · exact absurd (hfname.symm.trans hdepth) hname
      · exact ⟨f.2, hv, Or.inr htext⟩

end Command

end CodeAtlas
