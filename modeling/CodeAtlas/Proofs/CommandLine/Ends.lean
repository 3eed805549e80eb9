import CodeAtlas.Proofs.CommandLine.Accepted
import CodeAtlas.Proofs.CommandLine.BuiltSnapshot
import CodeAtlas.Proofs.Source.ImportStatements

/-! How commands end on what they find. No snapshot, and one that is no document, is reported. So is everything
else in a document of the shape of a snapshot; a document of another shape may break a command off. A
build looks at no more than the head of the document that it replaces.

This is said of documents that an interpreter with a limit on its recursion takes in and prints again. One that
nests deeper, or that escapes half of a surrogate pair on its own, may break a command off whatever its shape. -/

namespace CodeAtlas

namespace Document

def depthAfter (quoted : Bool) (depth : Nat) (c : Char) : Nat :=
  if quoted then depth
  else if c = '[' || c = '\x7b' then depth + 1
  else if c = ']' || c = '\x7d' then depth - 1
  else depth

/-- How deep the brackets of a text stand in one another, those in its strings left out. -/
def nesting (quoted : Bool) (depth : Nat) : List Char → Nat
  | '\\' :: _ :: rest => nesting quoted depth rest
  | c :: rest => max depth (nesting (quoted ^^ c = '"') (depthAfter quoted depth c) rest)
  | [] => depth

/-- Whether a text escapes half of a surrogate pair on its own. A first half may have gone before. -/
def hasHalf (first : Bool) : List Char → Bool
  | '\\' :: 'u' :: a :: b :: c :: d :: rest =>
    match hexQuad? [a, b, c, d] with
    | some (n, _) =>
      if 0xdc00 ≤ n ∧ n < 0xe000 then !first || hasHalf false rest
      else first || hasHalf (0xd800 ≤ n ∧ n < 0xdc00) rest
    | none => first || hasHalf false rest
  | '\\' :: _ :: rest => first || hasHalf false rest
  | _ :: rest => first || hasHalf false rest
  | [] => first

example : nesting false 0 "[\x7b\"a\": \"[[\"\x7d, [1]]".toList = 2 := by decide

example : hasHalf false "[\"\\ud83d\\ude00\"]".toList = false ∧ hasHalf false "[\"\\ud83d\"]".toList = true := by
  decide

/-- A text that is taken in and printed again: its brackets nest no deeper than a limit, and all that it
escapes are whole characters. -/
structure Legible (limit : Nat) (text : String) : Prop where
  shallow : nesting false 0 text.toList ≤ limit
  whole : hasHalf false text.toList = false

end Document

theorem Entry.isContained_readText (root : Entry) (path : String) : isContained (root.readText path) = true := by
  have htroubled : ∀ {α : Type} (x : Except FileTrouble α), isContained (troubled x) = true := by
    intro α x
    cases x <;> rfl
  unfold readText
  by_cases hempty : path.isEmpty = true
  · rw [if_pos hempty]
    rfl
  · rw [if_neg hempty]
    refine isContained_bind (htroubled _) fun bytes _ => ?_
    simp only
    split
    · rfl
    · split <;> rfl

namespace Snapshot

variable {now path : String} {root tree : Entry} {d : Value} {g : Graph}

/-- The document in the file at a path, if there is a file and it holds one. -/
def found? (path : String) (root : Entry) : Option Value := ((root.readText path).bind Value.parse).toOption

/-- The text that saving at a path replaces, if there is one. -/
def earlierText? (path : String) (root : Entry) : Option String :=
  match root.ensureFolders (Path.ofText path).parent.parts.reverse with
  | .error _ => none
  | .ok folders =>
    if folders.has (Path.ofText path).parts then (folders.readText (Path.ofText path).text).toOption else none

/-- The document that saving at a path replaces, if there is one. -/
def earlier? (path : String) (root : Entry) : Option Value :=
  (earlierText? path root).bind fun text => (Value.parse text).toOption

/-- Whether a document is an object whose metadata, if it has any, are one too. -/
def hasHead (d : Value) : Bool := d.passesAt (· matches .object _) "metadata" (.object [])

theorem load_eq (now path : String) (root : Entry) :
    load now path root = (root.readText path).bind Value.parse >>= Graph.ofExport now := by
  cases h : root.readText path <;> simp [load, h, bind, Except.bind]

theorem isContained_found (path : String) (root : Entry) :
    isContained ((root.readText path).bind Value.parse) = true :=
  isContained_bind (root.isContained_readText path) fun text _ => Value.isContained_parse text

theorem load_of_found (h : found? path root = some d) : load now path root = Graph.ofExport now d := by
  rw [load_eq]
  unfold found? at h
  cases hread : (root.readText path).bind Value.parse with
  | error e =>
    rw [hread] at h
    cases h
  | ok d' =>
    rw [hread] at h
    cases h
    rfl

theorem found?_of_readText {text : String} (h : root.readText path = .ok text) :
    found? path root = (Value.parse text).toOption := by
  rw [found?, h]
  rfl

theorem found?_eq (path : String) (root : Entry) :
    found? path root = (root.readText path).toOption.bind fun text => (Value.parse text).toOption := by
  unfold found?
  cases root.readText path <;> rfl

theorem exists_error_of_not_found (h : found? path root = none) :
    ∃ e, load now path root = .error e ∧ e.isReported = true := by
  have hcontained := isContained_found path root
  rw [load_eq]
  unfold found? at h
  cases hread : (root.readText path).bind Value.parse with
  | error e =>
    rw [hread] at hcontained
    exact ⟨e, rfl, hcontained⟩
  | ok d =>
    rw [hread] at h
    cases h

/-- The time of the first snapshot can be read from documents with a head, and from no others. -/
theorem failsIf_createdIn (now : String) (d : Value) : FailsIf (!hasHead d) .notOffered (createdIn now d) := by
  cases d with
  | scalar k => exact Or.inl ⟨rfl, rfl⟩
  | list items => exact Or.inl ⟨rfl, rfl⟩
  | object entries =>
    have hcreated : createdIn now (.object entries) =
        (do return timeOr now (← ((lookup? (.text "metadata") entries).getD (.object [])).field "created_at")) := rfl
    have hhead : hasHead (.object entries) =
        (((lookup? (.text "metadata") entries).getD (.object [])) matches .object _) := rfl
    rw [hcreated, hhead]
    refine FailsIf.map ?_
    cases (lookup? (.text "metadata") entries).getD (.object []) with
    | scalar k => exact Or.inl ⟨rfl, rfl⟩
    | list items => exact Or.inl ⟨rfl, rfl⟩
    | object fields => exact Or.inr ⟨rfl, _, rfl⟩

theorem failsIf_firstCreated (now : String) (root : Entry) (p : Path) :
    FailsIf ((if root.has p.parts then found? p.text root else none).any (!hasHead ·)) .notOffered
      (firstCreated now root p) := by
  unfold firstCreated found?
  split
  · cases (root.readText p.text).bind Value.parse with
    | error e => exact Or.inr ⟨rfl, _, rfl⟩
    | ok d => exact failsIf_createdIn now d
  · exact Or.inr ⟨rfl, _, rfl⟩

theorem earlier?_of_error {t : FileTrouble}
    (h : root.ensureFolders (Path.ofText path).parent.parts.reverse = .error t) : earlier? path root = none := by
  rw [earlier?, earlierText?, h]
  rfl

theorem earlier?_of_ok {folders : Entry}
    (h : root.ensureFolders (Path.ofText path).parent.parts.reverse = .ok folders) :
    earlier? path root =
      if folders.has (Path.ofText path).parts then found? (Path.ofText path).text folders else none := by
  rw [earlier?, earlierText?, h, found?_eq]
  simp only
  split <;> rfl

/-- Saving a graph under texts breaks off only over a document without a head. -/
theorem isReported_of_save_iff (hl : g.Linked) (ht : g.TextIds) :
    (∀ e tree, (save now path g).run root = .error e tree → e.isReported = true) ↔
      ∀ d, earlier? path root = some d → hasHead d = true := by
  simp only [save, FileChange.run_get_bind, FileChange.run_set_bind, FileChange.run_check_bind, Graph.toExport,
    Graph.ordered_of_textIds hl ht]
  cases hfolders : root.ensureFolders (Path.ofText path).parent.parts.reverse with
  | error t =>
    rw [earlier?_of_error hfolders]
    refine iff_of_true (fun e tree h => ?_) fun d hd => by cases hd
    cases h
    rfl
  | ok folders =>
    rw [earlier?_of_ok hfolders]
    simp only [troubled]
    rcases failsIf_firstCreated now folders (Path.ofText path) with ⟨hbad, hcreated⟩ | ⟨hgood, created, hcreated⟩
    · rw [hcreated]
      refine iff_of_false (fun h => absurd (h _ _ rfl) Bool.false_ne_true) fun h => ?_
      obtain ⟨d, hd, hhead⟩ := (Option.any_eq_true _ _).1 hbad
      simp [h d hd] at hhead
    · rw [hcreated]
      refine iff_of_true (fun e tree h => ?_) fun d hd => ?_
      · simp only at h
        cases hwritten : folders.writeBytes (Path.ofText path).parts
            ((document g created now).write .readable).toUTF8 with
        | error t =>
          rw [hwritten] at h
          cases h
          rfl
        | ok tree' =>
          rw [hwritten] at h
          cases h
      · rw [hd] at hgood
        simpa using hgood

end Snapshot

namespace Command

variable {settings : Settings} {now path folder : String} {withPatterns : Bool} {tree : Entry} {i : Invocation}
  {args : List String}

/-- Whether a run ends as documented: it prints an answer and its exit code is 0, or its exit code is 1. -/
def Ends (r : EStateM.Result Fault Entry RunResult) : Prop :=
  ∃ result tree, r = .ok result tree ∧ ((∃ answer, result = ⟨0, printed answer⟩) ∨ result = ⟨1, ""⟩)

theorem ends_outcome_iff {answer : Checked Value} : Ends (outcome tree answer) ↔ isContained answer = true := by
  cases answer with
  | ok v => exact iff_of_true ⟨_, tree, rfl, Or.inl ⟨v, rfl⟩⟩ rfl
  | error e =>
    rw [outcome]
    by_cases he : e.isReported = true
    · rw [if_pos he]
      exact iff_of_true ⟨⟨1, ""⟩, tree, rfl, Or.inr rfl⟩ he
    · rw [if_neg he]
      refine iff_of_false ?_ he
      rintro ⟨result, tree', h, -⟩
      cases h

/-- A command ends as documented unless it breaks off for a cause that is not reported. -/
theorem ends_iff : Ends ((runCommand settings now i).run tree) ↔
    ∀ e tree', (execute settings now i).run tree = .error e tree' → e.isReported = true := by
  rw [runCommand, run_tryCatch, EStateM.run_bind]
  cases (execute settings now i).run tree with
  | ok answer tree' =>
    exact iff_of_true ⟨_, tree', rfl, Or.inl ⟨answer, rfl⟩⟩ fun e tree'' h => by cases h
  | error e tree' =>
    have houtcome : (if e.isReported then return ⟨1, ""⟩ else throw e : FileChange RunResult).run tree' =
        outcome tree' (.error e) := by
      rw [outcome]
      split <;> rfl
    change Ends ((if e.isReported then return ⟨1, ""⟩ else throw e : FileChange RunResult).run tree') ↔ _
    rw [houtcome, ends_outcome_iff]
    constructor
    · intro h e' tree'' heq
      cases heq
      exact h
    · exact fun h => h e tree' rfl

/-- Which builds end as documented: those without workers, and those that can read all sources and replace no
document without a head. -/
theorem ends_build_iff : Ends ((runCommand settings now ⟨path, .build folder withPatterns⟩).run tree) ↔
    (0 < settings.scanWorkers → Scan.hasUnreadable settings (Scan.folderAt tree folder) = false ∧
      ∀ d, Snapshot.earlier? path tree = some d → Snapshot.hasHead d = true) := by
  rw [ends_iff, execute, FileChange.run_get_bind]
  rcases Scan.analyses_cases settings (Scan.folderAt tree folder) with ⟨hnone, herror⟩ | ⟨hworkers, hfails⟩
  · -- without workers nothing is analysed, which is reported
    rw [Graph.run_build_of_error herror]
    refine iff_of_true (fun e tree' h => ?_) fun hworkers => absurd hworkers (by omega)
    cases h
    rfl
  rcases hfails with ⟨hbad, herror⟩ | ⟨hgood, analyses, hanalyses⟩
  · rw [Graph.run_build_of_error herror]
    refine iff_of_false (fun h => absurd (h _ _ rfl) Bool.false_ne_true) fun h => ?_
    cases hbad.symm.trans (h hworkers).1
  · obtain ⟨report, g, hbuild⟩ := Graph.exists_build now withPatterns hanalyses
    have hrecorded := Graph.recorded_of_build hbuild
    rw [hbuild, imp_iff_right hworkers, and_iff_right hgood,
      ← @Snapshot.isReported_of_save_iff now path tree g hrecorded.account.linked hrecorded.texts]
    simp only [EStateM.run_bind]
    cases (Snapshot.save now path g).run tree with
    | ok a tree' => exact iff_of_true (fun e tree'' h => by cases h) fun e tree'' h => by cases h
    | error e tree' =>
      constructor
      · rintro h _ _ ⟨⟩
        exact h e tree' rfl
      · rintro h _ _ ⟨⟩
        exact h e tree' rfl

/-- What a command other than a build works out from the graph that it loads. -/
theorem exists_answer_of_read (hread : Invocation.read settings args = .ok i)
    (hbuild : ∀ folder withPatterns, i.command ≠ .build folder withPatterns) :
    ∃ answer : Graph → Checked Value, (∀ g : Graph, g.Askable → (answer g).isOk = true) ∧
      ∀ now tree, (runCommand settings now i).run tree =
        outcome tree (Snapshot.load now i.snapshot tree >>= answer) := by
  obtain ⟨path, command⟩ := i
  cases command with
  | build folder withPatterns => exact absurd rfl (hbuild folder withPatterns)
  | stats => exact ⟨fun g => .ok g.stats.toValue, fun _ _ => rfl, fun _ _ => run_stats⟩
  | query kind filters limit =>
    obtain ⟨r, hr, hplain⟩ := exists_plain kind limit (Invocation.isPlainFilter_of_read hread rfl)
    refine ⟨fun g => do
      let r ← QueryRequest.read (request kind filters limit)
      return .list (← (QueryEngine.ofSettings settings g).answer settings r), fun g hg => ?_, fun _ _ => run_query⟩
    exact isOk_bind_ok hr <| isOk_bind (QueryEngine.isOk_answer hg hplain) fun _ _ => rfl

/-- The paths that an invocation names. -/
def paths (i : Invocation) : List String :=
  match i.command with
  | .build folder _ => [i.snapshot, folder]
  | _ => [i.snapshot]

/-- A tree of files with which a run neither meets the limit on recursion nor half of a surrogate pair, under
paths that files can have. Names of files and arguments are made of whole characters by their type; the
folders, the text in the snapshot and the text that saving replaces are held to it. -/
structure LegibleTree (limit : Nat) (i : Invocation) where
  root : Entry
  named : ∀ path ∈ paths i, '\x00' ∉ path.toList
  shallow : ∀ folder ∈ root.folderPaths [], folder.length ≤ limit
  asked : ∀ text, root.readText i.snapshot = .ok text → Document.Legible limit text
  replaced : ∀ text, Snapshot.earlierText? i.snapshot root = some text → Document.Legible limit text

def keptText : String :=
  "\x7b\"nodes\": [[\"a\", \x7b\"type\": \"concept\", \"name\": \"Cache\"\x7d]], \"metadata\": \x7b\x7d\x7d"

def keptTree : Entry := .folder [
  ("p", .folder [("a.py", .file "from . import b\n".toUTF8)]),
  ("graph_data.json", .file keptText.toUTF8)]

theorem readText_keptTree : keptTree.readText "graph_data.json" = .ok keptText :=
  Entry.readText_of_readBytes rfl (by decide) (by decide)

theorem earlierText?_keptTree : Snapshot.earlierText? "graph_data.json" keptTree = some keptText := by
  have hfolders : keptTree.ensureFolders (Path.ofText "graph_data.json").parent.parts.reverse = .ok keptTree := rfl
  have hhas : keptTree.has (Path.ofText "graph_data.json").parts = true := by decide
  have hpath : (Path.ofText "graph_data.json").text = "graph_data.json" := by decide
  rw [Snapshot.earlierText?, hfolders]
  simp only
  rw [if_pos hhas, hpath, readText_keptTree]
  rfl

/-- The text in the snapshot nests its brackets four deep. -/
def keptLegibly (command : Command) (named : ∀ path ∈ paths ⟨"graph_data.json", command⟩, '\x00' ∉ path.toList) :
    LegibleTree 4 ⟨"graph_data.json", command⟩ where
  root := keptTree
  named := named
  shallow := by decide
  asked text h := by
    rw [readText_keptTree] at h
    cases h
    exact ⟨by decide +kernel, by decide +kernel⟩
  replaced text h := by
    rw [earlierText?_keptTree] at h
    cases h
    exact ⟨by decide +kernel, by decide +kernel⟩

def listTree : Entry := .folder [("graph_data.json", .file "[]".toUTF8)]

end Command

end CodeAtlas
