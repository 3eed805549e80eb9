import CodeAtlas.Files.Scan
import CodeAtlas.Proofs.Files.Written
import Mathlib.Data.List.Nodup
import Mathlib.Data.List.Pairwise

/-! What a scan finds. The files below a folder that it looks for are told apart from the others by their paths
and sizes alone, and their order is an order on paths; so the list of them is unique, and the scan takes its
front, however the folders list their entries. -/

namespace CodeAtlas

namespace Entry

/-- Whether the names in every folder of a tree are different. -/
inductive Distinct : Entry → Prop
  | file {bytes} : Distinct (.file bytes)
  | deadLink : Distinct .deadLink
  | folder {entries} : (entries.map Prod.fst).Nodup → (∀ x ∈ entries, Distinct x.2) → Distinct (.folder entries)

/-- Whether two trees differ in nothing but the order in which folders list their entries. -/
inductive Relisted : Entry → Entry → Prop
  | refl {e} : Relisted e e
  | trans {e e' e''} : Relisted e e' → Relisted e' e'' → Relisted e e''
  | perm {entries entries'} : entries.Perm entries' → Relisted (.folder entries) (.folder entries')
  | inside {before after name e e'} : Relisted e e' →
      Relisted (.folder (before ++ (name, e) :: after)) (.folder (before ++ (name, e') :: after))

variable {e e' root root' : Entry} {entries entries' : List (String × Entry)} {name : String}
  {path : List String} {bytes : ByteArray}

theorem lookup_eq_some_iff (h : (entries.map Prod.fst).Nodup) :
    entries.lookup name = some e ↔ (name, e) ∈ entries := by
  induction entries with
  | nil => simp
  | cons x rest ih =>
    obtain ⟨other, e'⟩ := x
    rw [List.map_cons, List.nodup_cons] at h
    rw [lookup_cons_eq, List.mem_cons, Prod.mk.injEq]
    by_cases hname : name = other
    · have hrest : (name, e) ∉ rest := fun hmem => h.1 (hname ▸ List.mem_map.2 ⟨(name, e), hmem, rfl⟩)
      rw [if_pos hname, Option.some.injEq, or_iff_left hrest, and_iff_right hname, eq_comm]
    · rw [if_neg hname, ih h.2, or_iff_right fun heq => hname heq.1]

theorem get?_folder_iff (h : (entries.map Prod.fst).Nodup) :
    (folder entries).get? path = some (.file bytes) ↔
      ∃ name rest e, path = name :: rest ∧ (name, e) ∈ entries ∧ e.get? rest = some (.file bytes) := by
  cases path with
  | nil => simp [get?]
  | cons name rest =>
    simp only [get?, Option.bind_eq_some_iff, lookup_eq_some_iff h, List.cons.injEq]
    constructor
    · rintro ⟨e, hmem, hrest⟩
      exact ⟨name, rest, e, ⟨rfl, rfl⟩, hmem, hrest⟩
    · rintro ⟨_, _, e, ⟨rfl, rfl⟩, hmem, hrest⟩
      exact ⟨e, hmem, hrest⟩

@[simp] theorem distinct_file : (file bytes).Distinct := .file

@[simp] theorem distinct_deadLink : deadLink.Distinct := .deadLink

@[simp] theorem distinct_folder_iff :
    (folder entries).Distinct ↔ (entries.map Prod.fst).Nodup ∧ ∀ x ∈ entries, x.2.Distinct := by
  refine ⟨fun h => ?_, fun h => .folder h.1 h.2⟩
  cases h with
  | folder hnodup hall => exact ⟨hnodup, hall⟩

/-- Another order of listing changes neither that the names are different nor which files there are. -/
theorem Relisted.keeps (h : Relisted root root') (hroot : root.Distinct) :
    root'.Distinct ∧ ∀ path bytes, root'.get? path = some (.file bytes) ↔ root.get? path = some (.file bytes) := by
  induction h with
  | refl => exact ⟨hroot, fun _ _ => Iff.rfl⟩
  | trans _ _ ih ih' =>
    obtain ⟨hdistinct, hfiles⟩ := ih hroot
    obtain ⟨hdistinct', hfiles'⟩ := ih' hdistinct
    exact ⟨hdistinct', fun path bytes => (hfiles' path bytes).trans (hfiles path bytes)⟩
  | perm hperm =>
    obtain ⟨hnodup, hall⟩ := distinct_folder_iff.1 hroot
    have hnodup' := (hperm.map Prod.fst).nodup_iff.1 hnodup
    refine ⟨.folder hnodup' fun x hx => hall x (hperm.mem_iff.2 hx), fun path bytes => ?_⟩
    simp only [get?_folder_iff hnodup, get?_folder_iff hnodup', hperm.mem_iff]
  | @inside before after name e e' _ ih =>
    obtain ⟨hnodup, hall⟩ := distinct_folder_iff.1 hroot
    obtain ⟨hdistinct, hfiles⟩ := ih (hall (name, e) (by simp))
    have hkeys : (before ++ (name, e') :: after).map Prod.fst = (before ++ (name, e) :: after).map Prod.fst := by
      simp
    refine ⟨.folder (hkeys ▸ hnodup) fun x hx => ?_, fun path bytes => ?_⟩
    · rcases List.mem_append.1 hx with hx | hx
      · exact hall x (List.mem_append_left _ hx)
      · rcases List.mem_cons.1 hx with rfl | hx
        · exact hdistinct
        · exact hall x (List.mem_append_right _ (List.mem_cons_of_mem _ hx))
    · cases path with
      | nil => simp [get?]
      | cons other rest =>
        simp only [get?, List.lookup_append, lookup_cons_eq]
        cases before.lookup other with
        | some x => rfl
        | none =>
          by_cases hname : other = name
          · simpa [hname] using hfiles rest bytes
          · simp [hname]

theorem Relisted.isFolder_eq (h : Relisted root root') : root'.isFolder = root.isFolder := by
  induction h with
  | refl => rfl
  | trans _ _ ih ih' => exact ih'.trans ih
  | perm => rfl
  | inside => rfl

end Entry

namespace Scan

section Order

/-- Whether a scan comes to one path before another: where they part, the name of a file comes before that of a
folder, and of two files or two folders the one with the lesser name comes first. -/
inductive ComesBefore : List String → List String → Prop
  | files {a b} : a < b → ComesBefore [a] [b]
  | above {a b q} : q ≠ [] → ComesBefore [a] (b :: q)
  | folders {a b p q} : p ≠ [] → q ≠ [] → a < b → ComesBefore (a :: p) (b :: q)
  | inside {a p q} : ComesBefore p q → ComesBefore (a :: p) (a :: q)

variable {p q dir : List String}

theorem ComesBefore.ne_nil (h : ComesBefore p q) : p ≠ [] ∧ q ≠ [] := by
  cases h <;> simp

theorem ComesBefore.append (h : ComesBefore p q) : ComesBefore (dir ++ p) (dir ++ q) := by
  induction dir with
  | nil => exact h
  | cons a rest ih => exact .inside ih

theorem ComesBefore.asymm (h : ComesBefore p q) : ¬ ComesBefore q p := by
  induction h with
  | files hab =>
    intro h
    cases h with
    | files hba => exact String.lt_asymm hab hba
    | above hne => exact hne rfl
    | folders hne => exact hne rfl
    | inside h => exact h.ne_nil.1 rfl
  | above hne =>
    intro h
    cases h with
    | files => exact hne rfl
    | above => exact hne rfl
    | folders _ hnil => exact hnil rfl
    | inside h => exact h.ne_nil.2 rfl
  | folders hp hq hab =>
    intro h
    cases h with
    | files => exact hp rfl
    | above => exact hq rfl
    | folders _ _ hba => exact String.lt_asymm hab hba
    | inside => exact String.lt_irrefl _ hab
  | inside h ih =>
    intro h'
    cases h' with
    | files hlt => exact String.lt_irrefl _ hlt
    | above => exact h.ne_nil.2 rfl
    | folders _ _ hlt => exact String.lt_irrefl _ hlt
    | inside h' => exact ih h'

end Order

section Names

variable {α β : Type} {xs : List (String × α)}

theorem mem_byName {x : String × α} : x ∈ byName xs ↔ x ∈ xs := (List.mergeSort_perm xs _).mem_iff

theorem pairwise_byName (h : xs.Pairwise fun a b => a.1 ≠ b.1) : (byName xs).Pairwise fun a b => a.1 < b.1 := by
  have hsorted := @List.pairwise_mergeSort (String × α) (fun a b => a.1 ≤ b.1)
    (by simpa using fun a _ b _ c _ => String.le_trans) (by simpa using fun a _ b _ => String.le_total a b) xs
  have hdistinct := ((List.mergeSort_perm xs fun a b => a.1 ≤ b.1).pairwise_iff Ne.symm).2 h
  refine (hsorted.and hdistinct).imp fun {a b} hab => ?_
  exact String.not_le.1 fun hge => hab.2 (String.le_antisymm (by simpa using hab.1) hge)

end Names

section Walk

variable {dir : List String} {entries : List (String × Entry)} {root e : Entry} {f : ScannedFile}

/-- Whether a file lies below a folder, at a path from it, with no folder on the way that a scan stays out
of. -/
def Reaches (e : Entry) (path : List String) (size : Nat) : Prop :=
  (∃ bytes, e.get? path = some (.file bytes) ∧ size = bytes.size) ∧ ∀ name ∈ path.dropLast, isPruned name = false

theorem mem_filesIn : f ∈ filesIn dir entries ↔
    ∃ name bytes, (name, .file bytes) ∈ entries ∧ f = ⟨dir ++ [name], bytes.size⟩ := by
  simp only [filesIn, List.mem_map, mem_byName, List.mem_filterMap]
  constructor
  · rintro ⟨⟨name, size⟩, ⟨⟨other, e⟩, hmem, he⟩, rfl⟩
    cases e with
    | file bytes =>
      cases he
      exact ⟨name, bytes, hmem, rfl⟩
    | deadLink => cases he
    | folder => cases he
  · rintro ⟨name, bytes, hmem, rfl⟩
    exact ⟨(name, bytes.size), ⟨_, hmem, rfl⟩, rfl⟩

theorem walkSubfolders_eq : walkSubfolders dir entries =
    (entries.filter fun x => x.2.isFolder && !isPruned x.1).map fun x => (x.1, walk (dir ++ [x.1]) x.2) := by
  induction entries with
  | nil => rfl
  | cons x rest ih =>
    rw [walkSubfolders, List.filter_cons]
    split <;> simp [ih]

theorem mem_walkSubfolders {x : String × List ScannedFile} : x ∈ walkSubfolders dir entries ↔
    ∃ name e, (name, e) ∈ entries ∧ e.isFolder = true ∧ isPruned name = false ∧
      x = (name, walk (dir ++ [name]) e) := by
  simp only [walkSubfolders_eq, List.mem_map, List.mem_filter, Bool.and_eq_true, Bool.not_eq_true']
  constructor
  · rintro ⟨⟨name, e⟩, ⟨hmem, hfolder, hname⟩, rfl⟩
    exact ⟨name, e, hmem, hfolder, hname, rfl⟩
  · rintro ⟨name, e, hmem, hfolder, hname, rfl⟩
    exact ⟨(name, e), ⟨hmem, hfolder, hname⟩, rfl⟩

theorem walk_folder : walk dir (.folder entries) =
    filesIn dir entries ++ (byName (walkSubfolders dir entries)).flatMap Prod.snd := by
  rw [walk]

theorem Reaches.ne_nil {path : List String} {size : Nat} (h : Reaches e path size) (he : e.isFolder = true) :
    path ≠ [] := by
  rintro rfl
  obtain ⟨⟨bytes, hbytes, -⟩, -⟩ := h
  rw [Entry.get?] at hbytes
  cases hbytes
  cases he

/-- What a file below a folder is reached through: nothing, or a subfolder that is not pruned. -/
theorem reaches_folder_iff (h : (entries.map Prod.fst).Nodup) {path : List String} {size : Nat} :
    Reaches (.folder entries) path size ↔
      (∃ name bytes, path = [name] ∧ (name, .file bytes) ∈ entries ∧ size = bytes.size) ∨
      ∃ name rest e, path = name :: rest ∧ (name, e) ∈ entries ∧ e.isFolder = true ∧ isPruned name = false ∧
        Reaches e rest size := by
  unfold Reaches
  simp only [Entry.get?_folder_iff h]
  constructor
  · rintro ⟨⟨bytes, ⟨name, rest, e, rfl, hmem, hrest⟩, hsize⟩, hpruned⟩
    cases rest with
    | nil =>
      rw [Entry.get?] at hrest
      cases hrest
      exact Or.inl ⟨name, bytes, rfl, hmem, hsize⟩
    | cons next rest =>
      rw [List.dropLast_cons_of_ne_nil (List.cons_ne_nil _ _), List.forall_mem_cons] at hpruned
      have hfolder : e.isFolder = true := by
        cases e with
        | folder => rfl
        | file => cases hrest
        | deadLink => cases hrest
      exact Or.inr ⟨name, next :: rest, e, rfl, hmem, hfolder, hpruned.1, ⟨bytes, hrest, hsize⟩, hpruned.2⟩
  · rintro (⟨name, bytes, rfl, hmem, hsize⟩ | ⟨name, rest, e, rfl, hmem, hfolder, hname, hreaches⟩)
    · exact ⟨⟨bytes, ⟨name, [], _, rfl, hmem, by rw [Entry.get?]⟩, hsize⟩, by simp⟩
    · obtain ⟨⟨bytes, hrest, hsize⟩, hpruned⟩ := hreaches
      refine ⟨⟨bytes, ⟨name, rest, e, rfl, hmem, hrest⟩, hsize⟩, ?_⟩
      rw [List.dropLast_cons_of_ne_nil (Reaches.ne_nil ⟨⟨bytes, hrest, hsize⟩, hpruned⟩ hfolder)]
      exact List.forall_mem_cons.2 ⟨hname, hpruned⟩

/-- The walk through a folder finds the files that it reaches. -/
theorem mem_walk_iff (h : e.Distinct) (he : e.isFolder = true) :
    f ∈ walk dir e ↔ ∃ path, f.parts = dir ++ path ∧ Reaches e path f.size := by
  induction h generalizing dir f with
  | file => cases he
  | deadLink => cases he
  | @folder entries hnodup _ ih =>
    rw [walk_folder, List.mem_append, mem_filesIn, List.mem_flatMap]
    simp only [reaches_folder_iff hnodup, mem_byName, mem_walkSubfolders]
    constructor
    · rintro (⟨name, bytes, hmem, rfl⟩ | ⟨_, ⟨name, e, hmem, hfolder, hname, rfl⟩, hf⟩)
      · exact ⟨[name], rfl, Or.inl ⟨name, bytes, rfl, hmem, rfl⟩⟩
      · obtain ⟨rest, hparts, hreaches⟩ := (ih (name, e) hmem hfolder).1 hf
        exact ⟨name :: rest, by simpa using hparts, Or.inr ⟨name, rest, e, rfl, hmem, hfolder, hname, hreaches⟩⟩
    · rintro ⟨path, hparts, ⟨name, bytes, rfl, hmem, hsize⟩ | ⟨name, rest, e, rfl, hmem, hfolder, hname, hreaches⟩⟩
      · exact Or.inl ⟨name, bytes, hmem, by rw [← hparts, ← hsize]⟩
      · exact Or.inr ⟨_, ⟨name, e, hmem, hfolder, hname, rfl⟩,
          (ih (name, e) hmem hfolder).2 ⟨rest, by simpa using hparts, hreaches⟩⟩

theorem pairwise_filesIn (h : (entries.map Prod.fst).Nodup) :
    (filesIn dir entries).Pairwise fun f g => ComesBefore f.parts g.parts := by
  refine List.pairwise_map.2 ((pairwise_byName ?_).imp fun hlt => (ComesBefore.files hlt).append)
  refine List.pairwise_filterMap.2 ((List.pairwise_map.1 h).imp ?_)
  rintro ⟨name, _ | _ | _⟩ ⟨name', _ | _ | _⟩ hne
  all_goals simp [hne]

/-- The walk through a folder comes to its files one before the other. -/
theorem pairwise_walk (h : e.Distinct) : (walk dir e).Pairwise fun f g => ComesBefore f.parts g.parts := by
  induction h generalizing dir with
  | file => simp [walk]
  | deadLink => simp [walk]
  | @folder entries hnodup hall ih =>
    -- the path of what lies in a subfolder goes on behind the name of the subfolder
    have hbelow : ∀ x ∈ byName (walkSubfolders dir entries), ∀ f ∈ x.2,
        ∃ rest, f.parts = dir ++ x.1 :: rest ∧ rest ≠ [] := by
      intro x hx f hf
      obtain ⟨name, e, hmem, hfolder, -, rfl⟩ := mem_walkSubfolders.1 (mem_byName.1 hx)
      obtain ⟨rest, hparts, hreaches⟩ := (mem_walk_iff (hall _ hmem) hfolder).1 hf
      exact ⟨rest, by simpa using hparts, hreaches.ne_nil hfolder⟩
    have hnames : (walkSubfolders dir entries).Pairwise fun x y => x.1 ≠ y.1 := by
      rw [walkSubfolders_eq, List.pairwise_map]
      exact (List.pairwise_map.1 hnodup).filter _
    rw [walk_folder, List.pairwise_append]
    refine ⟨pairwise_filesIn hnodup, List.pairwise_flatMap.2 ⟨?_, ?_⟩, ?_⟩
    · intro x hx
      obtain ⟨name, e, hmem, -, -, rfl⟩ := mem_walkSubfolders.1 (mem_byName.1 hx)
      exact ih _ hmem
    · refine (pairwise_byName hnames).imp_of_mem fun hx hy hlt f hf g hg => ?_
      obtain ⟨p, hp, hpne⟩ := hbelow _ hx f hf
      obtain ⟨q, hq, hqne⟩ := hbelow _ hy g hg
      rw [hp, hq]
      exact (ComesBefore.folders hpne hqne hlt).append
    · intro f hf g hg
      obtain ⟨name, bytes, -, rfl⟩ := mem_filesIn.1 hf
      obtain ⟨x, hx, hg⟩ := List.mem_flatMap.1 hg
      obtain ⟨q, hq, hqne⟩ := hbelow x hx g hg
      rw [hq]
      exact (ComesBefore.above hqne).append

end Walk

section Listing

variable {settings : Settings} {root root' : Entry} {all all' : List ScannedFile} {f : ScannedFile}

/-- Whether a file below the root is one that a scan looks for: its ending is supported in lower case, it is
within the size limit, and no folder on the way to it is hidden or ignored. -/
structure IsSought (settings : Settings) (root : Entry) (f : ScannedFile) : Prop where
  held : ∃ bytes, root.get? f.parts = some (.file bytes) ∧ f.size = bytes.size
  supported : f.suffix ∈ settings.extensions.map Text.lowerText
  within : (f.size : Int) ≤ settings.maxFileSizeMb * 1024 * 1024
  inOpen : ∀ name ∈ f.parts.dropLast, name.toList.head? ≠ some '.' ∧ name ∉ ignoredFolders

/-- Whether a list holds what a scan looks for, in the order in which a scan comes to it. -/
structure IsListing (settings : Settings) (root : Entry) (all : List ScannedFile) : Prop where
  mem_iff : ∀ f, f ∈ all ↔ IsSought settings root f
  ordered : all.Pairwise fun f g => ComesBefore f.parts g.parts

theorem IsListing.nodup (h : IsListing settings root all) : all.Nodup :=
  h.ordered.imp fun hbefore heq => (heq ▸ hbefore).asymm (heq ▸ hbefore)

theorem IsListing.eq (h : IsListing settings root all) (h' : IsListing settings root all') : all' = all := by
  have hperm := (List.perm_ext_iff_of_nodup h'.nodup h.nodup).2 fun f => (h'.mem_iff f).trans (h.mem_iff f).symm
  exact hperm.eq_of_pairwise (fun _ _ _ _ hab hba => absurd hba hab.asymm) h'.ordered h.ordered

theorem isPruned_eq_false_iff {name : String} :
    isPruned name = false ↔ name.toList.head? ≠ some '.' ∧ name ∉ ignoredFolders := by
  simp [isPruned]

theorem isSought_iff : IsSought settings root f ↔ Reaches root f.parts f.size ∧ isEligible settings f = true := by
  simp only [Reaches, isEligible, isPruned_eq_false_iff, Bool.and_eq_true, decide_eq_true_eq, List.contains_iff_mem]
  exact ⟨fun h => ⟨⟨h.held, h.inOpen⟩, h.supported, h.within⟩, fun h => ⟨h.1.1, h.2.1, h.2.2, h.1.2⟩⟩

theorem isListing_filter_walk (settings : Settings) (h : root.Distinct) (hroot : root.isFolder = true) :
    IsListing settings root ((walk [] root).filter (isEligible settings)) where
  mem_iff f := by
    rw [List.mem_filter, mem_walk_iff h hroot, isSought_iff]
    simp
  ordered := (pairwise_walk h).filter _

theorem IsListing.congr (h : IsListing settings root all)
    (hfiles : ∀ path bytes, root'.get? path = some (.file bytes) ↔ root.get? path = some (.file bytes)) :
    IsListing settings root' all where
  mem_iff f := by simp only [h.mem_iff, isSought_iff, Reaches, hfiles]
  ordered := h.ordered

/-- A scan finds the front, as long as its cap, of the one listing of the folder, and finds the same in whatever
order folders list their entries. -/
theorem files_of_scan (settings : Settings) {entries : List (String × Entry)}
    (h : (Entry.folder entries).Distinct) :
    ∃ all, IsListing settings (.folder entries) all ∧ all.Nodup ∧
      (∀ all', IsListing settings (.folder entries) all' → all' = all) ∧
      (∀ cap : ℕ, files settings cap (.folder entries) = all.take cap) ∧
      ∀ (cap : ℕ) (root : Entry), (Entry.folder entries).Relisted root →
        files settings cap root = files settings cap (.folder entries) := by
  have hlisting := isListing_filter_walk settings h rfl
  refine ⟨_, hlisting, hlisting.nodup, fun _ => hlisting.eq, fun cap => rfl, fun cap root hroot => ?_⟩
  obtain ⟨hdistinct, hfiles⟩ := hroot.keeps h
  have hrelisted := isListing_filter_walk settings hdistinct hroot.isFolder_eq
  rw [files, files, (hlisting.congr hfiles).eq hrelisted]

/-- A folder with a hidden and an ignored folder, a dead link, a file that is too large and one of another ending
below it. -/
def mixedFolder : List (String × Entry) := [
  ("web", .folder [
    ("lib", .folder [("dist", .folder [("a.py", .file .empty)]), ("c.py", .file .empty)]),
    ("b.py", .file .empty), ("B.PY", .file .empty)]),
  (".git", .folder [("a.py", .file .empty)]),
  ("z.py", .file .empty), ("a.py", .deadLink), ("large.py", .file ⟨#[0]⟩), ("notes.txt", .file .empty)]

theorem files_of_mixedFolder :
    (Entry.folder mixedFolder).Distinct ∧ (Entry.folder mixedFolder).Relisted (.folder mixedFolder.reverse) ∧
    (files { maxFileSizeMb := 0 } (3 : ℕ) (.folder mixedFolder.reverse)).map ScannedFile.path =
      ["z.py", "web/B.PY", "web/b.py"] := by
  have hdistinct : (Entry.folder mixedFolder).Distinct := by simp [mixedFolder]
  have hrelisted : (Entry.folder mixedFolder).Relisted (.folder mixedFolder.reverse) :=
    .perm (List.reverse_perm _).symm
  obtain ⟨all, -, -, -, -, hsame⟩ := files_of_scan { maxFileSizeMb := 0 } hdistinct
  refine ⟨hdistinct, hrelisted, ?_⟩
  have hwalk : walk [] (.folder mixedFolder) =
      [⟨["large.py"], 1⟩, ⟨["notes.txt"], 0⟩, ⟨["z.py"], 0⟩, ⟨["web", "B.PY"], 0⟩, ⟨["web", "b.py"], 0⟩,
        ⟨["web", "lib", "c.py"], 0⟩] := by
    simp [mixedFolder, walk, walkSubfolders, filesIn, byName, isPruned, ignoredFolders, Entry.isFolder,
      List.mergeSort]
    rfl
  rw [hsame 3 _ hrelisted, files, hwalk]
  decide +kernel

end Listing

end Scan

end CodeAtlas
