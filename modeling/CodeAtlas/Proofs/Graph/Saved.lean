import CodeAtlas.Graph.Snapshot
import CodeAtlas.Proofs.Files.Written

/-! Saving a graph and loading it again. What is written is the export with a head, and it is the export that is
read back, as far as documents can be read back at all. -/

namespace CodeAtlas

namespace FileChange

variable {α β : Type} {tree tree' : Entry} {b : β}

theorem run_get_bind {f : Entry → FileChange β} : ((get : FileChange Entry) >>= f).run tree = (f tree).run tree :=
  rfl

theorem run_set_bind {f : PUnit → FileChange β} :
    ((set tree' : FileChange PUnit) >>= f).run tree = (f ⟨⟩).run tree' := rfl

theorem run_check_bind {x : Checked α} {f : α → FileChange β} :
    (check x >>= f).run tree =
      match x with
      | .ok a => (f a).run tree
      | .error e => .error e tree := by
  cases x <;> rfl

theorem run_check_bind_eq_ok {x : Checked α} {f : α → FileChange β} :
    (check x >>= f).run tree = .ok b tree' ↔ ∃ a, x = .ok a ∧ (f a).run tree = .ok b tree' := by
  cases x with
  | ok a =>
    constructor
    · exact fun h => ⟨a, rfl, h⟩
    · rintro ⟨_, ha, h⟩
      cases ha
      exact h
  | error e => exact iff_of_false nofun nofun

theorem check_bind {x : Checked α} {f : α → Checked β} :
    check (x >>= f) = check x >>= fun a => check (f a) := by
  cases x <;> rfl

end FileChange

theorem troubled_eq_ok {α : Type} {x : Except FileTrouble α} {a : α} : troubled x = .ok a ↔ x = .ok a := by
  cases x <;> simp [troubled]

namespace Snapshot

variable {now path : String} {g : Graph} {root tree : Entry} {d : Value}

/-- The document that is written when a graph is saved over the files that are there. -/
def documentAt (now path : String) (g : Graph) (root : Entry) : Checked Value := do
  let folders ← troubled (root.ensureFolders (Path.ofText path).parent.parts.reverse)
  return document g (← firstCreated now folders (Path.ofText path)) now

theorem exists_document_of_save (h : (save now path g).run root = .ok () tree) :
    ∃ d, ∃ folders : Entry, documentAt now path g root = .ok d ∧
      folders.writeBytes (Path.ofText path).parts (d.write .readable).toUTF8 = .ok tree := by
  simp only [save, FileChange.run_get_bind, FileChange.run_set_bind, FileChange.run_check_bind_eq_ok] at h
  obtain ⟨folders, hfolders, created, hcreated, _, -, tree', hwritten, h⟩ := h
  cases h
  refine ⟨document g created now, folders, ?_, troubled_eq_ok.1 hwritten⟩
  exact Except.bind_eq_ok.2 ⟨folders, hfolders, Except.bind_eq_ok.2 ⟨created, hcreated, rfl⟩⟩

/-- What has been saved is loaded under every name of the file, as far as documents can be read back. -/
theorem load_of_save (h : (save now path g).run root = .ok () tree)
    (hjson : ∀ d, documentAt now path g root = .ok d → Value.parse (d.write .readable) = .ok d)
    {now' path' : String} (hpath : Path.ofText path' = Path.ofText path) (hempty : path' ≠ "")
    (hslash : path'.toList.getLast? ≠ some '/') :
    load now' path' tree = Graph.ofExport now' g.toValue := by
  obtain ⟨d, folders, hd, hwritten⟩ := exists_document_of_save h
  rw [← hpath] at hwritten
  rw [load, Entry.readText_of_writeBytes hwritten hempty hslash]
  change Value.parse (d.write .readable) >>= Graph.ofExport now' = _
  rw [hjson d hd]
  obtain ⟨_, -, hd⟩ := Except.bind_eq_ok.1 hd
  obtain ⟨_, -, hd⟩ := Except.bind_eq_ok.1 hd
  cases hd
  rfl

end Snapshot

end CodeAtlas
