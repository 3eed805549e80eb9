import CodeAtlas.Proofs.Files.Paths
import CodeAtlas.Proofs.Graph.RoundTrip
import CodeAtlas.Proofs.Graph.Saved
import CodeAtlas.Proofs.Value.ReadsBack

/-! Saving over and over at one path. A save reads no more of the document before it than the time of the first one,
and hands that on; all else that it writes is the export of its own graph and its own time. So the file holds
the document of the last save under the time of the first, whatever else happens to the other files. -/

namespace CodeAtlas.Snapshot

variable {now now' path created : String} {g g' : Graph} {root folders tree : Entry} {d v : Value}

def Holds (path : String) (d : Value) (tree : Entry) : Prop :=
  tree.readBytes (Path.ofText path).parts = .ok (d.write .readable).toUTF8

/-- Whether a document is read back as it was written. -/
def ReadsBack (d : Value) : Prop := Value.parse (d.write .readable) = .ok d

theorem toExport_eq_ok (h : g.toExport.isOk = true) : g.toExport = .ok g.toValue := by
  unfold Graph.toExport Graph.ordered at h ⊢
  split at h
  · rename_i horderable
    exact if_pos horderable
  · cases h

theorem exists_document (g : Graph) (v : Value) (now : String) :
    ∃ exported, g.toValue = .object exported ∧
      document g v now = .object (exported ++ [
        (.text "metadata", .fields [("version", .text version), ("created_at", v), ("updated_at", .text now)])]) := by
  refine ⟨g.toFields.map fun e => (.text e.1, e.2), rfl, ?_⟩
  rw [document, Value.fields, List.map_append]
  rfl

section Step

theorem Holds.readText (h : Holds path d tree) (hne : (Path.ofText path).parts ≠ []) :
    tree.readText (Path.ofText path).text = .ok (d.write .readable) := by
  obtain ⟨hparts, hempty, hslash⟩ := Path.text_spec hne
  refine Entry.readText_of_readBytes ?_ hempty hslash
  rw [hparts]
  exact h

theorem firstCreated_of_parse {p : Path} {text : String} (hhas : root.has p.parts = true)
    (hread : root.readText p.text = .ok text) (hparse : Value.parse text = .ok d) :
    firstCreated now root p = createdIn now d := by
  have hfound : (root.readText p.text).bind Value.parse = .ok d := by
    rw [hread]
    exact hparse
  rw [firstCreated, if_pos hhas, hfound]

theorem createdIn_document (g : Graph) (now now' : String) (hcreated : created ≠ "") :
    createdIn now' (document g (.text created) now) = .ok (.text created) := by
  have hread : createdIn now' (document g (.text created) now) = .ok (timeOr now' (.text created)) := rfl
  rw [hread, timeOr_eq (Value.isFalsy_text hcreated)]

/-- With the folders above there, a time to write down and a place to write to, a save goes well. -/
theorem exists_save (hfolders : root.ensureFolders (Path.ofText path).parent.parts.reverse = .ok folders)
    (hcreated : firstCreated now folders (Path.ofText path) = .ok v) (hexport : g.toExport.isOk = true)
    (hwrite : ∀ bytes, ∃ tree, folders.writeBytes (Path.ofText path).parts bytes = .ok tree) :
    ∃ tree, (save now path g).run root = .ok () tree ∧ Holds path (document g v now) tree := by
  cases hexported : g.toExport with
  | error e =>
    rw [hexported] at hexport
    cases hexport
  | ok exported =>
    obtain ⟨tree, htree⟩ := hwrite ((document g v now).write .readable).toUTF8
    refine ⟨tree, ?_, Entry.readBytes_of_writeBytes htree⟩
    simp only [save, FileChange.run_get_bind, FileChange.run_set_bind, FileChange.run_check_bind_eq_ok]
    exact ⟨folders, troubled_eq_ok.2 hfolders, v, hcreated, exported, hexported, tree, troubled_eq_ok.2 htree, rfl⟩

theorem exists_first_save (hroot : root.isFolder = true)
    (hfolders : root.ensureFolders (Path.ofText path).parent.parts.reverse = .ok folders)
    (hfree : folders.has (Path.ofText path).parts = false) (hexport : g.toExport.isOk = true) :
    ∃ tree, (save now path g).run root = .ok () tree ∧ Holds path (document g (.text now) now) tree := by
  refine exists_save hfolders ?_ hexport (Entry.exists_writeBytes_of_not_has hroot hfolders hfree).2
  rw [firstCreated, hfree]
  rfl

/-- A save over a document keeps the time of the first one, and nothing else of the document. -/
theorem exists_next_save (hname : ∃ ps name, (Path.ofText path).parts = ps ++ [name] ∧ name ≠ "..")
    (h : Holds path (document g (.text created) now) tree) (hreads : ReadsBack (document g (.text created) now))
    (hcreated : created ≠ "") (hexport : g'.toExport.isOk = true) :
    ∃ tree', (save now' path g').run tree = .ok () tree' ∧ Holds path (document g' (.text created) now') tree' := by
  obtain ⟨ps, name, hparts, hname⟩ := hname
  have hfolders : tree.ensureFolders (Path.ofText path).parent.parts.reverse = .ok tree := by
    change tree.ensureFolders (Path.ofText path).parts.dropLast.reverse = .ok tree
    rw [Holds, hparts] at h
    rw [hparts, List.dropLast_concat]
    exact Entry.ensureFolders_of_readBytes hname h
  refine exists_save hfolders ?_ hexport (Entry.exists_writeBytes_of_readBytes h)
  rw [firstCreated_of_parse (Entry.has_of_readBytes h) (h.readText (by simp [hparts])) hreads]
  exact createdIn_document g now now' hcreated

end Step

/-- A save of a graph at a time, and what happens to the files after it. -/
structure Saving where
  now : String
  graph : Graph
  afterwards : Entry → Entry

/-- Saves at one path, one after the other. -/
def saveAll (path : String) : List Saving → FileChange Unit
  | [] => pure ()
  | s :: rest => do
    save s.now path s.graph
    modify s.afterwards
    saveAll path rest

/-- Whether a change of the files leaves alone what is written at a path. -/
def Spares (path : String) (change : Entry → Entry) : Prop :=
  ∀ tree bytes, tree.readBytes (Path.ofText path).parts = .ok bytes →
    (change tree).readBytes (Path.ofText path).parts = .ok bytes

section Run

variable {s first last : Saving} {saves : List Saving}

theorem run_saveAll_cons (h : (save s.now path s.graph).run root = .ok () tree) :
    (saveAll path (s :: saves)).run root = (saveAll path saves).run (s.afterwards tree) := by
  rw [saveAll, EStateM.run_bind, h]
  rfl

/-- All saves over a document go well, and the file holds the document of the last one under the time that was handed
on. -/
theorem exists_saveAll (hname : ∃ ps name, (Path.ofText path).parts = ps ++ [name] ∧ name ≠ "..")
    (hcreated : created ≠ "") (hs : Holds path (document s.graph (.text created) s.now) tree)
    (hexport : ∀ s' ∈ saves, s'.graph.toExport.isOk = true) (hspares : ∀ s' ∈ saves, Spares path s'.afterwards)
    (hreads : ∀ s' ∈ s :: saves, ReadsBack (document s'.graph (.text created) s'.now)) :
    ∃ tree', (saveAll path saves).run tree = .ok () tree' ∧
      Holds path (document (saves.getLast?.getD s).graph (.text created) (saves.getLast?.getD s).now) tree' := by
  induction saves generalizing s tree with
  | nil => exact ⟨tree, rfl, hs⟩
  | cons next saves ih =>
    obtain ⟨hexport, hexportLater⟩ := List.forall_mem_cons.1 hexport
    obtain ⟨hspares, hsparesLater⟩ := List.forall_mem_cons.1 hspares
    obtain ⟨hreads, hreadsLater⟩ := List.forall_mem_cons.1 hreads
    obtain ⟨tree₁, hsave, hholds⟩ := exists_next_save hname hs hreads hcreated hexport
    obtain ⟨tree', hrun, hlast⟩ := ih (hspares _ _ hholds) hexportLater hsparesLater hreadsLater
    refine ⟨tree', (run_saveAll_cons hsave).trans hrun, ?_⟩
    rwa [List.getLast?_cons, Option.getD_some]

/-- Saving is repeatable. Let graphs that can be exported be saved at one path, where nothing is at first once the
folders above have been made; in between, anything may happen to the files that leaves what is written
there alone. If documents are read back as they were written, all the saves go well. What the file then
holds is the export of the last graph, with the time of the first save and that of the last one. -/
theorem document_of_saves (hroot : root.isFolder = true)
    (hfolders : root.ensureFolders (Path.ofText path).parent.parts.reverse = .ok folders)
    (hfree : folders.has (Path.ofText path).parts = false)
    (hfirst : saves.head? = some first) (hlast : saves.getLast? = some last) (hnow : first.now ≠ "")
    (hexport : ∀ s ∈ saves, s.graph.toExport.isOk = true) (hspares : ∀ s ∈ saves, Spares path s.afterwards)
    (hreads : ∀ s ∈ saves, ReadsBack (document s.graph (.text first.now) s.now)) :
    ∃ tree, (saveAll path saves).run root = .ok () tree ∧
      ∃ exported, last.graph.toExport = .ok (.object exported) ∧
        tree.readText (Path.ofText path).text >>= Value.parse = .ok (.object (exported ++ [
          (.text "metadata", .fields [
            ("version", .text version), ("created_at", .text first.now), ("updated_at", .text last.now)])])) := by
  have hmem : last ∈ saves := List.mem_of_getLast? hlast
  obtain ⟨later, rfl⟩ := List.head?_eq_some_iff.1 hfirst
  have hname := (Entry.exists_writeBytes_of_not_has hroot hfolders hfree).1
  have hne : (Path.ofText path).parts ≠ [] := by
    obtain ⟨ps, name, hparts, -⟩ := hname
    simp [hparts]
  obtain ⟨tree₁, hsave, hholds⟩ := exists_first_save hroot hfolders hfree (hexport first List.mem_cons_self)
  obtain ⟨tree, hrun, hholds⟩ := exists_saveAll hname hnow
    (hspares first List.mem_cons_self _ _ hholds) (fun s hs => hexport s (List.mem_cons_of_mem _ hs))
    (fun s hs => hspares s (List.mem_cons_of_mem _ hs)) hreads
  rw [List.getLast?_cons] at hlast
  rw [Option.some.inj hlast] at hholds
  obtain ⟨exported, hexported, hdocument⟩ := exists_document last.graph (.text first.now) last.now
  refine ⟨tree, (run_saveAll_cons hsave).trans hrun, exported, ?_, ?_⟩
  · rw [toExport_eq_ok (hexport last hmem), hexported]
  · rw [← hdocument]
    exact Except.bind_eq_ok.2 ⟨_, hholds.readText hne, hreads last hmem⟩

/-- A file written beside the folder of a path is spared. -/
theorem spares_put_notes (e : Entry) : Spares "out/graph.json" (·.put ["notes.txt"] e) := by
  have hparts : (Path.ofText "out/graph.json").parts = ["out", "graph.json"] := by decide
  intro tree bytes h
  have hget : ∀ rest, (tree.put ["notes.txt"] e).get? ("out" :: rest) = tree.get? ("out" :: rest) := fun rest =>
    Entry.get?_put_of_ne (by decide) [] rest e
  rw [hparts, Entry.readBytes_eq_ok] at h ⊢
  obtain ⟨place, hplace, hfile⟩ := h
  rw [Entry.resolve_cons_iff (by decide) (by simp), Entry.resolve_singleton (by decide)] at hplace
  obtain ⟨⟨entries, hout⟩, hplace⟩ := hplace
  cases hplace
  have hfolder : (tree.put ["notes.txt"] e).IsFolderAt ["out"] := ⟨entries, (hget []).trans hout⟩
  refine ⟨["out", "graph.json"], ?_, (hget ["graph.json"]).trans hfile⟩
  exact (Entry.resolve_cons_iff (by decide) (by simp)).2 ⟨hfolder, Entry.resolve_singleton (by decide)⟩

def fileGraph : Graph := .ofDrafts "t0" [("a", ⟨.file, some (.text "a.py"), ∅, 1.0⟩)]

def conceptGraph : Graph := .ofDrafts "t0" [("c", ⟨.concept, some (.text "Cache"), ∅, 0.5⟩)]

/-- A graph is saved over another, and between the saves a file is written elsewhere. -/
theorem document_of_two_saves :
    ∃ tree, (saveAll "out/graph.json" [⟨"t1", fileGraph, (·.put ["notes.txt"] (.file ⟨#[]⟩))⟩,
        ⟨"t2", conceptGraph, id⟩]).run .emptyFolder = .ok () tree ∧
      ∃ exported, conceptGraph.toExport = .ok (.object exported) ∧
        tree.readText (Path.ofText "out/graph.json").text >>= Value.parse = .ok (.object (exported ++ [
          (.text "metadata", .fields [
            ("version", .text version), ("created_at", .text "t1"), ("updated_at", .text "t2")])])) := by
  refine @document_of_saves "out/graph.json" .emptyFolder _
    ⟨"t1", fileGraph, (·.put ["notes.txt"] (.file ⟨#[]⟩))⟩ ⟨"t2", conceptGraph, id⟩ _ rfl rfl rfl rfl rfl (by decide)
    ?_ ?_ ?_
  · decide +kernel
  · exact List.forall_mem_cons.2 ⟨spares_put_notes _, List.forall_mem_singleton.2 fun _ _ h => h⟩
  · refine List.forall_mem_cons.2 ⟨?_, List.forall_mem_singleton.2 ?_⟩
    · exact Value.parse_write_of_readsBack (by decide +kernel)
    · exact Value.parse_write_of_readsBack (by decide +kernel)

end Run

end CodeAtlas.Snapshot
