import CodeAtlas.Files.Tree
import CodeAtlas.Proofs.Graph.Change

/-! Reading back a file that has been written. Writing a file takes no folder away, so a path leads where it
led before, and the place now holds the bytes written. -/

namespace CodeAtlas

theorem utf8Decode?_toUTF8 (s : String) : Text.utf8Decode? s.toUTF8 = some s := by
  unfold Text.utf8Decode? String.fromUTF8?
  rw [String.toUTF8_eq_toByteArray, dif_pos s.isValidUTF8]
  rfl

namespace Entry

variable {root new : Entry} {here place parts : List String}

theorem lookup_cons_eq {name other : String} {e : Entry} {entries : List (String × Entry)} :
    ((name, e) :: entries).lookup other = if other = name then some e else entries.lookup other := by
  rw [List.lookup_cons]
  by_cases h : other = name <;> simp [h, beq_eq_false_iff_ne.2]

theorem lookup_putNamed {name other : String} {e : Entry} {entries : List (String × Entry)} :
    (putNamed name e entries).lookup other = if other = name then some e else entries.lookup other := by
  induction entries with
  | nil => exact lookup_cons_eq
  | cons x rest ih =>
    obtain ⟨n, v⟩ := x
    rw [putNamed, lookup_cons_eq]
    split
    · rename_i hn
      cases hn
      rw [lookup_cons_eq]
      split <;> rfl
    · rename_i hn
      rw [lookup_cons_eq, ih]
      by_cases h : other = n
      · rw [if_pos h, if_neg fun h' => hn (h.symm.trans h'), if_pos h]
      · rw [if_neg h, if_neg h]

theorem get?_put (root : Entry) (place : List String) (new : Entry) :
    (root.put place new).get? place = some new := by
  induction root, place, new using put.induct with
  | case1 root new => rw [put, get?]
  | case2 entries name rest new ih => rw [put, get?, lookup_putNamed, if_pos rfl, Option.bind_some, ih]
  | case3 root name rest new hroot ih =>
    rw [put, get?, List.lookup_cons, beq_self_eq_true, Option.bind_some, ih]
    exact hroot

def IsFolderAt (root : Entry) (q : List String) : Prop := ∃ entries, root.get? q = some (folder entries)

theorem not_isFolderAt_of_not_folder (hroot : ∀ entries, root ≠ folder entries) (q : List String) :
    ¬ root.IsFolderAt q := by
  rintro ⟨entries, hq⟩
  cases root with
  | folder es => exact hroot es rfl
  | file bytes => cases q <;> simp [get?] at hq
  | deadLink => cases q <;> simp [get?] at hq

theorem isFolderAt_cons {name : String} {entries : List (String × Entry)} {q : List String} :
    (folder entries).IsFolderAt (name :: q) ↔ ∃ e, entries.lookup name = some e ∧ e.IsFolderAt q := by
  unfold IsFolderAt
  rw [get?]
  cases entries.lookup name <;> simp

/-- A folder stays one when something is put where there is none. -/
theorem isFolderAt_put {q : List String} (hplace : ¬ root.IsFolderAt place) (hq : root.IsFolderAt q) :
    (root.put place new).IsFolderAt q := by
  induction root, place, new using put.induct generalizing q with
  | case1 root new =>
    have hroot : ∀ entries, root ≠ folder entries := fun entries h => hplace ⟨entries, congrArg some h⟩
    exact absurd hq (not_isFolderAt_of_not_folder hroot q)
  | case2 entries name rest new ih =>
    cases q with
    | nil => exact ⟨_, rfl⟩
    | cons other below =>
      rw [isFolderAt_cons] at hplace hq
      rw [put, isFolderAt_cons]
      obtain ⟨e, he, hbelow⟩ := hq
      rw [lookup_putNamed]
      by_cases hname : other = name
      · rw [hname] at he
        rw [he, Option.getD_some] at ih ⊢
        exact ⟨_, if_pos hname, ih (fun h => hplace ⟨e, he, h⟩) hbelow⟩
      · exact ⟨e, (if_neg hname).trans he, hbelow⟩
  | case3 root name rest new hroot ih => exact absurd hq (not_isFolderAt_of_not_folder hroot q)

/-- A path goes on through a folder. -/
theorem resolve_cons_iff {name : String} {found : List String} (hname : name ≠ "..") (hparts : parts ≠ []) :
    root.resolve here (name :: parts) = .ok found ↔
      root.IsFolderAt (here ++ [name]) ∧ root.resolve (here ++ [name]) parts = .ok found := by
  rw [resolve]
  · unfold IsFolderAt
    split
    · rename_i entries hfolder
      simp [hfolder]
    · rename_i bytes hfile
      simp [hfile]
    · rename_i hnone _
      refine iff_of_false nofun ?_
      rintro ⟨⟨entries, hfolder⟩, -⟩
      exact hnone entries hfolder
  · exact fun h => hname h
  · exact fun h => hparts h

/-- A path leads where it led before something was put where there is no folder. -/
theorem resolve_put (hplace : ¬ root.IsFolderAt place) {found : List String}
    (h : root.resolve here parts = .ok found) : (root.put place new).resolve here parts = .ok found := by
  induction parts generalizing here with
  | nil => exact h
  | cons name rest ih =>
    by_cases hname : name = ".."
    · rw [hname, resolve] at h ⊢
      exact ih h
    · by_cases hrest : rest = []
      · rw [hrest, resolve] at h ⊢
        · exact h
        · exact hname
        · exact hname
      · rw [resolve_cons_iff hname hrest] at h ⊢
        exact ⟨isFolderAt_put hplace h.1, ih h.2⟩

/-- The bytes written are read back. -/
theorem readBytes_of_writeBytes {root' : Entry} {bytes : ByteArray}
    (h : root.writeBytes parts bytes = .ok root') : root'.readBytes parts = .ok bytes := by
  obtain ⟨place, hresolve, h⟩ := Except.bind_eq_ok.1 h
  have hplace : ¬ root.IsFolderAt place ∧ root' = root.put place (.file bytes) := by
    split at h
    · cases h
    · rename_i hplace
      refine ⟨fun hfolder => ?_, (Except.ok.inj h).symm⟩
      obtain ⟨entries, hentries⟩ := hfolder
      exact hplace entries hentries
  obtain ⟨hplace, rfl⟩ := hplace
  have hfind : (root.put place (.file bytes)).find parts = .ok (.file bytes) := by
    refine Except.bind_eq_ok.2 ⟨place, resolve_put hplace hresolve, ?_⟩
    simp only [get?_put]
    rfl
  rw [readBytes, hfind]
  rfl

theorem readText_of_readBytes {path : String} {text : String}
    (h : root.readBytes (Path.ofText path).parts = .ok text.toUTF8) (hempty : path ≠ "")
    (hslash : path.toList.getLast? ≠ some '/') : root.readText path = .ok text := by
  rw [readText, h, if_neg (by simpa using hempty)]
  simp only [troubled, if_neg hslash]
  refine Except.bind_eq_ok.2 ⟨text.toUTF8, rfl, ?_⟩
  simp only [utf8Decode?_toUTF8]
  rfl

theorem readText_of_writeBytes {root' : Entry} {path : String} {text : String}
    (h : root.writeBytes (Path.ofText path).parts text.toUTF8 = .ok root') (hempty : path ≠ "")
    (hslash : path.toList.getLast? ≠ some '/') : root'.readText path = .ok text :=
  readText_of_readBytes (readBytes_of_writeBytes h) hempty hslash

end Entry

end CodeAtlas
