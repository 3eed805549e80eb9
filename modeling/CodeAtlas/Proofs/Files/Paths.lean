import CodeAtlas.Proofs.Files.Written
import CodeAtlas.Proofs.Text.Pieces

/-! Where paths lead. A path written out and read again has the same parts. A path to a folder can be followed by
one part more, so a file can be written in a folder that has been made; and where a file is found, the folder
above it is there and need not be made. -/

namespace CodeAtlas

namespace Path

variable {s : String} {parts : List String}

/-- Whether a text can be a part of a path: it is neither empty nor a dot, and no slash is in it. -/
def IsPart (part : String) : Prop := part ≠ "" ∧ part ≠ "." ∧ '/' ∉ part.toList

theorem isPart_of_mem {part : String} (h : part ∈ (ofText s).parts) : IsPart part := by
  obtain ⟨hpart, hplain⟩ := List.mem_filter.1 h
  obtain ⟨chars, hchars, rfl⟩ := List.mem_map.1 hpart
  obtain ⟨hempty, hdot⟩ := of_decide_eq_true hplain
  refine ⟨hempty, hdot, ?_⟩
  rw [String.toList_ofList]
  exact Text.notMem_of_mem_splitAtChar hchars

theorem splitAtChar_intercalate_parts (hne : parts ≠ []) (hparts : ∀ part ∈ parts, IsPart part) :
    Text.splitAtChar '/' (String.intercalate "/" parts).toList = parts.map String.toList := by
  have hsingle : ∀ part ∈ parts, Text.splitAtChar '/' part.toList = [part.toList] := fun part hpart =>
    Text.splitAtChar_of_notMem (hparts part hpart).2.2
  rw [String.toList_intercalate]
  change Text.splitAtChar '/' (List.intercalate ['/'] (parts.map String.toList)) = _
  rw [Text.splitAtChar_intercalate (by simpa using hne), List.flatMap_map, List.flatMap_congr hsingle,
    List.map_eq_flatMap]

theorem parts_ofText_intercalate (hne : parts ≠ []) (hparts : ∀ part ∈ parts, IsPart part) :
    (ofText (String.intercalate "/" parts)).parts = parts := by
  change ((Text.splitAtChar '/' (String.intercalate "/" parts).toList).map String.ofList).filter _ = _
  have hread : (parts.map String.toList).map String.ofList = parts := by
    rw [List.map_map, show String.ofList ∘ String.toList = id from funext fun _ => String.ofList_toList, List.map_id]
  rw [splitAtChar_intercalate_parts hne hparts, hread, List.filter_eq_self]
  exact fun part hpart => decide_eq_true ⟨(hparts part hpart).1, (hparts part hpart).2.1⟩

theorem intercalate_ne_empty (hne : parts ≠ []) (hparts : ∀ part ∈ parts, IsPart part) :
    String.intercalate "/" parts ≠ "" := by
  intro hempty
  have hread := parts_ofText_intercalate hne hparts
  rw [hempty] at hread
  exact hne hread.symm

theorem getLast?_intercalate (hne : parts ≠ []) (hparts : ∀ part ∈ parts, IsPart part) :
    (String.intercalate "/" parts).toList.getLast? ≠ some '/' := by
  intro hlast
  obtain ⟨front, hfront⟩ := List.getLast?_eq_some_iff.1 hlast
  have hsplit := splitAtChar_intercalate_parts hne hparts
  rw [hfront, Text.splitAtChar_append_cons] at hsplit
  have hempty : [] ∈ parts.map String.toList := hsplit ▸ List.mem_append_right _ (List.mem_singleton.2 rfl)
  obtain ⟨part, hpart, htext⟩ := List.mem_map.1 hempty
  exact (hparts part hpart).1 (String.toList_eq_nil_iff.1 htext)

theorem rootOf_cases (s : List Char) : rootOf s = "" ∨ rootOf s = "/" ∨ rootOf s = "//" := by
  unfold rootOf
  split <;> simp

theorem parts_ofText_append {root : String} (hroot : root = "" ∨ root = "/" ∨ root = "//") (s : String) :
    (ofText (root ++ s)).parts = (ofText s).parts := by
  rcases hroot with rfl | rfl | rfl <;> simp [ofText, String.toList_append, Text.splitAtChar]

/-- A path written out has the same parts, and asks for no folder. -/
theorem text_spec (hne : (ofText s).parts ≠ []) :
    (ofText (ofText s).text).parts = (ofText s).parts ∧ (ofText s).text ≠ "" ∧
      (ofText s).text.toList.getLast? ≠ some '/' := by
  have hparts : ∀ part ∈ (ofText s).parts, IsPart part := fun part => isPart_of_mem
  have hnames := intercalate_ne_empty hne hparts
  have htext : (ofText s).text = rootOf s.toList ++ String.intercalate "/" (ofText s).parts :=
    if_neg fun h => hne h.2
  rw [htext]
  refine ⟨?_, fun hempty => ?_, ?_⟩
  · rw [parts_ofText_append (rootOf_cases s.toList), parts_ofText_intercalate hne hparts]
  · exact hnames (String.append_eq_empty_iff.1 hempty).2
  · rw [String.toList_append, List.getLast?_append_of_ne_nil _ (mt String.toList_eq_nil_iff.1 hnames)]
    exact getLast?_intercalate hne hparts

end Path

namespace Entry

variable {root root' e : Entry} {here place parts ps : List String} {name : String} {bytes : ByteArray}

section Places

theorem get?_append (root : Entry) (p q : List String) : root.get? (p ++ q) = (root.get? p).bind (get? q) := by
  induction p generalizing root with
  | nil => rfl
  | cons name p ih =>
    cases root with
    | folder entries =>
      rw [List.cons_append, get?, get?, Option.bind_assoc]
      exact congrArg _ (funext fun e => ih e)
    | file bytes => rfl
    | deadLink => rfl

theorem get?_put_of_ne {other : String} (hne : other ≠ name) (p q : List String) (new : Entry) :
    (root.put (name :: p) new).get? (other :: q) = root.get? (other :: q) := by
  have hlone : ∀ below : Entry, (folder [(name, below)]).get? (other :: q) = none := fun below => by
    rw [get?, lookup_cons_eq, if_neg hne]
    rfl
  cases root with
  | folder entries => rw [put, get?, get?, lookup_putNamed, if_neg hne]
  | file bytes => exact hlone _
  | deadLink => exact hlone _

theorem isFolderAt_of_get?_concat (h : root.get? (place ++ [name]) = some e) : root.IsFolderAt place := by
  rw [get?_append] at h
  obtain ⟨above, habove, hbelow⟩ := Option.bind_eq_some_iff.1 h
  cases above with
  | folder entries => exact ⟨entries, habove⟩
  | file bytes => cases hbelow
  | deadLink => cases hbelow

theorem IsFolderAt.dropLast (h : root.IsFolderAt place) : root.IsFolderAt place.dropLast := by
  rcases List.eq_nil_or_concat place with rfl | ⟨above, name, rfl⟩
  · exact h
  · obtain ⟨entries, hentries⟩ := h
    rw [List.concat_eq_append] at hentries ⊢
    rw [List.dropLast_concat]
    exact isFolderAt_of_get?_concat hentries

theorem resolve_singleton (hname : name ≠ "..") : root.resolve here [name] = .ok (here ++ [name]) := by
  rw [resolve]
  exact hname

theorem isFolderAt_nil_iff : root.IsFolderAt [] ↔ root.isFolder = true := by
  unfold IsFolderAt
  cases root <;> simp [get?, isFolder]

/-- A path to a folder can be followed from there. -/
theorem resolve_concat (h : root.resolve here ps = .ok place) (hfolder : root.IsFolderAt place) (name : String) :
    root.resolve here (ps ++ [name]) = root.resolve place [name] := by
  induction ps generalizing here with
  | nil =>
    cases h
    rfl
  | cons part rest ih =>
    rw [List.cons_append]
    by_cases hpart : part = ".."
    · rw [hpart, resolve] at h ⊢
      exact ih h
    · have hnext : root.IsFolderAt (here ++ [part]) ∧ root.resolve (here ++ [part]) rest = .ok place := by
        by_cases hrest : rest = []
        · rw [hrest, resolve_singleton hpart] at h
          cases h
          exact ⟨hfolder, by rw [hrest, resolve]⟩
        · exact (resolve_cons_iff hpart hrest).1 h
      obtain ⟨entries, hentries⟩ := hnext.1
      rw [← ih hnext.2, resolve]
      · simp only [hentries]
      · exact hpart
      · exact fun h => List.append_ne_nil_of_right_ne_nil rest (List.cons_ne_nil name []) h

/-- A path that ends in a name can be followed up to there. -/
theorem exists_resolve_of_concat (hname : name ≠ "..") {found : List String}
    (h : root.resolve here (ps ++ [name]) = .ok found) :
    ∃ place, root.resolve here ps = .ok place ∧ found = place ++ [name] := by
  induction ps generalizing here with
  | nil =>
    rw [List.nil_append, resolve_singleton hname] at h
    cases h
    exact ⟨here, rfl, rfl⟩
  | cons part rest ih =>
    rw [List.cons_append] at h
    by_cases hpart : part = ".."
    · rw [hpart, resolve] at h ⊢
      exact ih h
    · obtain ⟨hfolder, h⟩ := (resolve_cons_iff hpart (by simp)).1 h
      obtain ⟨place, hplace, rfl⟩ := ih h
      refine ⟨place, ?_, rfl⟩
      by_cases hrest : rest = []
      · rw [hrest, resolve] at hplace
        rw [hrest, resolve_singleton hpart, hplace]
      · exact (resolve_cons_iff hpart hrest).2 ⟨hfolder, hplace⟩

end Places

section Folders

def LeadsToFolder (root : Entry) (parts : List String) : Prop :=
  ∃ place, root.resolve [] parts = .ok place ∧ root.IsFolderAt place

theorem exists_place_of_find (h : root.find parts = .ok e) :
    ∃ place, root.resolve [] parts = .ok place ∧ root.get? place = some e := by
  obtain ⟨place, hplace, h⟩ := Except.bind_eq_ok.1 h
  refine ⟨place, hplace, ?_⟩
  split at h
  · cases h
  · cases h
  · rename_i hfound
    cases h
    exact hfound

theorem LeadsToFolder.exists_find (h : root.LeadsToFolder parts) :
    ∃ entries, root.find parts = .ok (folder entries) := by
  obtain ⟨place, hplace, entries, hentries⟩ := h
  refine ⟨entries, Except.bind_eq_ok.2 ⟨place, hplace, ?_⟩⟩
  simp only [hentries]
  rfl

theorem leadsToFolder_of_find {entries : List (String × Entry)} (h : root.find parts = .ok (folder entries)) :
    root.LeadsToFolder parts := by
  obtain ⟨place, hplace, hfound⟩ := exists_place_of_find h
  exact ⟨place, hplace, entries, hfound⟩

theorem LeadsToFolder.has (h : root.LeadsToFolder parts) : root.has parts = true := by
  obtain ⟨entries, hentries⟩ := h.exists_find
  rw [Entry.has, hentries]
  rfl

theorem leadsToFolder_of_makeFolder (h : root.makeFolder parts = .ok root') : root'.LeadsToFolder parts := by
  obtain ⟨place, hplace, h⟩ := Except.bind_eq_ok.1 h
  split at h
  · cases h
  · rename_i hnone
    cases h
    have hfree : ¬ root.IsFolderAt place := by
      rintro ⟨entries, hentries⟩
      cases hnone.symm.trans hentries
    exact ⟨place, resolve_put hfree hplace, [], get?_put root place emptyFolder⟩

theorem LeadsToFolder.makeFolder (h : root.LeadsToFolder parts) : root.makeFolder parts = .error .alreadyExists := by
  obtain ⟨place, hplace, entries, hentries⟩ := h
  refine Except.bind_eq_error.2 (Or.inr ⟨place, hplace, ?_⟩)
  simp only [hentries]
  rfl

theorem leadsToFolder_of_ensureFolder (h : root.ensureFolder parts = .ok root') : root'.LeadsToFolder parts := by
  unfold ensureFolder at h
  split at h
  · rename_i hmade
    cases h
    exact leadsToFolder_of_makeFolder hmade
  · split at h
    · rename_i hfound
      cases h
      exact leadsToFolder_of_find hfound
    · cases h

/-- After the folders of a path have been made, it leads to one. -/
theorem leadsToFolder_of_ensureFolders (hroot : root.isFolder = true)
    (h : root.ensureFolders ps.reverse = .ok root') : root'.LeadsToFolder ps := by
  rw [← List.reverse_reverse ps]
  cases hup : ps.reverse with
  | nil =>
    rw [hup] at h
    cases h
    exact ⟨[], rfl, isFolderAt_nil_iff.2 hroot⟩
  | cons name up =>
    rw [hup, ensureFolders] at h
    split at h
    · rename_i hmade
      cases h
      exact leadsToFolder_of_makeFolder hmade
    · obtain ⟨above, -, h⟩ := Except.bind_eq_ok.1 h
      exact leadsToFolder_of_ensureFolder h
    · split at h
      · rename_i hfound
        cases h
        exact leadsToFolder_of_find hfound
      · cases h

theorem LeadsToFolder.ensureFolders (h : root.LeadsToFolder ps) : root.ensureFolders ps.reverse = .ok root := by
  rw [← List.reverse_reverse ps] at h
  cases hup : ps.reverse with
  | nil => rw [Entry.ensureFolders]
  | cons name up =>
    rw [hup] at h
    obtain ⟨entries, hentries⟩ := h.exists_find
    rw [Entry.ensureFolders, h.makeFolder]
    simp only [hentries]

/-- Behind a folder, a path that does not lead to one ends in a name: double dots would lead to the folder above. -/
theorem LeadsToFolder.ne_dots (h : root.LeadsToFolder ps) (hnever : ¬ root.LeadsToFolder (ps ++ [name])) :
    name ≠ ".." := by
  obtain ⟨place, hplace, hfolder⟩ := h
  rintro rfl
  have hfollow := resolve_concat hplace hfolder ".."
  rw [resolve, resolve] at hfollow
  exact hnever ⟨_, hfollow, hfolder.dropLast⟩

end Folders

section Files

theorem exists_writeBytes (h : root.resolve [] parts = .ok place) (hplace : ¬ root.IsFolderAt place)
    (bytes : ByteArray) : ∃ root', root.writeBytes parts bytes = .ok root' := by
  refine ⟨root.put place (.file bytes), Except.bind_eq_ok.2 ⟨place, h, ?_⟩⟩
  split
  · rename_i entries hentries
    exact absurd ⟨entries, hentries⟩ hplace
  · rfl

/-- The bytes that are read are those of the file a path leads to. -/
theorem readBytes_eq_ok :
    root.readBytes parts = .ok bytes ↔
      ∃ place, root.resolve [] parts = .ok place ∧ root.get? place = some (file bytes) := by
  constructor
  · intro h
    obtain ⟨e, he, h⟩ := Except.bind_eq_ok.1 h
    obtain ⟨place, hplace, hfound⟩ := exists_place_of_find he
    split at h
    · cases h
      exact ⟨place, hplace, hfound⟩
    · cases h
  · rintro ⟨place, hplace, hfound⟩
    refine Except.bind_eq_ok.2 ⟨file bytes, Except.bind_eq_ok.2 ⟨place, hplace, ?_⟩, rfl⟩
    simp only [hfound]
    rfl

theorem exists_writeBytes_of_readBytes (h : root.readBytes parts = .ok bytes) (new : ByteArray) :
    ∃ root', root.writeBytes parts new = .ok root' := by
  obtain ⟨place, hplace, hfile⟩ := readBytes_eq_ok.1 h
  refine exists_writeBytes hplace ?_ new
  rintro ⟨entries, hentries⟩
  cases hfile.symm.trans hentries

theorem has_of_readBytes (h : root.readBytes parts = .ok bytes) : root.has parts = true := by
  obtain ⟨e, he, -⟩ := Except.bind_eq_ok.1 h
  rw [has, he]
  rfl

theorem ensureFolders_of_readBytes (hname : name ≠ "..") (h : root.readBytes (ps ++ [name]) = .ok bytes) :
    root.ensureFolders ps.reverse = .ok root := by
  obtain ⟨found, hfound, hfile⟩ := readBytes_eq_ok.1 h
  obtain ⟨place, hplace, rfl⟩ := exists_resolve_of_concat hname hfound
  exact LeadsToFolder.ensureFolders ⟨place, hplace, isFolderAt_of_get?_concat hfile⟩

theorem LeadsToFolder.exists_writeBytes (h : root.LeadsToFolder ps) (hname : name ≠ "..")
    (hnever : ¬ root.LeadsToFolder (ps ++ [name])) (bytes : ByteArray) :
    ∃ tree, root.writeBytes (ps ++ [name]) bytes = .ok tree := by
  obtain ⟨place, hplace, hfolder⟩ := h
  have hfollow : root.resolve [] (ps ++ [name]) = .ok (place ++ [name]) :=
    (resolve_concat hplace hfolder name).trans (resolve_singleton hname)
  exact Entry.exists_writeBytes hfollow (fun hfound => hnever ⟨_, hfollow, hfound⟩) bytes

/-- Where nothing is once the folders above have been made, a file can be written. The path ends in a name, since a
path that ends otherwise leads to a folder. -/
theorem exists_writeBytes_of_not_has (hroot : root.isFolder = true)
    (hfolders : root.ensureFolders parts.dropLast.reverse = .ok root') (hfree : root'.has parts = false) :
    (∃ ps name, parts = ps ++ [name] ∧ name ≠ "..") ∧
      ∀ bytes, ∃ tree, root'.writeBytes parts bytes = .ok tree := by
  have hleads : root'.LeadsToFolder parts.dropLast := leadsToFolder_of_ensureFolders hroot hfolders
  have hnever : ¬ root'.LeadsToFolder parts := fun hfound => by
    rw [hfound.has] at hfree
    cases hfree
  rcases List.eq_nil_or_concat parts with rfl | ⟨ps, name, rfl⟩
  · exact absurd hleads hnever
  · rw [List.concat_eq_append] at hleads hnever ⊢
    rw [List.dropLast_concat] at hleads
    have hname : name ≠ ".." := hleads.ne_dots hnever
    exact ⟨⟨ps, name, rfl, hname⟩, hleads.exists_writeBytes hname hnever⟩

end Files

end Entry

end CodeAtlas
