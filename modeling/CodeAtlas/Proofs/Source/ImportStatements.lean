import CodeAtlas.Files.Scan
import CodeAtlas.Proofs.Source.Names
import CodeAtlas.Proofs.Value.Contained

/-! Import statements that name nothing. They are all that the analysis of a file can fail over, and the analysis
of a folder fails besides only for want of workers. -/

namespace CodeAtlas

open Text

namespace Source

namespace Python

variable {content : List Char} {m : Match}

def isNameless (m : Match) : Bool := m.group? 1 = some [] && (m.group? 2).isNone

/-- An import statement cannot be read exactly if it names nothing. -/
theorem failsIf_importedBy (hm : m ∈ importRegex.findAll content) :
    FailsIf (isNameless m) .notOffered (importedBy m) := by
  have hcaptures : importRegex.captures [1, 2] = true := rfl
  unfold importedBy isNameless
  cases hfirst : m.group? 1 with
  | none =>
    obtain ⟨part, hpart⟩ := Regex.exists_second_group? hm hcaptures hfirst
    rw [hpart]
    exact Or.inr ⟨rfl, _, rfl⟩
  | some first =>
    cases first with
    | cons c cs => exact Or.inr ⟨rfl, _, rfl⟩
    | nil =>
      cases m.group? 2 with
      | none => exact Or.inl ⟨rfl, rfl⟩
      | some names => exact Or.inr ⟨rfl, _, rfl⟩

def hasNameless (content : List Char) : Bool := (importRegex.findAll content).any isNameless

theorem failsIf_facts (content : List Char) : FailsIf (hasNameless content) .notOffered (facts content) :=
  (FailsIf.mapM fun _ hm => failsIf_importedBy hm).map

end Python

def isUnreadable (language content : String) : Bool :=
  language = "python" && Python.hasNameless content.toList

theorem failsIf_factsOf (language content : String) :
    FailsIf (isUnreadable language content) .notOffered (factsOf (.text language) (.text content)) := by
  by_cases hpython : language = "python"
  · rw [hpython]
    exact Python.failsIf_facts content.toList
  · have hreadable : isUnreadable language content = false := by simp [isUnreadable, hpython]
    refine Or.inr ⟨hreadable, ?_⟩
    unfold factsOf
    split <;> simp_all

theorem failsIf_analyse (f : ScannedFile) (content : String) :
    FailsIf (isUnreadable f.language content) .notOffered (analyse (Scan.sourceFile f content)) := by
  have hanalyse : ∀ language, (Value.text f.language).orElse (.text "text") = .text language →
      FailsIf (isUnreadable language content) .notOffered (analyse (Scan.sourceFile f content)) := by
    intro language hlanguage
    unfold analyse Scan.sourceFile
    rw [Value.orElse_empty, hlanguage]
    exact (failsIf_factsOf language content).map
  by_cases hempty : f.language = ""
  · rw [hempty]
    exact hanalyse "text" (by rw [hempty]; rfl)
  · exact hanalyse f.language (by rw [Value.orElse, Value.isFalsy_text hempty]; rfl)

end Source

namespace Scan

/-- Whether a file that is scanned below a folder cannot be read. -/
def hasUnreadable (settings : Settings) (folder : Entry) : Bool :=
  (loaded folder (files settings settings.maxScanFiles folder)).any fun f => Source.isUnreadable f.1.language f.2

/-- A scan without workers fails, and so does one that meets a file that cannot be read; any other succeeds. -/
theorem analyses_cases (settings : Settings) (folder : Entry) :
    (settings.scanWorkers ≤ 0 ∧ analyses settings folder = .error .malformed) ∨
      (0 < settings.scanWorkers ∧
        FailsIf (hasUnreadable settings folder) .notOffered (analyses settings folder)) := by
  have hworkers : checkWorkers settings .null =
      if settings.scanWorkers ≤ 0 then .error .malformed else .ok () := rfl
  unfold analyses hasUnreadable
  simp only [hworkers]
  by_cases hpositive : settings.scanWorkers ≤ 0
  · exact Or.inl ⟨hpositive, by rw [if_pos hpositive]; rfl⟩
  · rw [if_neg hpositive]
    refine Or.inr ⟨by omega, ?_⟩
    change FailsIf _ _ (Source.analyseAll _)
    rw [Source.analyseAll, List.filter_eq_self.2, List.mapM_map]
    · exact FailsIf.mapM fun f _ => Source.failsIf_analyse f.1 f.2
    · intro file hfile
      obtain ⟨f, -, rfl⟩ := List.mem_map.1 hfile
      rfl

end Scan

end CodeAtlas
