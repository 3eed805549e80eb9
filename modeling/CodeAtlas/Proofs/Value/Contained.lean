import CodeAtlas.Proofs.Graph.Change
import CodeAtlas.Value.Parse

/-! Checks that succeed, and checks that fail only for causes that a command reports. Reading a document is one of
the latter, whatever the text is. -/

namespace CodeAtlas

def isContained {α : Type} : Checked α → Bool
  | .ok _ => true
  | .error e => e.isReported

section

variable {α β : Type} {x : Checked α}

theorem isContained_bind {f : α → Checked β} (hx : isContained x = true)
    (hf : ∀ a, x = .ok a → isContained (f a) = true) : isContained (x >>= f) = true := by
  cases x with
  | ok a => exact hf a rfl
  | error e => exact hx

theorem isContained_bind_ok {f : α → Checked β} {a : α} (hx : x = .ok a) (hf : isContained (f a) = true) :
    isContained (x >>= f) = true := by
  rw [hx]
  exact hf

theorem isContained_mapM {f : α → Checked β} {as : List α} (h : ∀ a ∈ as, isContained (f a) = true) :
    isContained (as.mapM f) = true := by
  induction as with
  | nil => rfl
  | cons a rest ih =>
    rw [List.mapM_cons]
    refine isContained_bind (h a List.mem_cons_self) fun b _ => isContained_bind ?_ fun bs _ => rfl
    exact ih fun a ha => h a (List.mem_cons_of_mem _ ha)

theorem isContained_foldlM {f : β → α → Checked β} {as : List α} {b : β}
    (h : ∀ a ∈ as, ∀ b, isContained (f b a) = true) : isContained (as.foldlM f b) = true := by
  induction as generalizing b with
  | nil => rfl
  | cons a rest ih =>
    rw [List.foldlM_cons]
    exact isContained_bind (h a List.mem_cons_self b) fun b' _ => ih fun a ha => h a (List.mem_cons_of_mem _ ha)

theorem isOk_iff : x.isOk = true ↔ ∃ a, x = .ok a := by
  cases x <;> simp [Except.isOk, Except.toBool]

theorem isOk_bind {f : α → Checked β} (hx : x.isOk = true) (hf : ∀ a, x = .ok a → (f a).isOk = true) :
    (x >>= f).isOk = true := by
  obtain ⟨a, rfl⟩ := isOk_iff.1 hx
  exact hf a rfl

theorem isOk_bind_ok {f : α → Checked β} {a : α} (hx : x = .ok a) (hf : (f a).isOk = true) :
    (x >>= f).isOk = true := by
  rw [hx]
  exact hf

/-- Whether a check fails under a condition, always for one cause, and succeeds otherwise. -/
def FailsIf (bad : Bool) (e : Fault) (x : Checked α) : Prop :=
  (bad = true ∧ x = .error e) ∨ (bad = false ∧ ∃ a, x = .ok a)

theorem FailsIf.map {bad : Bool} {e : Fault} {f : α → β} (h : FailsIf bad e x) :
    FailsIf bad e (do return f (← x)) := by
  rcases h with ⟨hbad, rfl⟩ | ⟨hbad, a, rfl⟩
  · exact Or.inl ⟨hbad, rfl⟩
  · exact Or.inr ⟨hbad, _, rfl⟩

theorem FailsIf.mapM {bad : α → Bool} {e : Fault} {f : α → Checked β} {as : List α}
    (h : ∀ a ∈ as, FailsIf (bad a) e (f a)) : FailsIf (as.any bad) e (as.mapM f) := by
  induction as with
  | nil => exact Or.inr ⟨rfl, _, rfl⟩
  | cons a rest ih =>
    rw [List.mapM_cons, List.any_cons]
    rcases h a List.mem_cons_self with ⟨hbad, ha⟩ | ⟨hbad, b, ha⟩
    · rw [hbad, ha]
      exact Or.inl ⟨rfl, rfl⟩
    · rw [hbad, ha]
      exact (ih fun a ha => h a (List.mem_cons_of_mem _ ha)).map (f := (b :: ·))

end

namespace Document

theorem isContained_readString (n : Nat) (done s : List Char) : isContained (readString n done s) = true := by
  induction n generalizing done s with
  | zero => rfl
  | succ n ih =>
    cases s with
    | nil => rfl
    | cons c rest =>
      rw [readString]
      split
      · rfl
      · split
        · split
          · exact ih _ _
          · rfl
        · split
          · rfl
          · exact ih _ _

theorem isContained_readMagnitude (negative : Bool) (s : List Char) :
    isContained (readMagnitude negative s) = true := by
  unfold readMagnitude
  extract_lets digits
  split
  · rfl
  · simp only
    split
    · split <;> rfl
    · rfl

theorem isContained_readAtom (s : List Char) : isContained (readAtom s) = true := by
  unfold readAtom
  split
  · rfl
  · split <;> exact isContained_readMagnitude _ _

/-- No reader fails but for a bad document, or a number that is too long. -/
theorem isContained_readers (n : Nat) :
    (∀ s, isContained (readValue n s) = true) ∧ (∀ s, isContained (readItems n s) = true) ∧
      ∀ s, isContained (readFields n s) = true := by
  induction n with
  | zero => exact ⟨fun _ => rfl, fun _ => rfl, fun _ => rfl⟩
  | succ n ih =>
    obtain ⟨hvalue, hitems, hfields⟩ := ih
    refine ⟨fun s => ?_, fun s => ?_, fun s => ?_⟩
    · unfold readValue
      split
      · exact isContained_bind (isContained_readString _ _ _) fun _ _ => rfl
      · split
        · rfl
        · exact isContained_bind (hitems _) fun _ _ => rfl
      · split
        · rfl
        · exact isContained_bind (hfields _) fun _ _ => rfl
      · exact isContained_readAtom s
    · unfold readItems
      refine isContained_bind (hvalue _) fun read _ => ?_
      simp only
      split
      · exact isContained_bind (hitems _) fun _ _ => rfl
      · rfl
      · rfl
    · unfold readFields
      split
      · refine isContained_bind (isContained_readString _ _ _) fun name _ => ?_
        simp only
        split
        · refine isContained_bind (hvalue _) fun read _ => ?_
          split
          · exact isContained_bind (hfields _) fun _ _ => rfl
          · rfl
          · rfl
        · rfl
      · rfl

end Document

theorem Value.isContained_parse (text : String) : isContained (Value.parse text) = true := by
  refine isContained_bind ((Document.isContained_readers _).1 _) fun read _ => ?_
  simp only
  split <;> rfl

end CodeAtlas
