import Retouch.Plan

/-!
# What planning can answer

A refactoring declines in one place only: where it finds no target. Everything after that can
still meet a fault, but never turns into an answer that the refactoring does not apply.

- `DeclinesOnlyAs`: an outcome that, if it declines, gives one particular reason. It passes
  through binds and loops, so each helper of a refactoring needs one line.
- `Refactoring.transform_declines`: a refactoring declines with its own reason and no other.
- `Refactoring.transform_shape`: extracting a variable gives patches and asks for a rename, every
  other refactoring gives the document that a batch of edits makes.
- `plan_ok`, `plan_declines`, `validate_ok`: what is known once planning has ended.
-/

namespace Retouch

variable {α β : Type}

/-! ## Outcomes in sequence -/

theorem Outcome.eq_ok_of_toOption {α : Type} {x : Outcome α} {a : α} (h : x.toOption = some a) :
    x = .ok a := by
  cases x with
  | error e => cases h
  | ok b => exact congrArg Except.ok (Option.some.inj h)

theorem Outcome.bind_eq_ok {x : Outcome α} {f : α → Outcome β} {b : β}
    (h : (x >>= f) = .ok b) : ∃ a, x = .ok a ∧ f a = .ok b := by
  cases x with
  | error e => cases h
  | ok a => exact ⟨a, rfl, h⟩

/-- An outcome that can fail in any way, but declines for at most one reason. -/
def DeclinesOnlyAs (reason : Reason) (x : Outcome α) : Prop :=
  ∀ other, x = .error (.notApplicable other) → other = reason

namespace DeclinesOnlyAs

variable {reason : Reason}

theorem ok (a : α) : DeclinesOnlyAs reason (.ok a : Outcome α) := by
  intro other h
  cases h

theorem fault (f : Fault) : DeclinesOnlyAs reason (.error (.fault f) : Outcome α) := by
  intro other h
  cases h

theorem brokenSlice : DeclinesOnlyAs reason (.error .brokenSlice : Outcome α) := by
  intro other h
  cases h

theorem itself : DeclinesOnlyAs reason (.error (.notApplicable reason) : Outcome α) := by
  intro other h
  cases h
  rfl

theorem bind {x : Outcome α} {f : α → Outcome β} (hx : DeclinesOnlyAs reason x)
    (hf : ∀ a, DeclinesOnlyAs reason (f a)) : DeclinesOnlyAs reason (x >>= f) := by
  cases x with
  | ok a => exact hf a
  | error e =>
    intro other h
    cases h
    exact hx other rfl

theorem mapM {f : α → Outcome β} (hf : ∀ a, DeclinesOnlyAs reason (f a)) (list : List α) :
    DeclinesOnlyAs reason (list.mapM f) := by
  induction list with
  | nil =>
    rw [List.mapM_nil]
    exact ok []
  | cons a rest ih =>
    rw [List.mapM_cons]
    exact bind (hf a) fun b => bind ih fun bs => ok (b :: bs)

end DeclinesOnlyAs

open DeclinesOnlyAs

variable {reason : Reason}

/-! ## The helpers never decline -/

theorem Document.slice_declines (d : Document) (range : Span) :
    DeclinesOnlyAs reason (d.slice range) := by
  unfold Document.slice
  split
  · exact ok _
  · exact brokenSlice

theorem Tree.text_declines (t : Tree) (id : Nat) : DeclinesOnlyAs reason (t.text id) := by
  unfold Tree.text
  split
  · exact t.document.slice_declines _
  · exact brokenSlice

theorem blankStart_declines (text : Text) (offset : Nat) :
    DeclinesOnlyAs reason (blankStart text offset) := by
  unfold blankStart
  split
  · exact ok _
  · exact brokenSlice

theorem blankEnd_declines (text : Text) (offset : Nat) :
    DeclinesOnlyAs reason (blankEnd text offset) := by
  unfold blankEnd
  split
  · exact ok _
  · exact brokenSlice

theorem Transformation.ofBatch_declines (t : Tree) (batch : Batch) (s : Selection) :
    DeclinesOnlyAs reason (Transformation.ofBatch t batch s) := by
  unfold Transformation.ofBatch
  split
  · exact ok _
  · exact fault _

theorem Braces.edits_declines (d : Document) (settings : Settings) (target : Braces.Target) :
    DeclinesOnlyAs reason (Braces.edits d settings target) := by
  refine bind (blankStart_declines _ _) fun start => ?_
  split
  · exact bind (blankEnd_declines _ _) fun stop => ok _
  · exact ok _

theorem Switch.caseLine_declines (d : Document) (indent : Text) (value : Option Syntax.Node) :
    DeclinesOnlyAs reason (Switch.caseLine d indent value) := by
  cases value with
  | none => exact ok _
  | some v => exact bind (d.slice_declines _) fun text => ok _

theorem Switch.caseText_declines (d : Document) (indent bodyIndent : Text) (addBreak : Bool)
    (b : Switch.Branch) : DeclinesOnlyAs reason (Switch.caseText d indent bodyIndent addBreak b) := by
  refine bind (Switch.caseLine_declines _ _ _) fun head => ?_
  refine bind (mapM (fun n => ?_) _) fun body => ok _
  exact bind (d.slice_declines _) fun text => ok _

theorem Switch.switchText_declines (d : Document) (settings : Settings) (target : Switch.Target) :
    DeclinesOnlyAs reason (Switch.switchText d settings target) := by
  refine bind (d.slice_declines _) fun subject => ?_
  exact bind (mapM (Switch.caseText_declines d _ _ _) _) fun cases => ok _

theorem Ternary.flipEquality_declines (d : Document) (whole left right : Span) (old new : String) :
    DeclinesOnlyAs reason (Ternary.flipEquality d whole left right old new) := by
  refine bind (d.slice_declines _) fun gap => ?_
  split
  · exact fault _
  · exact bind (d.slice_declines _) fun head => bind (d.slice_declines _) fun tail => ok _

theorem Ternary.negate_declines (d : Document) (test : Syntax.Node) :
    DeclinesOnlyAs reason (Ternary.negate d test) := by
  refine bind (d.slice_declines _) fun text => ?_
  split
  · exact d.slice_declines _
  · split
    · exact Ternary.flipEquality_declines _ _ _ _ _ _
    · exact ok _
  · exact ok _

theorem Ternary.edits_declines (d : Document) (target : Ternary.Target) :
    DeclinesOnlyAs reason (Ternary.edits d target) := by
  refine bind (Ternary.negate_declines d _) fun test => ?_
  exact bind (d.slice_declines _) fun no => bind (d.slice_declines _) fun yes => ok _

/-! ## Refactorings -/

/-- A refactoring declines with its own reason and no other. -/
theorem Refactoring.transform_declines (r : Refactoring) (t : Tree) (s : Selection)
    (settings : Settings) : DeclinesOnlyAs r.reason (r.transform t s settings) := by
  cases r with
  | addBraces =>
    show DeclinesOnlyAs _ (Braces.transform t s settings)
    unfold Braces.transform
    split
    · exact itself
    · exact bind (Braces.edits_declines _ _ _) fun batch => Transformation.ofBatch_declines _ _ _
  | convertToSwitch =>
    show DeclinesOnlyAs _ (Switch.transform t s settings)
    unfold Switch.transform
    split
    · exact itself
    · exact bind (Switch.switchText_declines _ _ _) fun text =>
        Transformation.ofBatch_declines _ _ _
  | extractVariable =>
    show DeclinesOnlyAs _ (Variable.transform t s settings)
    unfold Variable.transform
    split
    · exact itself
    · split
      · exact bind (t.text_declines _) fun value => ok _
      · exact itself
  | extractGenericType =>
    show DeclinesOnlyAs _ (GenericType.transform t s)
    unfold GenericType.transform
    split
    · exact itself
    · split
      · exact itself
      · exact bind (t.text_declines _) fun written => Transformation.ofBatch_declines _ _ _
  | flipTernary =>
    show DeclinesOnlyAs _ (Ternary.transform t s)
    unfold Ternary.transform
    split
    · exact itself
    · exact bind (Ternary.edits_declines _ _) fun batch => Transformation.ofBatch_declines _ _ _

/-- A new document that a batch of edits makes of the old one. -/
def Transformation.IsEdited (t : Tree) (s : Selection) (x : Transformation) : Prop :=
  ∃ batch : Batch, ∃ text selection,
    batch.applyWithSelection t.document.text s = .ok (text, selection) ∧
      x = .document text selection

/-- A refactoring that works something out and then applies the edits it comes to gives an edited
document. -/
theorem Transformation.isEdited_of_bind {t : Tree} {s : Selection} {x : Transformation}
    {m : Outcome α} {edits : α → Batch}
    (h : (m >>= fun a => Transformation.ofBatch t (edits a) s) = .ok x) : x.IsEdited t s := by
  obtain ⟨a, -, hx⟩ := Outcome.bind_eq_ok h
  unfold Transformation.ofBatch at hx
  split at hx
  · next text selection happly =>
    cases hx
    exact ⟨edits a, text, selection, happly, rfl⟩
  · cases hx

/-- Extracting a variable gives patches and asks for a rename; every other refactoring gives the
document that a batch of edits makes. -/
theorem Refactoring.transform_shape {r : Refactoring} {t : Tree} {s : Selection}
    {settings : Settings} {x : Transformation} (h : r.transform t s settings = .ok x) :
    (r = .extractVariable ∧ ∃ list, x = .patches list (some .renameSymbol)) ∨
      (r ≠ .extractVariable ∧ x.IsEdited t s) := by
  cases r with
  | addBraces =>
    change Braces.transform t s settings = .ok x at h
    unfold Braces.transform at h
    split at h
    · cases h
    · exact .inr ⟨nofun, Transformation.isEdited_of_bind h⟩
  | convertToSwitch =>
    change Switch.transform t s settings = .ok x at h
    unfold Switch.transform at h
    split at h
    · cases h
    · exact .inr ⟨nofun, Transformation.isEdited_of_bind h⟩
  | extractVariable =>
    change Variable.transform t s settings = .ok x at h
    unfold Variable.transform at h
    split at h
    · cases h
    · split at h
      · obtain ⟨value, -, hx⟩ := Outcome.bind_eq_ok h
        cases hx
        exact .inl ⟨rfl, _, rfl⟩
      · cases h
  | extractGenericType =>
    change GenericType.transform t s = .ok x at h
    unfold GenericType.transform at h
    split at h
    · cases h
    · split at h
      · cases h
      · exact .inr ⟨nofun, Transformation.isEdited_of_bind h⟩
  | flipTernary =>
    change Ternary.transform t s = .ok x at h
    unfold Ternary.transform at h
    split at h
    · cases h
    · exact .inr ⟨nofun, Transformation.isEdited_of_bind h⟩

/-! ## Plans -/

/-- A document that the dialect of some settings can read. -/
def Settings.Reads (settings : Settings) (code : Text) : Prop :=
  ∃ d, Document.parse settings.dialect code = .ok d

instance (settings : Settings) (code : Text) : Decidable (settings.Reads code) :=
  match h : Document.parse settings.dialect code with
  | .ok d => isTrue ⟨d, h⟩
  | .error _ => isFalse fun ⟨_, hd⟩ => nomatch h.symm.trans hd

theorem validate_ok {code : Text} {s : Selection} {x : Transformation} {settings : Settings}
    {u : Unit} (h : validate code s x settings = .ok u) :
    ∃ text, x.output code s = .ok text ∧ settings.Reads text := by
  obtain ⟨text, htext, hparse⟩ := Outcome.bind_eq_ok h
  refine ⟨text, htext, ?_⟩
  split at hparse
  · next d hd => exact ⟨d, hd⟩
  · cases hparse

theorem validate_declines (code : Text) (s : Selection) (x : Transformation)
    (settings : Settings) : DeclinesOnlyAs reason (validate code s x settings) := by
  refine bind ?_ fun output => ?_
  · unfold Transformation.output
    split
    · exact ok _
    · split
      · exact ok _
      · exact fault _
  · split
    · exact ok _
    · exact fault _

/-- What is known of a plan that succeeded: the text could be read, the refactoring transformed
its tree, and the new text was read again if the settings ask for it. -/
theorem plan_ok {r : Refactoring} {code : Text} {s : Selection} {settings : Settings}
    {x : Transformation} (h : plan r code s settings = .ok x) :
    ∃ d, Document.parse settings.dialect code = .ok d ∧
      r.transform (Tree.ofDocument d) s settings = .ok x ∧
      (settings.validateOutput = true → validate code s x settings = .ok ()) := by
  unfold plan at h
  cases hd : Document.parse settings.dialect code with
  | error f =>
    rw [hd] at h
    cases h
  | ok d =>
    refine ⟨d, rfl, ?_⟩
    simp only [hd] at h
    -- only where a target was found does planning go on to the transformation
    split at h
    · cases hx : r.transform (Tree.ofDocument d) s settings with
      | error e =>
        rw [hx] at h
        cases h
      | ok y =>
        simp only [hx] at h
        split at h
        · cases hv : validate code s y settings with
          | error e =>
            rw [hv] at h
            cases h
          | ok u =>
            rw [hv] at h
            cases h
            exact ⟨rfl, fun _ => hv⟩
        · next hoff =>
          cases h
          exact ⟨rfl, fun hon => absurd hon hoff⟩
    · cases h

/-- Planning declines with the refactoring's own reason and no other. -/
theorem plan_declines (r : Refactoring) (code : Text) (s : Selection) (settings : Settings) :
    DeclinesOnlyAs r.reason (plan r code s settings) := by
  unfold plan
  split
  · exact fault _
  · next d hd =>
    dsimp only
    split
    · -- a target was found, so only the transformation itself could decline
      have htransform := r.transform_declines (Tree.ofDocument d) s settings
      split
      · next e he => exact fun other h => htransform other (he.trans h)
      · next x hx =>
        split
        · have hvalidate : DeclinesOnlyAs r.reason (validate code s x settings) :=
            validate_declines code s x settings
          split
          · next e he => exact fun other h => hvalidate other (by rw [he]; cases h; rfl)
          · exact ok _
        · exact ok _
    · exact itself

end Retouch
