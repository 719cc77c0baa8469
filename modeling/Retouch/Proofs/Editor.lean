import Retouch.Editor
import Retouch.Proofs.Patch
import Retouch.Proofs.Plan

/-!
# Editors under refactoring

- `Editor.accept_eq`: handing over a transformation either does all of it or nothing.
- `Editor.execute_all_or_nothing`: the same of a whole refactoring, for every text and selection
  it is planned on, whether they are the editor's own or not.
- `Editor.Sound`: the text can be read and the selection lies in it. `run_sound` says that one
  refactoring keeps this, `runs_keep_document_valid` that any number of them does.
-/

namespace Retouch

/-- The text and selection that a transformation comes to in an editor. A document comes as it is;
patches are applied to what the editor holds, which need not be what they were planned on. -/
def Transformation.resultIn (x : Transformation) (e : Editor) :
    Except EditError (Text × Selection) :=
  match x with
  | .document text selection => .ok (text, selection)
  | .patches list _ => applyPatches e.code e.selection list

/-- The commands that a transformation asks for once it has been applied. -/
def Transformation.commands : Transformation → List Command
  | .document _ _ => []
  | .patches _ followUp => followUp.toList

namespace Editor

/-- Handing over a transformation changes text, selection and commands together, or nothing. -/
theorem accept_eq (e : Editor) (x : Transformation) :
    e.accept x = match x.resultIn e with
      | .ok (code, selection) =>
        ({ e with code, selection, delegated := e.delegated ++ x.commands }, .ok ())
      | .error error => (e, .error (.fault error.toFault)) := by
  cases x with
  | document text selection =>
    simp [accept, write, Transformation.resultIn, Transformation.commands]
  | patches list followUp =>
    simp only [accept, apply, Transformation.resultIn]
    cases applyPatches e.code e.selection list with
    | error error => rfl
    | ok result =>
      cases followUp with
      | none => simp [Transformation.commands]
      | some command => rfl

/-- Only the extraction of a variable asks for a command, and it asks for one. -/
theorem commands_of_plan {r : Refactoring} {code : Text} {s : Selection} {settings : Settings}
    {x : Transformation} (h : plan r code s settings = .ok x) :
    x.commands = if r = .extractVariable then [.renameSymbol] else [] := by
  obtain ⟨d, -, hx, -⟩ := plan_ok h
  rcases Refactoring.transform_shape hx with ⟨hr, list, rfl⟩ | ⟨hr, -, text, selection, -, rfl⟩
  · rw [if_pos hr]
    rfl
  · rw [if_neg hr]
    rfl

/-- A refactoring in an editor does all of its work or none. A failure leaves the editor as it
was; a refactoring that does not apply adds its own reason, once, and nothing else; one that is
applied brings exactly the planned text and selection, and one command if it extracts a variable.
-/
theorem execute_all_or_nothing (e : Editor) (r : Refactoring) (code : Text) (s : Selection)
    (settings : Settings) :
    match e.execute r code s settings with
    | (after, .error failure) =>
      after = e ∧ (∀ reason, failure ≠ .notApplicable reason) ∧
        (plan r code s settings = .error failure ∨
          ∃ x error, plan r code s settings = .ok x ∧ x.resultIn e = .error error ∧
            failure = .fault error.toFault)
    | (after, .ok (.notApplicable reason)) =>
      plan r code s settings = .error (.notApplicable reason) ∧ reason = r.reason ∧
        after = { e with reasons := e.reasons ++ [reason] }
    | (after, .ok .applied) =>
      ∃ x, plan r code s settings = .ok x ∧
        x.resultIn e = .ok (after.code, after.selection) ∧
        after = { e with
          code := after.code
          selection := after.selection
          delegated := e.delegated ++ if r = .extractVariable then [.renameSymbol] else [] } := by
  unfold execute
  cases hplan : plan r code s settings with
  | error failure =>
    cases failure with
    | notApplicable reason => exact ⟨rfl, plan_declines r code s settings reason hplan, rfl⟩
    | fault f => exact ⟨rfl, nofun, .inl rfl⟩
    | brokenSlice => exact ⟨rfl, nofun, .inl rfl⟩
  | ok x =>
    simp only [accept_eq]
    cases hresult : x.resultIn e with
    | error error => exact ⟨rfl, nofun, .inr ⟨x, error, rfl, hresult, rfl⟩⟩
    | ok result =>
      obtain ⟨text, selection⟩ := result
      refine ⟨x, rfl, hresult, ?_⟩
      simp only [commands_of_plan hplan]

/-! ## Refactorings one after the other -/

/-- The editor after refactorings of its own text, one after the other, whatever each came to. -/
def runs (settings : Settings) : Editor → List Refactoring → Editor
  | e, [] => e
  | e, r :: rest => runs settings (e.run r settings).1 rest

/-- An editor whose text can be read under some settings, and whose selection lies in it. -/
structure Sound (settings : Settings) (e : Editor) : Prop where
  reads : settings.Reads e.code
  resolves : ∃ span, e.code.span? e.selection = some span ∧ span.start ≤ span.stop

/-- The text that planning reads again is the one that the editor gets, as long as it was planned
on the editor's own text and selection. -/
theorem output_eq (e : Editor) (x : Transformation) :
    x.output e.code e.selection = match x.resultIn e with
      | .ok (text, _) => .ok text
      | .error error => .error (.fault error.toFault) := by
  cases x with
  | document text selection => rfl
  | patches list followUp => rfl

/-- The selection that a planned transformation brings lies in the text that it brings. -/
theorem resultIn_resolves {e : Editor} {r : Refactoring} {code : Text} {s : Selection}
    {settings : Settings} {x : Transformation} (hplan : plan r code s settings = .ok x)
    {text : Text} {selection : Selection} (hresult : x.resultIn e = .ok (text, selection)) :
    ∃ span, text.span? selection = some span ∧ span.start ≤ span.stop := by
  obtain ⟨d, -, htransform, -⟩ := plan_ok hplan
  have hspan : ∃ span, text.span? selection = some span := by
    rcases Refactoring.transform_shape htransform with
      ⟨-, list, rfl⟩ | ⟨-, batch, text', selection', happly, rfl⟩
    · exact applyPatches_resolves hresult
    · cases hresult
      exact Batch.applyWithSelection_resolves happly
  obtain ⟨span, hspan⟩ := hspan
  exact ⟨span, hspan, Text.span?_ordered hspan⟩

/-- A refactoring of the editor's own text that could be planned and read again is applied, and
what the editor then holds is what was read again. -/
theorem run_of_plan {e : Editor} {r : Refactoring} {settings : Settings} {x : Transformation}
    (hvalidate : settings.validateOutput = true)
    (hplan : plan r e.code e.selection settings = .ok x) :
    ∃ after, e.accept x = (after, .ok ()) ∧ e.run r settings = (after, .ok .applied) ∧
      x.output e.code e.selection = .ok after.code ∧ after.Sound settings := by
  obtain ⟨d, -, -, hvalid⟩ := plan_ok hplan
  obtain ⟨text, houtput, hreads⟩ := validate_ok (hvalid hvalidate)
  cases hresult : x.resultIn e with
  | error error =>
    -- the same patches were applied to the same text when the output was read again
    rw [output_eq, hresult] at houtput
    cases houtput
  | ok result =>
    obtain ⟨text', selection⟩ := result
    obtain rfl : text' = text := by
      rw [output_eq, hresult] at houtput
      exact Except.ok.inj houtput
    refine ⟨{ e with code := text', selection, delegated := e.delegated ++ x.commands },
      ?_, ?_, houtput, hreads, resultIn_resolves hplan hresult⟩
    · rw [accept_eq, hresult]
    · rw [run, execute, hplan]
      simp only [accept_eq, hresult]

/-- One refactoring keeps an editor sound, whatever it comes to. -/
theorem run_sound {e : Editor} {settings : Settings} (hvalidate : settings.validateOutput = true)
    (h : e.Sound settings) (r : Refactoring) : (e.run r settings).1.Sound settings := by
  cases hplan : plan r e.code e.selection settings with
  | ok x =>
    obtain ⟨after, -, hrun, -, hsound⟩ := run_of_plan hvalidate hplan
    rw [hrun]
    exact hsound
  | error failure =>
    -- nothing but the list of reasons can have changed
    rw [run, execute, hplan]
    cases failure with
    | notApplicable reason => exact ⟨h.reads, h.resolves⟩
    | fault f => exact h
    | brokenSlice => exact h

theorem runs_sound {settings : Settings} (hvalidate : settings.validateOutput = true)
    (rs : List Refactoring) {e : Editor} (h : e.Sound settings) :
    (e.runs settings rs).Sound settings := by
  induction rs generalizing e with
  | nil => exact h
  | cons r rest ih => exact ih (run_sound hvalidate h r)

/-- **Runs keep the document valid.** Start with a text that can be read and a selection that lies
in it, and let the output of each refactoring be read again. Then after any refactorings the text
can be read and the selection lies in it; and every refactoring that can be planned there is
applied, with exactly the text that planning has read again. -/
theorem runs_keep_document_valid {settings : Settings}
    (hvalidate : settings.validateOutput = true) {e : Editor} (hreads : settings.Reads e.code)
    (hresolves : (e.code.span? e.selection).isSome = true) (rs : List Refactoring) :
    (e.runs settings rs).Sound settings ∧
      ∀ r x, plan r (e.runs settings rs).code (e.runs settings rs).selection settings = .ok x →
        ∃ after, (e.runs settings rs).accept x = (after, .ok ()) ∧
          (e.runs settings rs).run r settings = (after, .ok .applied) ∧
          x.output (e.runs settings rs).code (e.runs settings rs).selection = .ok after.code ∧
          settings.Reads after.code := by
  obtain ⟨span, hspan⟩ := Option.isSome_iff_exists.mp hresolves
  have hsound : e.Sound settings := ⟨hreads, span, hspan, Text.span?_ordered hspan⟩
  refine ⟨runs_sound hvalidate rs hsound, fun r x hplan => ?_⟩
  obtain ⟨after, haccept, hrun, houtput, hafter⟩ := run_of_plan hvalidate hplan
  exact ⟨after, haccept, hrun, houtput, hafter.reads⟩

/-- A flip, a refactoring that does not apply, and an extraction. -/
theorem runs_keep_document_valid_mixed :
    Settings.validateOutput {} = true ∧ Settings.Reads {} "x(a ? 1 : 2);".toList ∧
      (Text.span? "x(a ? 1 : 2);".toList (.cursor ⟨0, 6⟩)).isSome = true ∧
      (runs {} { code := "x(a ? 1 : 2);".toList, selection := .cursor ⟨0, 6⟩ }
        [.flipTernary, .addBraces, .extractVariable]).code
          = "const extracted = 2;\nx(!a ? extracted : 1);".toList ∧
      Sound {} (runs {} { code := "x(a ? 1 : 2);".toList, selection := .cursor ⟨0, 6⟩ }
        [.flipTernary, .addBraces, .extractVariable]) :=
  ⟨rfl, by decide +kernel, by decide +kernel, by decide +kernel,
    (runs_keep_document_valid rfl (by decide +kernel) (by decide +kernel) _).1⟩

end Editor

end Retouch
