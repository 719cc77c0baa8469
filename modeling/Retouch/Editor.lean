import Retouch.Plan

/-!
# Editors

An editor holds a document and a selection, and keeps a record of the commands it was asked to run
and of the reasons it was told.

- `Editor.apply`: apply patches, all or none.
- `Editor.accept`: hand a transformation to the editor, and after patches ask for the command that
  follows them.
- `Editor.execute`: plan a refactoring and hand the result to the editor; if the refactoring does
  not apply, the reason is recorded.
- `Editor.run`: the same at the editor's own text and selection.
-/

namespace Retouch

/-- An editor over a document in memory. -/
structure Editor where
  code : Text
  selection : Selection := Selection.cursor ⟨0, 0⟩
  supportsCommands : Bool := true
  delegated : List Command := []
  reasons : List Reason := []

/-- How a refactoring ended in an editor. -/
inductive Ending where
  | applied
  | notApplicable (reason : Reason)
deriving DecidableEq, Repr

namespace Editor

/-- Replace the whole text, and the selection if one is given. -/
def write (e : Editor) (code : Text) (selection : Option Selection) : Editor :=
  { e with code := code, selection := selection.getD e.selection }

/-- Apply patches to the editor's text. -/
def apply (e : Editor) (patches : List Patch) : Editor × Except EditError Unit :=
  match applyPatches e.code e.selection patches with
  | .ok (code, selection) => ({ e with code := code, selection := selection }, .ok ())
  | .error error => (e, .error error)

/-- Ask for a command. It is recorded in any case; the answer is whether it is supported. -/
def delegate (e : Editor) (command : Command) : Editor × Bool :=
  ({ e with delegated := e.delegated ++ [command] }, e.supportsCommands)

/-- Tell the user why nothing happened. -/
def showReason (e : Editor) (reason : Reason) : Editor :=
  { e with reasons := e.reasons ++ [reason] }

/-- Hand a transformation to the editor, one step after the other. What the steps before a failing
one have done stays done. -/
def accept (e : Editor) (x : Transformation) : Editor × Except Failure Unit :=
  match x with
  | .document code selection => (e.write code (some selection), .ok ())
  | .patches list followUp =>
    match e.apply list with
    | (after, .error error) => (after, .error (.fault error.toFault))
    | (patched, .ok _) =>
      match followUp with
      | none => (patched, .ok ())
      | some command => ((patched.delegate command).1, .ok ())

/-- Plan a refactoring of a text and hand the result to the editor. -/
def execute (e : Editor) (r : Refactoring) (code : Text) (s : Selection) (settings : Settings) :
    Editor × Except Failure Ending :=
  match plan r code s settings with
  | .error (.notApplicable reason) => (e.showReason reason, .ok (.notApplicable reason))
  | .error failure => (e, .error failure)
  | .ok x =>
    match e.accept x with
    | (after, .ok _) => (after, .ok .applied)
    | (after, .error failure) => (after, .error failure)

/-- Plan a refactoring of the editor's own text and apply it. -/
def run (e : Editor) (r : Refactoring) (settings : Settings) : Editor × Except Failure Ending :=
  e.execute r e.code e.selection settings

end Editor

end Retouch
