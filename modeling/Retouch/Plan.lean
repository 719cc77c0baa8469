import Retouch.Refactoring.Registry

/-!
# Planning a refactoring

A plan reads the document, looks for something to refactor at the selection, transforms it, and
reads the new text again. It changes nothing; it ends with a transformation or with the first
thing that stands in its way.

- `plan`: the transformation of a document.
- `planSteps`: the stages that planning passes through.
- `availableActions`: the refactorings that apply at a selection.
-/

namespace Retouch

/-- The text that a transformation makes of a document. -/
def Transformation.output (x : Transformation) (code : Text) (s : Selection) : Outcome Text :=
  match x with
  | .document text _ => .ok text
  | .patches list _ =>
    match applyPatches code s list with
    | .ok (text, _) => .ok text
    | .error e => .error (.fault e.toFault)

/-- Read the new text again; a fault in it is a fault of the tool. -/
def validate (code : Text) (s : Selection) (x : Transformation) (settings : Settings) :
    Outcome Unit := do
  let output ← x.output code s
  match Document.parse settings.dialect output with
  | .ok _ => return ()
  | .error f =>
    throw (.fault ((Fault.internal "Refactoring produced code that does not parse" none).withContext
      f.message))

/-- The transformation of a document. -/
def plan (r : Refactoring) (code : Text) (s : Selection) (settings : Settings) :
    Outcome Transformation :=
  match Document.parse settings.dialect code with
  | .error f => .error (.fault f)
  | .ok d =>
    let t := Tree.ofDocument d
    if r.canPerform t s then
      match r.transform t s settings with
      | .error e => .error e
      | .ok x =>
        if settings.validateOutput then
          match validate code s x settings with
          | .error e => .error e
          | .ok _ => .ok x
        else
          .ok x
    else
      .error (.notApplicable r.reason)

/-- A stage of planning. -/
inductive Step where
  | parsed (constructs : Nat)
  | unmatched
  | matched
  | untransformed
  | transformed
  | validated
deriving DecidableEq, Repr

/-- The stages that planning passes through. -/
def planSteps (r : Refactoring) (code : Text) (s : Selection) (settings : Settings) : List Step :=
  match Document.parse settings.dialect code with
  | .error _ => []
  | .ok d =>
    let t := Tree.ofDocument d
    .parsed t.size ::
      if r.canPerform t s then
        .matched ::
          match r.transform t s settings with
          | .error (.notApplicable _) => [.untransformed]
          | .error _ => []
          | .ok x =>
            .transformed ::
              if settings.validateOutput then
                match validate code s x settings with
                | .error _ => []
                | .ok _ => [.validated]
              else
                []
      else
        [.unmatched]

/-- The refactorings that apply at a selection, in the order in which they are offered. -/
def availableActions (code : Text) (s : Selection) (settings : Settings) :
    Except Fault (List Refactoring) :=
  match Document.parse settings.dialect code with
  | .error f => .error f
  | .ok d => .ok (Refactoring.all.filter fun r => r.canPerform (Tree.ofDocument d) s)

end Retouch
