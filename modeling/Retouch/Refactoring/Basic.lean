import Retouch.Settings
import Retouch.Tree
import Retouch.Edit.Patch

/-!
# Results of refactorings

- `Transformation`: what a refactoring produces, a whole new document or patches.
- `Transformation.ofBatch`: the new document that a batch of edits makes.
- `blankStart`, `blankEnd`: the ends of the white space around an offset.
-/

namespace Retouch

/-- A command of the editor that a refactoring can ask for. -/
inductive Command where
  | renameSymbol
deriving DecidableEq, Repr

/-- Machine-readable name of a command. -/
def Command.key : Command → String
  | .renameSymbol => "renameSymbol"

/-- What a refactoring produces. -/
inductive Transformation where
  /-- the whole new text and where the selection goes -/
  | document (text : Text) (selection : Selection)
  /-- patches against the old text, then a command -/
  | patches (list : List Patch) (followUp : Option Command)

/-- The outcome of applying a refactoring to a tree. -/
abbrev Outcome := Except Failure

/-- The new document that a batch of edits makes, with the selection carried along. -/
def Transformation.ofBatch (t : Tree) (batch : Batch) (s : Selection) : Outcome Transformation :=
  match batch.applyWithSelection t.document.text s with
  | .ok (text, selection) => .ok (.document text selection)
  | .error e => .error (.fault e.toFault)

/-- Start of the white space that ends at an offset. -/
def blankStart (text : Text) (offset : Nat) : Outcome Nat :=
  match Text.cut? text offset with
  | some (before, _) => .ok (Text.size (Text.dropEndWhile before Text.isSpace))
  | none => .error .brokenSlice

/-- End of the white space that starts at an offset. -/
def blankEnd (text : Text) (offset : Nat) : Outcome Nat :=
  match Text.cut? text offset with
  | some (_, after) => .ok (Text.size text - Text.size (after.dropWhile Text.isSpace))
  | none => .error .brokenSlice

end Retouch
