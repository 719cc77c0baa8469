import Retouch.Edit.Batch

/-!
# Patches

A patch replaces the text under a selection. Patches are given in the coordinates of one
document and applied together.

- `applyPatches`: resolve every patch to a byte range, then apply the batch.
-/

namespace Retouch

/-- Replace what a selection covers by a text. -/
structure Patch where
  code : Text
  selection : Selection

namespace Patch

/-- The edit that a patch makes on a document. -/
def toEdit (document : Text) (patch : Patch) : Except EditError Edit :=
  match document.span? patch.selection with
  | some span => .ok ⟨span, patch.code⟩
  | none => .error (.patchOutside patch.selection)

/-- The edits of a list of patches, or the first patch that lies outside of the document. -/
def toBatch (document : Text) : List Patch → Except EditError Batch
  | [] => .ok []
  | patch :: rest =>
    match patch.toEdit document, toBatch document rest with
    | .ok e, .ok es => .ok (e :: es)
    | .error e, _ => .error e
    | .ok _, .error e => .error e

end Patch

/-- Apply patches to a document and carry a selection through them. -/
def applyPatches (document : Text) (selection : Selection) (patches : List Patch) :
    Except EditError (Text × Selection) :=
  match Patch.toBatch document patches with
  | .error e => .error e
  | .ok batch => batch.applyWithSelection document selection

end Retouch
