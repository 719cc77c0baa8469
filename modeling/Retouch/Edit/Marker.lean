import Retouch.Text.Lines

/-!
# Selections marked inside a text

A text can carry its own selection: `[start]` and `[end]` stand where the selection starts and
ends, and a lone `[start]` is a cursor.

- `Marked.decode?`: take the first marker of each kind out and give the selection they mark.
-/

namespace Retouch.Marked

/-- Marker of the start of a selection. -/
def startMarker : Text := "[start]".toList

/-- Marker of the end of a selection. -/
def endMarker : Text := "[end]".toList

/-- Remove the first occurrence of a word. -/
def removeFirst (word text : Text) : Text :=
  match Text.splitFirst? word text with
  | some (before, after) => before ++ after
  | none => text

/-- Byte offset of the first occurrence of a word. -/
def find? (word text : Text) : Option Nat :=
  (Text.splitFirst? word text).map fun parts => Text.size parts.1

/-- The text without its markers and the selection they mark. Without a marker the cursor is at
the beginning. There is no answer when an end is marked and no start, or when the end stands so
far ahead of the start that no start marker fits before it. -/
def decode? (marked : Text) : Option (Text × Selection) :=
  match find? startMarker marked, find? endMarker marked with
  | none, none => some (marked, .cursor ⟨0, 0⟩)
  | none, some _ => none
  | some start, stop? =>
    let code := removeFirst endMarker (removeFirst startMarker marked)
    match stop? with
    | none => some (code, code.selection ⟨start, start⟩)
    | some stop =>
      if stop < Text.size startMarker then none
      else some (code, code.selection ⟨start, stop - Text.size startMarker⟩)

end Retouch.Marked
