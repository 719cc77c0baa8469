import Retouch.Fault
import Retouch.Text.Lines

/-!
# Batches of text edits

An edit replaces a byte range of a text; an insertion replaces an empty range. A batch holds
edits against one snapshot, in the order in which they were added. It is applied as a whole or
not at all, and an offset or a selection can be carried through it.

- `Batch.ascending`: the edits by start offset; equal starts keep their order.
- `Batch.check`: the first defect of the batch on a text, if any.
- `Batch.apply`: the new text, made from the bottom of the document up.
- `Batch.landing`, `Batch.mapOffset`: where an offset of the old text lies in the new one.
- `Batch.applyWithSelection`: the new text with a selection carried along.
-/

namespace Retouch

/-- Replace a byte range by a text. -/
structure Edit where
  span : Span
  text : Text
deriving DecidableEq, Repr

/-- Why a batch of edits cannot be applied. -/
inductive EditError where
  | outside (span : Span) (size : Nat)
  | splitsCharacter (span : Span)
  | overlap (first second : Span)
  | selectionOutside (selection : Selection)
  | patchOutside (selection : Selection)

namespace EditError

/-- Text for the user. -/
def message : EditError → String
  | .outside span size =>
    "Edit range " ++ span.display ++ " is outside of the document (" ++ toString size ++ " bytes)"
  | .splitsCharacter span => "Edit range " ++ span.display ++ " splits a character"
  | .overlap first second => "Edits " ++ first.display ++ " and " ++ second.display ++ " overlap"
  | .selectionOutside s => "Selection " ++ s.display ++ " is outside of the document"
  | .patchOutside s => "Patch selection " ++ s.display ++ " is outside of the document"

/-- Every defect of a batch is invalid data. -/
def toFault (e : EditError) : Fault :=
  .invalidData e.message

end EditError

/-- Edits against one snapshot, in the order in which they were added. -/
abbrev Batch := List Edit

namespace Batch

/-- Insert an edit into an ascending list, after all that do not start later. -/
def insertByStart (e : Edit) : List Edit → List Edit
  | [] => [e]
  | f :: rest =>
    if e.span.start < f.span.start then e :: f :: rest else f :: insertByStart e rest

/-- The edits sorted by start offset; equal starts keep the order of addition. -/
def ascending (batch : Batch) : List Edit :=
  batch.foldl (fun sorted e => insertByStart e sorted) []

/-- What is wrong with one edit on its own. -/
def editError? (source : Text) (e : Edit) : Option EditError :=
  if e.span.stop < e.span.start || source.size < e.span.stop then
    some (.outside e.span source.size)
  else if !source.isBoundary e.span.start || !source.isBoundary e.span.stop then
    some (.splitsCharacter e.span)
  else
    none

/-- The first edit of an ascending list that starts before the one before it ends. -/
def overlap? : List Edit → Option EditError
  | a :: b :: rest =>
    if b.span.start < a.span.stop then some (.overlap a.span b.span) else overlap? (b :: rest)
  | _ => none

/-- The first defect: ranges in the order of addition, then overlaps from the top down. -/
def check (batch : Batch) (source : Text) : Option EditError :=
  match batch.findSome? (editError? source) with
  | some e => some e
  | none => overlap? (ascending batch)

/-- Replace one range; a range that the text cannot be cut at leaves it alone. -/
def splice (e : Edit) (source : Text) : Text :=
  match source.cut? e.span.start, source.cut? e.span.stop with
  | some (before, _), some (_, after) => before ++ e.text ++ after
  | _, _ => source

/-- Apply every edit, the last of the ascending order first, so that no edit shifts the offsets
of one that is still to come. -/
def apply (batch : Batch) (source : Text) : Except EditError Text :=
  match batch.check source with
  | some e => .error e
  | none => .ok ((ascending batch).foldr splice source)

/-- Change of length that an edit makes. -/
def growth (e : Edit) : Int :=
  (Text.size e.text : Int) - (e.span.length : Int)

/-- Number of words of 64 bits. -/
def wordCount : Nat := Nat.pow 2 64

/-- Offsets are words of 64 bits. -/
def wordOf (n : Int) : Nat :=
  (n % (wordCount : Int)).toNat

/-- Where an offset lands in the new text: a signed place, counted with the growth of the edits
before it, and a distance into a replacement that starts there. -/
structure Landing where
  base : Int
  within : Nat
deriving DecidableEq, Repr

/-- Walk the ascending edits with the growth so far. -/
def landFrom (offset : Nat) : List Edit → Int → Landing
  | [], growthSoFar => ⟨offset + growthSoFar, 0⟩
  | e :: rest, growthSoFar =>
    if e.span.isEmpty then
      if e.span.start < offset then landFrom offset rest (growthSoFar + growth e)
      else ⟨offset + growthSoFar, 0⟩
    else if e.span.stop ≤ offset then
      landFrom offset rest (growthSoFar + growth e)
    else if e.span.start < offset then
      ⟨e.span.start + growthSoFar, Text.floor e.text (offset - e.span.start)⟩
    else
      ⟨offset + growthSoFar, 0⟩

/-- Where an offset of the old text lands. An insertion exactly at the offset leaves it before the
inserted text. An offset strictly inside a replaced range keeps its distance from the start of the
range, as far as the replacement reaches. -/
def landing (batch : Batch) (offset : Nat) : Landing :=
  landFrom offset (ascending batch) 0

/-- Where an offset of the old text lies in the new one, as a word. -/
def mapOffset (batch : Batch) (offset : Nat) : Nat :=
  wordOf ((batch.landing offset).base + (batch.landing offset).within)

/-- Apply the batch and carry a selection into the new text. -/
def applyWithSelection (batch : Batch) (source : Text) (selection : Selection) :
    Except EditError (Text × Selection) :=
  match batch.apply source with
  | .error e => .error e
  | .ok output =>
    match source.span? selection with
    | none => .error (.selectionOutside selection)
    | some span =>
      .ok (output, output.selection ⟨batch.mapOffset span.start, batch.mapOffset span.stop⟩)

end Batch

end Retouch
