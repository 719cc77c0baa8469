import Retouch.Text.Basic
import Retouch.Selection

/-!
# Lines and columns of a text

A line ends at each line feed; its text leaves out the line feed and one carriage return before
it. These functions convert between byte offsets and positions.

- `Text.position`: the position of an offset; an offset inside a character counts as the
  character's start, and one past the end as the end.
- `Text.offset?`: the offset of a position; a column past the end of its line counts as the end
  of the line, and a line that does not exist has no offset.
- `Text.lineText?`, `Text.indentation`: the text and the leading blanks of a line.
-/

namespace Retouch

/-- A half-open range of byte offsets. -/
structure Span where
  start : Nat
  stop : Nat
deriving DecidableEq, Repr

namespace Span

/-- Number of bytes covered. -/
def length (s : Span) : Nat := s.stop - s.start

/-- A range that covers nothing. -/
def isEmpty (s : Span) : Bool := s.stop ≤ s.start

/-- The two ends joined by two dots. -/
def display (s : Span) : String :=
  toString s.start ++ ".." ++ toString s.stop

end Span

namespace Text

/-- Position of an offset, counted on from the position of the text's first character. -/
def positionFrom : Text → Nat → Position → Position
  | [], _, here => here
  | c :: rest, offset, here =>
    if c.utf8Size ≤ offset then
      positionFrom rest (offset - c.utf8Size)
        (if c == '\n' then ⟨here.line + 1, 0⟩ else ⟨here.line, here.column + 1⟩)
    else
      here

/-- Position of a byte offset. -/
def position (text : Text) (offset : Nat) : Position :=
  positionFrom text offset ⟨0, 0⟩

/-- The lines of a text without their line feeds. -/
def rawLines (text : Text) : List Text :=
  splitOnChar '\n' text

/-- A line without the carriage return at its end. -/
def dropReturn (line : Text) : Text :=
  if line.getLast? == some '\r' then line.dropLast else line

/-- Text of a line without its line break. -/
def lineText? (text : Text) (line : Nat) : Option Text :=
  (text.rawLines[line]?).map dropReturn

/-- Byte offset at which a line starts. -/
def lineStart (text : Text) (line : Nat) : Nat :=
  (text.rawLines.take line).foldl (fun start raw => start + Text.size raw + 1) 0

/-- Byte offset of a position. -/
def offset? (text : Text) (p : Position) : Option Nat :=
  (text.lineText? p.line).map fun line =>
    text.lineStart p.line + Text.size (line.take p.column)

/-- Byte range of a selection. -/
def span? (text : Text) (s : Selection) : Option Span :=
  match text.offset? s.start, text.offset? s.stop with
  | some start, some stop => some ⟨start, stop⟩
  | _, _ => none

/-- The selection that covers a byte range. -/
def selection (text : Text) (s : Span) : Selection :=
  Selection.between (text.position s.start) (text.position s.stop)

/-- Leading spaces and tabs of the line that holds an offset. -/
def indentation (text : Text) (offset : Nat) : Text :=
  match text.lineText? (text.position offset).line with
  | some line => line.takeWhile isIndent
  | none => []

end Text

end Retouch
