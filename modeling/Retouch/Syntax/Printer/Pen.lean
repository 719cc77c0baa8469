import Retouch.Syntax.Node

/-!
# Writing with indentation

A pen writes text line by line. Indentation is written before the first text of a line, and
ending a line that has no text yet does nothing.

- `Pen.write`, `Pen.line`: write text, end the line.
- `Pen.brokenList`: items one per line, one level deeper.
-/

namespace Retouch.Syntax

/-- What has been written, in reverse, the current depth, and whether the line has no text yet. -/
structure PenState where
  written : Text := []
  depth : Nat := 0
  fresh : Bool := true

/-- An action of a pen. -/
abbrev Pen := StateM PenState Unit

namespace Pen

/-- Spaces per level of indentation. -/
def indentWidth : Nat := 4

/-- Write a text that has no line break of its own to be indented. -/
def writeText (text : Text) : Pen :=
  modify fun s =>
    if text.isEmpty then
      s
    else
      let margin := if s.fresh then List.replicate (indentWidth * s.depth) ' ' else []
      { s with written := text.reverse ++ margin ++ s.written, fresh := false }

/-- Write a word or sign. -/
def write (text : String) : Pen := writeText text.toList

/-- End the line, unless it has no text yet. -/
def line : Pen :=
  modify fun s => if s.fresh then s else { s with written := '\n' :: s.written, fresh := true }

/-- Write one level deeper. -/
def deeper (p : Pen) : Pen := do
  modify fun s => { s with depth := s.depth + 1 }
  p
  modify fun s => { s with depth := s.depth - 1 }

/-- Several actions, one after another. -/
def all : List Pen → Pen
  | [] => pure ()
  | p :: rest => do
    p
    all rest

/-- Several actions with another one between them. -/
def joined (separator : Pen) : List Pen → Pen
  | [] => pure ()
  | [p] => p
  | p :: rest => do
    p
    separator
    joined separator rest

/-- Items on one line, separated by commas. -/
def commaList (items : List Pen) : Pen :=
  joined (write ", ") items

/-- Items one per line and one level deeper, separated by a sign. -/
def brokenList (separator : String) (items : List Pen) : Pen := do
  line
  deeper (joined (do write separator; line) items)
  line

/-- The text that an action writes. -/
def text (p : Pen) : Text :=
  (p.run {}).2.written.reverse

end Pen

end Retouch.Syntax
