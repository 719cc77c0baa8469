import Retouch.Fault
import Retouch.Syntax.Parser.Module

/-!
# Documents

A document is a text together with its syntax tree.

- `Document.parse`: read a text; a fault in it is told with its position.
- `Document.range`: the byte range of a construct, kept inside the text.
- `Document.slice`: the text of a range; a range that cuts a character has none.

A byte-order mark at the start is no part of what is parsed but stays in the text, so byte ranges
then start three bytes before the construct.
-/

namespace Retouch

open Syntax (Node Dialect)

/-- A text and its syntax tree. -/
structure Document where
  text : Text
  program : Node

namespace Document

/-- The text without a byte-order mark at its start. -/
def withoutMark : Text → Text
  | [] => []
  | c :: rest => if c.toNat == 0xFEFF then rest else c :: rest

/-- Read a text. -/
def parse (dialect : Dialect) (text : Text) : Except Fault Document :=
  match Syntax.parse dialect (withoutMark text) with
  | .ok program => .ok ⟨text, program⟩
  | .error e =>
    let p := text.position e.offset
    .error (.parse e.message p.line p.column)

/-- The byte range of a construct, kept inside the text. -/
def range (d : Document) (span : Span) : Span :=
  let size := Text.size d.text
  let start := min span.start size
  ⟨start, max start (min span.stop size)⟩

/-- The text of a byte range. -/
def slice (d : Document) (range : Span) : Except Failure Text :=
  match Text.slice? d.text range.start range.stop with
  | some part => .ok part
  | none => .error .brokenSlice

end Document

end Retouch
