import Retouch.Document
import Retouch.Syntax.Printer.Basic

/-!
# Printed documents

- `Document.print`: a document in one uniform layout, without its comments.
- `Document.printsStably`: printing what was printed gives the same text again.
-/

namespace Retouch.Document

/-- A document in one uniform layout, without its comments. -/
def print (d : Document) : Text :=
  d.program.print (withoutMark d.text)

/-- Number of statements, imports and exports at the top. -/
def itemCount (d : Document) : Nat :=
  d.program.parts.length

/-- Whether the printed text, read and printed again, stays the same. -/
def printsStably (d : Document) (dialect : Syntax.Dialect) : Bool :=
  match parse dialect d.print with
  | .ok again => again.print == d.print
  | .error _ => false

end Retouch.Document
