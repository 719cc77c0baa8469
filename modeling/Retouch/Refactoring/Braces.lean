import Retouch.Refactoring.Basic

/-!
# Adding braces to a conditional statement

The body of one side of an `if` that is a single statement is put into a block.

- `Braces.target?`: the innermost `if` whose side at the selection lacks braces. The `else` side
  is meant once the selection starts at or after the end of the first side; an `else if` is left
  alone.
- `Braces.transform`: the document with the braces.
-/

namespace Retouch.Braces

open Syntax (Node Form)

/-- The two sides of a conditional statement. -/
inductive Side where
  | consequent
  | alternate
deriving DecidableEq, Repr

/-- A side of a conditional statement that lacks braces. -/
structure Target where
  statement : Node
  side : Side
  body : Node
  hasAlternate : Bool

/-- The side of a conditional statement that a selection means. -/
def sideAt (d : Document) (s : Selection) (yes no : Node) : Side :=
  let stop := Selection.cursor (d.text.selection (d.range yes.span)).stop
  if no.isPresent && !s.startsBefore stop then .alternate else .consequent

/-- Whether a body on a side can be put into braces. -/
def lacksBraces (side : Side) (body : Node) : Bool :=
  match side, body.form with
  | _, .stmt .block => false
  | .alternate, .stmt .ifElse => false
  | _, _ => true

/-- The side of a conditional statement that a selection means, if it lacks braces. -/
def targetIn? (d : Document) (s : Selection) (n : Node) : Option Target :=
  match n.form, n.parts with
  | .stmt .ifElse, [_, yes, no] =>
    let side := sideAt d s yes no
    let body := match side with
      | .consequent => yes
      | .alternate => no
    if lacksBraces side body then some ⟨n, side, body, no.isPresent⟩ else none
  | _, _ => none

/-- The innermost conditional statement whose side at the selection lacks braces. -/
def target? (t : Tree) (s : Selection) : Option Target :=
  t.findInnermost? s fun id => (t.get? id).bind fun e => targetIn? t.document s e.node

/-- The edits that put a body into braces. -/
def edits (d : Document) (settings : Settings) (target : Target) : Outcome Batch := do
  let statement := d.range target.statement.span
  let body := d.range target.body.span
  let indent := d.text.indentation statement.start
  let opening : Edit :=
    ⟨⟨← blankStart d.text body.start, body.start⟩,
      " \x7b\n".toList ++ indent ++ settings.indentUnit d.text⟩
  if target.side == .consequent && target.hasAlternate then
    let stop ← blankEnd d.text body.stop
    return [opening, ⟨⟨body.stop, stop⟩, '\n' :: indent ++ "\x7d ".toList⟩]
  else
    return [opening, ⟨⟨body.stop, body.stop⟩, '\n' :: indent ++ "\x7d".toList⟩]

/-- The document with the braces. -/
def transform (t : Tree) (s : Selection) (settings : Settings) : Outcome Transformation := do
  match target? t s with
  | none => throw (.notApplicable .noIfToBrace)
  | some target =>
    let batch ← edits t.document settings target
    Transformation.ofBatch t batch s

end Retouch.Braces
