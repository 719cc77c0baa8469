import Retouch.Refactoring.Basic

/-!
# Flipping a conditional expression

The test is negated and the two results change places.

- `Ternary.target?`: the innermost conditional expression around the selection.
- `Ternary.negate`: the text of the negation of a test. A negation is taken away, an equality
  gets the opposite operator, and anything else gets a negation in front.
- `Ternary.transform`: the flipped document.
-/

namespace Retouch.Ternary

open Syntax (Node Form BinaryOp)

/-- The parts of a conditional expression. -/
structure Target where
  test : Node
  yes : Node
  no : Node

/-- The parts of a conditional expression. -/
def targetIn? (n : Node) : Option Target :=
  match n.form, n.parts with
  | .expr .conditional, [test, yes, no] => some ⟨test, yes, no⟩
  | _, _ => none

/-- The innermost conditional expression around the selection. -/
def target? (t : Tree) (s : Selection) : Option Target :=
  t.findInnermost? s fun id => (t.get? id).bind fun e => targetIn? e.node

/-- The opposite of an equality operator. -/
def opposite? : BinaryOp → Option BinaryOp
  | .eqEqEq => some .notEqEq
  | .notEqEq => some .eqEqEq
  | .eqEq => some .notEq
  | .notEq => some .eqEq
  | _ => none

/-- The text of an equality with another operator; both operands stay as written. -/
def flipEquality (d : Document) (whole left right : Span) (old new : String) : Outcome Text := do
  let whole := d.range whole
  let gap : Span := ⟨(d.range left).stop, (d.range right).start⟩
  match Text.splitFirst? old.toList (← d.slice gap) with
  | none =>
    throw (.fault (.internal ("No `" ++ old ++ "` between the operands of a comparison") none))
  | some (before, _) =>
    let operator := gap.start + Text.size before
    let head ← d.slice ⟨whole.start, operator⟩
    let tail ← d.slice ⟨operator + Text.size old.toList, whole.stop⟩
    return head ++ new.toList ++ tail

/-- Whether an expression needs its parentheses when a negation in front of them goes. -/
def needsParens (inner : Node) : Bool :=
  match inner.form with
  | .expr (.assign _) | .expr .sequence | .expr (.arrow _) | .expr (.yieldExpr _)
  | .expr .conditional => true
  | _ => false

/-- Whether a negation can stand directly before an expression. -/
def takesNegation (e : Node) : Bool :=
  match e.form with
  | .expr (.ident _) | .expr .member | .expr .call | .expr (.optionalMember _)
  | .expr (.optionalCall _) | .expr .paren | .expr .this | .expr (.string _) | .expr (.number _)
  | .expr (.bigint _) | .expr (.boolean _) | .expr .null | .expr (.regex _ _) => true
  | _ => false

/-- What stands under a negation, without parentheses that are not needed. -/
def negated (operand : Node) : Node :=
  match operand with
  | .mk (.expr .paren) _ [inner] => if needsParens inner then operand else inner
  | _ => operand

/-- The text of the negation of a test. -/
def negate (d : Document) (test : Node) : Outcome Text := do
  let text ← d.slice (d.range test.span)
  let wrapped : Text := "!(".toList ++ text ++ ")".toList
  match test with
  | .mk (.expr (.unary .bang)) _ [operand] => d.slice (d.range (negated operand).span)
  | .mk (.expr (.binary op)) span [left, right] =>
    match opposite? op with
    | some other => flipEquality d span left.span right.span op.text other.text
    | none => return wrapped
  | _ => return if takesNegation test then '!' :: text else wrapped

/-- The edits that flip a conditional expression. -/
def edits (d : Document) (target : Target) : Outcome Batch := do
  let test ← negate d target.test
  let yes := d.range target.yes.span
  let no := d.range target.no.span
  return [⟨d.range target.test.span, test⟩, ⟨yes, ← d.slice no⟩, ⟨no, ← d.slice yes⟩]

/-- The flipped document. -/
def transform (t : Tree) (s : Selection) : Outcome Transformation := do
  match target? t s with
  | none => throw (.notApplicable .noTernaryToFlip)
  | some target =>
    let batch ← edits t.document target
    Transformation.ofBatch t batch s

end Retouch.Ternary
