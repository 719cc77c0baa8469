import Retouch.Refactoring.Basic

/-!
# Extracting a variable

An expression is replaced by a name, and a constant of that name is declared before the statement
that holds the expression.

- `Variable.isExtractable`: whether a construct can stand on its own as the value of a constant.
- `Variable.insertionStatement?`: the statement before which the declaration goes. There is none
  if a function, a member of a class or a loop comes in between, because the expression would
  then be evaluated at another time or another number of times.
- `Variable.transform`: the two patches, followed by a command to rename the constant.
-/

namespace Retouch.Variable

open Syntax (Node Form ExprForm)

/-- Kinds of expressions that can be the value of a constant. -/
def isValueForm : ExprForm → Bool
  | .string _ | .number _ | .bigint _ | .boolean _ | .null | .regex _ _ | .template | .tagged
  | .array | .object | .call | .newExpr | .member | .optionalMember _ | .optionalCall _ | .binary _
  | .unary _ | .conditional | .arrow _ | .function | .classExpr | .paren | .awaitExpr | .asType
  | .nonNull | .satisfies => true
  | _ => false

/-- Whether the first child of a construct is what it calls. -/
def callsFirstChild (n : Node) : Bool :=
  match n.form, n.parts with
  | .expr .call, callee :: _ => callee.form.isExpression
  | .expr .newExpr, _ | .expr .tagged, _ => true
  | _, _ => false

/-- Whether a construct is one that its parent leaves no room to replace: the whole of an
expression statement, or what a call, `new` or tagged template calls. -/
def isBound (t : Tree) (id : Nat) : Bool :=
  match (t.parent? id).bind t.get? with
  | none => false
  | some parent =>
    match parent.node.form with
    | .stmt .expression => true
    | _ => callsFirstChild parent.node && parent.children.head? == some id

/-- Whether a construct can stand on its own as the value of a constant. -/
def isExtractable (t : Tree) (id : Nat) : Bool :=
  match t.form? id with
  | some (.expr form) => isValueForm form && !isBound t id
  | _ => false

/-- Walk up from a construct to the first statement in a list of statements. -/
def insertionFrom (t : Tree) (current : Nat) : List Nat → Option Nat
  | [] => none
  | ancestor :: rest =>
    match t.form? ancestor, t.form? current with
    | some outer, some inner =>
      if outer.isStatementList && inner.isStatement then
        some current
      else if outer.isFunctionBoundary || outer.isLoop then
        none
      else
        insertionFrom t ancestor rest
    | _, _ => none

/-- The statement before which the declaration goes. -/
def insertionStatement? (t : Tree) (id : Nat) : Option Nat :=
  insertionFrom t id (t.ancestors id)

/-- An expression and the statement before which it is declared. -/
structure Target where
  expression : Nat
  statement : Nat
deriving DecidableEq, Repr

/-- The innermost expression around the selection that can be extracted, and its statement. -/
def target? (t : Tree) (s : Selection) : Option Target :=
  match t.innermost? s (isExtractable t) with
  | none => none
  | some expression => (insertionStatement? t expression).map fun statement => ⟨expression, statement⟩

/-- The declaration of a constant, with the indentation of what follows it. -/
def declaration (name value indent : Text) : Text :=
  "const ".toList ++ name ++ " = ".toList ++ value ++ ";\n".toList ++ indent

/-- The patches, followed by a command to rename the constant. -/
def transform (t : Tree) (s : Selection) (settings : Settings) : Outcome Transformation := do
  match target? t s with
  | none => throw (.notApplicable .noCodeToExtract)
  | some target =>
    match t.get? target.statement, t.get? target.expression with
    | some statement, some expression =>
      let indent := t.document.text.indentation statement.range.start
      let value ← t.text target.expression
      return .patches
        [⟨declaration settings.extractedName value indent, statement.selection.collapse⟩,
          ⟨settings.extractedName, expression.selection⟩]
        (some .renameSymbol)
    | _, _ => throw (.notApplicable .noCodeToExtract)

end Retouch.Variable
