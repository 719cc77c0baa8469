import Retouch.Refactoring.Basic

/-!
# Converting a chain of conditions to a switch

An `if` with its `else if` branches, all of which compare one expression with a literal, becomes a
`switch` over that expression.

- `Switch.equality?`: an equality with a literal on exactly one side.
- `Switch.chain?`: the whole chain from an `if`, when every test compares the same expression.
- `Switch.target?`: the innermost `if` around the selection that starts such a chain.
- `Switch.terminates`: control never falls out of a statement.
- `Switch.transform`: the document with the switch.
-/

namespace Retouch.Switch

open Syntax (Node Form)

/-- A branch: the literal it is for, or nothing for the last `else`, and its body. -/
structure Branch where
  value : Option Node
  body : Node

/-- The expression that a chain compares, and its branches. -/
structure Chain where
  subject : Node
  branches : List Branch

/-- Whether an expression can be the value of a case: a literal, or a template without
substitutions. -/
def isCaseValue (e : Node) : Bool :=
  match e.form with
  | .expr (.string _) | .expr (.number _) | .expr (.bigint _) | .expr (.boolean _) | .expr .null
  | .expr (.regex _ _) => true
  | .expr .template => e.parts.length == 1
  | _ => false

/-- The compared expression and the literal of an equality. -/
def equality? (test : Node) : Option (Node × Node) :=
  match test with
  | .mk (.expr (.binary op)) _ [left, right] =>
    if op == .eqEqEq || op == .eqEq then
      match isCaseValue left, isCaseValue right with
      | false, true => some (left, right)
      | true, false => some (right, left)
      | _, _ => none
    else
      none
  | _ => none

/-- Whether an expression is the one that a chain compares, if it is known already. -/
def agrees (known : Option Node) (subject : Node) : Bool :=
  match known with
  | none => true
  | some k => k.same subject

/-- The branches from an `if` on, each of which compares the known expression. -/
def branches? (known : Option Node) : Node → Option (List Branch)
  | .mk (.stmt .ifElse) _ [test, yes, no] =>
    match equality? test with
    | none => none
    | some (subject, value) =>
      if agrees known subject then
        let branch : Branch := ⟨some value, yes⟩
        match no.form with
        | .absent => some [branch]
        | .stmt .ifElse =>
          (branches? (some (known.getD subject)) no).map fun more => branch :: more
        | _ => some [branch, ⟨none, no⟩]
      else
        none
  | _ => none

/-- The whole chain from an `if`, when every test compares the same expression. -/
def chain? (head : Node) : Option Chain :=
  match head with
  | .mk (.stmt .ifElse) _ (test :: _) =>
    match equality? test, branches? none head with
    | some (subject, _), some branches => some ⟨subject, branches⟩
    | _, _ => none
  | _ => none

/-- Whether a construct is the `else` branch of the `if` around it. -/
def isAlternate (t : Tree) (id : Nat) : Bool :=
  match (t.parent? id).bind t.get? with
  | some parent => parent.node.form.isIf && parent.children[2]? == some id
  | none => false

/-- A chain and the `if` that starts it. -/
structure Target where
  head : Node
  chain : Chain

/-- The chain that a construct starts. -/
def targetAt? (t : Tree) (id : Nat) : Option Target :=
  match t.get? id with
  | none => none
  | some e =>
    if e.node.form.isIf && !isAlternate t id then
      (chain? e.node).map fun chain => ⟨e.node, chain⟩
    else
      none

/-- The innermost `if` around the selection that starts a chain. -/
def target? (t : Tree) (s : Selection) : Option Target :=
  t.findInnermost? s (targetAt? t)

mutual

/-- Control never falls out of a statement. -/
def terminates : Node → Bool
  | .mk (.stmt .returnStmt) _ _ | .mk (.stmt .throwStmt) _ _ => true
  | .mk (.stmt .block) _ statements => someTerminates statements
  | .mk (.stmt .ifElse) _ [_, yes, no] => terminates yes && terminates no
  | _ => false

/-- Control never falls out of some statement of a list. -/
def someTerminates : List Node → Bool
  | [] => false
  | n :: rest => terminates n || someTerminates rest

end

/-- The statements of a branch's body. -/
def statements (body : Node) : List Node :=
  match body.form with
  | .stmt .block => body.parts
  | _ => [body]

/-- One statement of a branch, moved to the indentation of the case's body. -/
def statementText (d : Document) (bodyIndent : Text) (n : Node) : Outcome Text := do
  let range := d.range n.span
  let text ← d.slice range
  return bodyIndent ++ reindent text (d.text.indentation range.start) bodyIndent ++ ['\n']

/-- The line that opens a case. -/
def caseLine (d : Document) (indent : Text) (value : Option Node) : Outcome Text := do
  match value with
  | some v =>
    let text ← d.slice (d.range v.span)
    return indent ++ "case ".toList ++ text ++ ":\n".toList
  | none => return indent ++ "default:\n".toList

/-- A case with its statements. -/
def caseText (d : Document) (indent bodyIndent : Text) (addBreak : Bool) (b : Branch) :
    Outcome Text := do
  let head ← caseLine d indent b.value
  let body ← (statements b.body).mapM (statementText d bodyIndent)
  let last := if addBreak then bodyIndent ++ "break;\n".toList else []
  return head ++ body.flatten ++ last

/-- The switch that a chain becomes. -/
def switchText (d : Document) (settings : Settings) (target : Target) : Outcome Text := do
  let indent := d.text.indentation (d.range target.head.span).start
  let bodyIndent := indent ++ settings.indentUnit d.text
  let addBreaks := !target.chain.branches.all fun b => terminates b.body
  let subject ← d.slice (d.range target.chain.subject.span)
  let cases ← target.chain.branches.mapM (caseText d indent bodyIndent addBreaks)
  return "switch (".toList ++ subject ++ ") \x7b\n".toList ++ cases.flatten ++ indent
    ++ "\x7d".toList

/-- The document with the switch. -/
def transform (t : Tree) (s : Selection) (settings : Settings) : Outcome Transformation := do
  match target? t s with
  | none => throw (.notApplicable .noIfElseToConvert)
  | some target =>
    let text ← switchText t.document settings target
    Transformation.ofBatch t [⟨t.document.range target.head.span, text⟩] s

end Retouch.Switch
