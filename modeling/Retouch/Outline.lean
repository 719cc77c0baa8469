import Retouch.Syntax.Node

/-!
# Outlines

An outline of a syntax tree keeps the constructs that can be targets of a refactoring or stand
around one, and leaves out the rest: names, keys, binding patterns in declarations, types outside
of interfaces and type aliases.

- `Form.exposure`: whether a construct has an entry of its own in the outline.
- `Form.shows`: which parts of a construct are looked at.
- `Outline.ofNode`: the outlines of a tree.
-/

namespace Retouch

namespace Syntax

/-- How a construct appears in an outline: with an entry, only through its parts, or not. -/
inductive Exposure where
  | entry
  | partsOnly
  | hidden
deriving DecidableEq, Repr

/-- How a construct appears in an outline. -/
def Form.exposure : Form → Exposure
  | .program | .moduleItem _ | .stmt _ | .decl _ | .block | .expr _ | .declarator _
  | .function _ _ | .classBody _ | .member _ | .switchCase | .catchClause | .property _
  | .pattern _ | .element _ | .type _ => .entry
  | .group | .loopVars _ | .parameter _ | .spread | .computed => .partsOnly
  | _ => .hidden

/-- Which parts of a declaration are looked at, by their index. -/
def DeclForm.shows : DeclForm → Nat → Bool
  | .classDecl _, i | .function _, i => i == 1
  | .var _ _, _ => true
  | .interface _, i => i == 3
  | .typeAlias _, i => i == 2
  | .usingVars _, _ | .enum _ _, _ | .namespaceDecl _ _, _ => false

/-- Which parts of a statement are looked at. -/
def StmtForm.shows : StmtForm → Nat → Bool
  | .labeled, i => i == 1
  | .breakStmt, _ | .continueStmt, _ => false
  | .declaration d, i => d.shows i
  | _, _ => true

/-- Which parts of an import or export are looked at. -/
def ModuleForm.shows : ModuleForm → Nat → Bool
  | .exportDecl, _ | .exportDefaultExpr, _ | .exportAssign, _ => true
  | .exportDefaultDecl, i | .exportDefaultInterface, i => i == 1
  | _, _ => false

/-- Which parts of an expression are looked at. -/
def ExprForm.shows : ExprForm → Nat → Bool
  | .function, i | .classExpr, i | .assign _, i | .typeAssertion, i => i == 1
  | .call, i | .newExpr, i | .optionalCall _, i | .tagged, i => i == 0 || i == 2
  | .arrow _, i => i == 1 || i == 3
  | .asType, i | .asConst, i | .satisfies, i | .instantiation, i => i == 0
  | .superMember, _ | .jsxElement, _ | .jsxFragment, _ => false
  | _, _ => true

/-- Which parts of a member of a class are looked at. -/
def MemberForm.shows : MemberForm → Nat → Bool
  | .constructor _, i | .property _ _ _, i => i == 2
  | .method _ _ _ _, i => i == 1
  | .staticBlock, _ => true
  | _, _ => false

/-- Which parts of a property of an object literal are looked at. -/
def PropertyForm.shows : PropertyForm → Nat → Bool
  | .shorthand _, _ => false
  | .keyValue, i | .assign, i | .method, i => i == 1
  | .getter, i | .setter, i => i == 2

/-- Which parts of a construct are looked at. -/
def Form.shows : Form → Nat → Bool
  | .moduleItem f, i => f.shows i
  | .stmt f, i => f.shows i
  | .decl f, i => f.shows i
  | .expr f, i => f.shows i
  | .declarator _, i | .catchClause, i | .parameter _, i => i == 1
  | .function _ _, i => i == 2 || i == 4
  | .classBody _, i => i == 5
  | .member f, i => f.shows i
  | .property f, i => f.shows i
  | .pattern .assign, i => i == 1
  | .pattern _, _ => false
  | .element (.property _ _), i => i == 1
  | .element _, _ => false
  | .type .literal, _ => true
  | .type _, _ => false
  | _, _ => true

end Syntax

open Syntax (Node Form)

/-- A construct and the outlines of what it holds. -/
inductive Outline where
  | mk (node : Node) (children : List Outline)

namespace Outline

/-- The construct itself. -/
def node : Outline → Node
  | mk node _ => node

/-- What it holds, in order. -/
def children : Outline → List Outline
  | mk _ children => children

mutual

/-- The outlines of a tree: one, or those of its parts. -/
def ofNode : Node → List Outline
  | .mk form span parts =>
    match form.exposure with
    | .entry => [mk (.mk form span parts) (ofParts form 0 parts)]
    | .partsOnly => ofParts form 0 parts
    | .hidden => []

/-- The outlines of the parts that a construct shows, from a given index on. -/
def ofParts (form : Form) : Nat → List Node → List Outline
  | _, [] => []
  | i, part :: rest =>
    if form.shows i then ofNode part ++ ofParts form (i + 1) rest
    else ofParts form (i + 1) rest

end

mutual

/-- Number of constructs in an outline. -/
def size : Outline → Nat
  | mk _ children => 1 + sizeAll children

/-- Number of constructs in a list of outlines. -/
def sizeAll : List Outline → Nat
  | [] => 0
  | o :: rest => size o + sizeAll rest

end

end Outline

end Retouch
