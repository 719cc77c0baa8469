import Retouch.Document
import Retouch.Outline
import Retouch.Syntax.Kind

/-!
# Trees of constructs

The outline of a document as a numbered list: each construct with its byte range, its selection,
its parent and its children. Numbers are given in pre-order, the whole document is number 0.

- `Tree.ofDocument`: the tree of a document.
- `Tree.containing`: the constructs around a selection, innermost first.
- `Tree.innermost?`: the first of them that satisfies a test.
- `Tree.at?`: the innermost construct at a position.
-/

namespace Retouch

open Syntax (Node Form)

/-- A construct in its place. -/
structure Entry where
  node : Node
  range : Span
  selection : Selection
  parent : Option Nat
  children : List Nat

/-- The constructs of a document, in pre-order. -/
structure Tree where
  document : Document
  entries : List Entry

/-- Numbers of siblings, the first of which has a given number. -/
def siblingIds : Nat → List Outline → List Nat
  | _, [] => []
  | id, o :: rest => id :: siblingIds (id + o.size) rest

namespace Document

mutual

/-- The entries of an outline whose root has a given number and range. -/
def entriesAt (d : Document) (parent : Option Nat) (id : Nat) (range : Span) :
    Outline → List Entry
  | .mk node children =>
    ⟨node, range, d.text.selection range, parent, siblingIds (id + 1) children⟩
      :: entriesOf d id (id + 1) children

/-- The entries of the outlines below a parent, the first of which has a given number. -/
def entriesOf (d : Document) (parent : Nat) : Nat → List Outline → List Entry
  | _, [] => []
  | id, o :: rest =>
    entriesAt d (some parent) id (d.range o.node.span) o ++ entriesOf d parent (id + o.size) rest

end

end Document

namespace Tree

/-- The tree of a document. -/
def ofDocument (d : Document) : Tree :=
  ⟨d, d.entriesAt none 0 ⟨0, Text.size d.text⟩
    (.mk d.program (Outline.ofParts d.program.form 0 d.program.parts))⟩

/-- Number of constructs. -/
def size (t : Tree) : Nat := t.entries.length

/-- The construct with a given number. -/
def get? (t : Tree) (id : Nat) : Option Entry := t.entries[id]?

/-- The form of a construct. -/
def form? (t : Tree) (id : Nat) : Option Form :=
  (t.get? id).map fun e => e.node.form

/-- The parent of a construct. -/
def parent? (t : Tree) (id : Nat) : Option Nat :=
  (t.get? id).bind fun e => e.parent

/-- The children of a construct. -/
def children (t : Tree) (id : Nat) : List Nat :=
  match t.get? id with
  | some e => e.children
  | none => []

/-- Constructs around a construct, innermost first, as many as given at most. -/
def ancestorsFrom (t : Tree) : Nat → Nat → List Nat
  | 0, _ => []
  | fuel + 1, id =>
    match t.parent? id with
    | some p => p :: ancestorsFrom t fuel p
    | none => []

/-- Constructs around a construct, innermost first. -/
def ancestors (t : Tree) (id : Nat) : List Nat :=
  t.ancestorsFrom t.size id

/-- Length of a construct's range. -/
def length (t : Tree) (id : Nat) : Nat :=
  match t.get? id with
  | some e => e.range.length
  | none => 0

/-- Whether a selection lies inside a construct. -/
def holds (t : Tree) (s : Selection) (id : Nat) : Bool :=
  match t.get? id with
  | some e => s.isInside e.selection
  | none => false

/-- Whether a construct comes before another among those around a selection: the shorter one,
and of two of one length the one with the larger number. -/
def isInner (t : Tree) (a b : Nat) : Bool :=
  t.length a < t.length b || (t.length a == t.length b && b ≤ a)

/-- Insert a construct into a list of constructs, before the first that is no more inner. -/
def insertInner (t : Tree) (id : Nat) : List Nat → List Nat
  | [] => [id]
  | other :: rest => if t.isInner id other then id :: other :: rest else other :: t.insertInner id rest

/-- The constructs around a selection, innermost first. -/
def containing (t : Tree) (s : Selection) : List Nat :=
  ((List.range t.size).filter (t.holds s)).foldr t.insertInner []

/-- The innermost construct around a selection that satisfies a test. -/
def innermost? (t : Tree) (s : Selection) (test : Nat → Bool) : Option Nat :=
  (t.containing s).find? test

/-- What the innermost construct around a selection for which something is found gives. -/
def findInnermost? {α : Type} (t : Tree) (s : Selection) (extract : Nat → Option α) : Option α :=
  (t.containing s).findSome? extract

/-- The innermost construct at a position, apart from the whole document. -/
def at? (t : Tree) (p : Position) : Option Nat :=
  (t.containing (Selection.cursor p)).find? (· != 0)

/-- The text of a construct. -/
def text (t : Tree) (id : Nat) : Except Failure Text :=
  match t.get? id with
  | some e => t.document.slice e.range
  | none => .error .brokenSlice

end Tree

end Retouch
