import Retouch.Refactoring.Basic

/-!
# Extracting a generic type

The primitive type of a property becomes a type parameter of the interface or type alias around
it, and the default of that parameter.

- `GenericType.freshName`: the first free name among `T`, `T1`, `T2`, …
- `GenericType.target?`: the innermost property of a primitive type, and the declaration that owns
  it.
- `GenericType.transform`: the document with the parameter.
-/

namespace Retouch.GenericType

open Syntax (Node Form TypeWord)

/-- The name and the type parameters of the declaration that gets the new parameter. -/
structure Owner where
  name : Node
  parameters : Node

/-- A primitive type and the declaration around it. -/
structure Target where
  type : Nat
  owner : Owner

/-- Types that a parameter can stand for. -/
def isPrimitive : TypeWord → Bool
  | .void | .never | .intrinsic => false
  | _ => true

/-- Whether a construct is a primitive type. -/
def isPrimitiveType (t : Tree) (id : Nat) : Bool :=
  match t.form? id with
  | some (.type (.word w)) => isPrimitive w
  | _ => false

/-- The primitive type of a property. -/
def propertyType? (t : Tree) (id : Nat) : Option Nat :=
  match t.form? id with
  | some (.element (.property _ _)) => (t.children id).find? (isPrimitiveType t)
  | _ => none

/-- The declaration that a construct is, if it can have type parameters for its members. -/
def ownerIn? (n : Node) : Option Owner :=
  match n.form, n.parts with
  | .moduleItem .exportDefaultInterface, [name, _, parameters, _] => some ⟨name, parameters⟩
  | .stmt (.declaration (.interface _)), [name, parameters, _, _] => some ⟨name, parameters⟩
  | .decl (.interface _), [name, parameters, _, _] => some ⟨name, parameters⟩
  | .stmt (.declaration (.typeAlias _)), [name, parameters, _] => some ⟨name, parameters⟩
  | .decl (.typeAlias _), [name, parameters, _] => some ⟨name, parameters⟩
  | _, _ => none

/-- The innermost declaration around a construct that can have type parameters. -/
def owner? (t : Tree) (id : Nat) : Option Owner :=
  (t.ancestors id).findSome? fun a => (t.get? a).bind fun e => ownerIn? e.node

/-- The innermost property of a primitive type, and the declaration that owns it. -/
def target? (t : Tree) (s : Selection) : Option Target :=
  t.findInnermost? s fun id =>
    match propertyType? t id, owner? t id with
    | some type, some owner => some ⟨type, owner⟩
    | _, _ => none

/-- The names that are tried for a new parameter. -/
def candidate : Nat → String
  | 0 => "T"
  | n + 1 => "T" ++ toString (n + 1)

/-- The first candidate that is not taken; among one more than there are taken names, one is. -/
def freshName (taken : List String) : String :=
  (((List.range (taken.length + 1)).map candidate).find? fun name => !taken.contains name).getD "T"

/-- The names of type parameters. -/
def parameterNames (parameters : Node) : List String :=
  parameters.parts.filterMap fun p =>
    match p.form with
    | .typeParam name _ => some name
    | _ => none

/-- The edit that declares the new parameter: before the closing bracket of the list, or as a new
list after the name. -/
def parameterEdit (d : Document) (owner : Owner) (name type : Text) : Edit :=
  if owner.parameters.isPresent then
    let closing := (d.range owner.parameters.span).stop - 1
    ⟨⟨closing, closing⟩, ", ".toList ++ name ++ " = ".toList ++ type⟩
  else
    let after := (d.range owner.name.span).stop
    ⟨⟨after, after⟩, "<".toList ++ name ++ " = ".toList ++ type ++ ">".toList⟩

/-- The document with the parameter. -/
def transform (t : Tree) (s : Selection) : Outcome Transformation := do
  match target? t s with
  | none => throw (.notApplicable .noTypeToExtract)
  | some target =>
    match t.get? target.type with
    | none => throw (.notApplicable .noTypeToExtract)
    | some type =>
      let name := (freshName (parameterNames target.owner.parameters)).toList
      let written ← t.text target.type
      Transformation.ofBatch t
        [parameterEdit t.document target.owner name written, ⟨type.range, name⟩] s

end Retouch.GenericType
