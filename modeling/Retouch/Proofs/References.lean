import Retouch.Proofs.Targets
import Retouch.Proofs.Plan

/-!
# Expressions that are used as references

Most operands are there for their values. The operand of `++`, `--` or `delete` stands for a place,
and what is called brings along the object that it is called on. Such an operand cannot be replaced
by a constant that has its value, and parentheses or assertions about its type do not change this.

- `Tree.part?`: the entry of a part of a construct.
- `Reference`: the ways of using an expression as a reference.
- `Variable.UsedAs`: an expression is used in such a way, directly or in a wrapping.
- `Variable.isExtractable_usedAs_iff`: which of these uses the search for an expression to extract
  passes over.

What a call, `new` or a tagged template calls is passed over, as long as nothing is wrapped around
it. Everything else is not: the operands of `++`, `--` and `delete`, what an optional chain calls,
and all that stands in a wrapping.
-/

namespace Retouch

open Syntax (Node Form ExprForm)
open Outline

/-! ## Parts and their entries -/

namespace Outline

theorem ofParts_append (form : Form) :
    ∀ (i : Nat) (a b : List Node),
      ofParts form i (a ++ b) = ofParts form i a ++ ofParts form (i + a.length) b
  | _, [], _ => rfl
  | i, n :: a, b => by
    have hindex : i + 1 + a.length = i + (a.length + 1) := by omega
    rw [List.cons_append, ofParts, ofParts, ofParts_append form (i + 1) a b, List.length_cons, hindex]
    split
    · rw [List.append_assoc]
    · rfl

theorem ofNode_of_entry {n : Node} (h : n.form.exposure = .entry) : ofNode n = [whole n] := by
  obtain ⟨form, span, parts⟩ := n
  rw [ofNode]
  simp only [show form.exposure = .entry from h]
  rfl

end Outline

theorem getElem?_siblingIds (o : Outline) (later : List Outline) :
    ∀ (base : Nat) (earlier : List Outline),
      (siblingIds base (earlier ++ o :: later))[earlier.length]? = some (base + sizeAll earlier) := by
  intro base earlier
  induction earlier generalizing base with
  | nil => rfl
  | cons first earlier ih =>
    rw [List.cons_append, siblingIds, List.length_cons, List.getElem?_cons_succ,
      ih (base + first.size), sizeAll, Nat.add_assoc]

namespace Tree

/-- The entry of the part with a given index, where the part has one of its own. It follows the
entries of the parts before it. -/
def part? (t : Tree) (p i : Nat) : Option Nat :=
  match t.get? p with
  | none => none
  | some outer =>
    match outer.node.parts[i]? with
    | none => none
    | some part =>
      if part.form.exposure = .entry ∧ outer.node.form.shows i = true then
        outer.children[(ofParts outer.node.form 0 (outer.node.parts.take i)).length]?
      else
        none

variable {d : Document} {p i id : Nat}

/-- The entry of a part is that of a child, and its construct is the part. -/
theorem part?_eq_some (h : (ofDocument d).part? p i = some id) :
    ∃ outer part e, (ofDocument d).get? p = some outer ∧ outer.node.parts[i]? = some part ∧
      outer.children[(ofParts outer.node.form 0 (outer.node.parts.take i)).length]? = some id ∧
      (ofDocument d).get? id = some e ∧ e.node = part ∧ e.parent = some p := by
  unfold part? at h
  split at h
  · cases h
  · next outer houter =>
    split at h
    · cases h
    · next part hpart =>
      split at h
      · next hshown =>
        refine ⟨outer, part, ?_⟩
        have hsplit : ofParts outer.node.form 0 outer.node.parts =
            ofParts outer.node.form 0 (outer.node.parts.take i) ++ whole part ::
              ofParts outer.node.form (i + 1) (outer.node.parts.drop (i + 1)) := by
          obtain ⟨hlt, hget⟩ := List.getElem?_eq_some_iff.mp hpart
          conv_lhs => rw [← List.take_append_drop i outer.node.parts, ofParts_append]
          rw [List.length_take_of_le (Nat.le_of_lt hlt), List.drop_eq_getElem_cons hlt, hget,
            Nat.zero_add, ofParts, if_pos hshown.2, ofNode_of_entry hshown.1]
          rfl
        have hid := h
        rw [children_of_get? houter, hsplit, getElem?_siblingIds] at hid
        obtain rfl := Option.some.inj hid
        have hplaced := Document.Placed.child (get?_iff_placed.mp houter) hsplit
        exact ⟨_, houter, hpart, h, hplaced.get?, rfl, rfl⟩
      · cases h

theorem parent?_of_part? (h : (ofDocument d).part? p i = some id) :
    (ofDocument d).parent? id = some p := by
  obtain ⟨-, -, e, -, -, -, he, -, hparent⟩ := part?_eq_some h
  rw [parent?, he]
  exact hparent

/-- The first part, where it has an entry, is the first child. -/
theorem head?_children_of_part? {outer : Entry} (h : (ofDocument d).part? p 0 = some id)
    (houter : (ofDocument d).get? p = some outer) : outer.children.head? = some id := by
  obtain ⟨outer', -, -, houter', -, hchild, -⟩ := part?_eq_some h
  obtain rfl : outer = outer' := Option.some.inj (houter.symm.trans houter')
  rw [List.head?_eq_getElem?]
  exact hchild

end Tree

/-! ## Uses as a reference -/

/-- The ways of using an expression as a reference. -/
inductive Reference where
  | update
  | delete
  | call
  | construct
  | tag
  /-- a call in an optional chain -/
  | optionalCall
deriving DecidableEq

/-- How a construct uses its first part, if it does so as a reference. -/
def Reference.ofForm? : Form → Option Reference
  | .expr (.update _ _) => some .update
  | .expr (.unary .delete) => some .delete
  | .expr .call => some .call
  | .expr .newExpr => some .construct
  | .expr .tagged => some .tag
  | .expr (.optionalCall _) => some .optionalCall
  | _ => none

/-- The part that a wrapping stands for: parentheses, and what says something about types only. -/
def wrappedPart? : Form → Option Nat
  | .expr .paren | .expr .nonNull | .expr .asType | .expr .asConst | .expr .satisfies
  | .expr .instantiation => some 0
  | .expr .typeAssertion => some 1
  | _ => none

namespace Variable

/-- A construct is used as a reference, either directly or as part of a wrapping that is. -/
inductive UsedAs (t : Tree) (r : Reference) : Nat → Bool → Prop where
  | direct {p id : Nat} (hform : (t.form? p).bind Reference.ofForm? = some r)
      (hpart : t.part? p 0 = some id) : UsedAs t r id false
  | wrapped {p i id : Nat} {b : Bool} (hform : (t.form? p).bind wrappedPart? = some i)
      (hpart : t.part? p i = some id) (h : UsedAs t r p b) : UsedAs t r id true

/-- Whether the search for an expression to extract looks at a use. -/
def isSeen : Reference → Bool
  | .call | .construct | .tag => true
  | .update | .delete | .optionalCall => false

variable {d : Document} {p id : Nat}

/-- What a construct does to its first part decides whether it counts as calling it. -/
theorem callsFirstChild_eq {form : Form} {span : Span} {part : Node} {rest : List Node}
    {r : Reference} (hform : Reference.ofForm? form = some r)
    (hpart : part.form.isExpression = true) :
    callsFirstChild (.mk form span (part :: rest)) = isSeen r := by
  unfold Reference.ofForm? at hform
  split at hform
  all_goals cases hform
  case h_3 => exact hpart
  all_goals rfl

/-- Apart from expression statements, only what calls its first child binds a child. -/
theorem isBound_of_parent {outer : Entry} (hparent : (Tree.ofDocument d).parent? id = some p)
    (houter : (Tree.ofDocument d).get? p = some outer)
    (hstatement : outer.node.form ≠ .stmt .expression) :
    isBound (Tree.ofDocument d) id =
      (callsFirstChild outer.node && outer.children.head? == some id) := by
  unfold isBound
  rw [hparent, Option.bind_some, houter]
  dsimp only
  split
  · next h => exact absurd h hstatement
  · rfl

/-- What stands in a wrapping is not bound. -/
theorem isBound_wrapped {i : Nat}
    (hform : ((Tree.ofDocument d).form? p).bind wrappedPart? = some i)
    (hpart : (Tree.ofDocument d).part? p i = some id) : isBound (Tree.ofDocument d) id = false := by
  obtain ⟨outer, -, -, houter, -⟩ := Tree.part?_eq_some hpart
  rw [Tree.form?, houter, Option.map_some, Option.bind_some] at hform
  have hstatement : outer.node.form ≠ .stmt .expression := by
    intro h
    rw [h] at hform
    cases hform
  have hcalls : callsFirstChild outer.node = false := by
    unfold callsFirstChild
    split
    · next h _ => rw [h] at hform; cases hform
    · next h => rw [h] at hform; cases hform
    · next h => rw [h] at hform; cases hform
    · rfl
  rw [isBound_of_parent (Tree.parent?_of_part? hpart) houter hstatement, hcalls, Bool.false_and]

/-- An expression that is directly used as a reference is bound if the search looks at this use. -/
theorem isBound_direct {r : Reference} {form : ExprForm}
    (hform : ((Tree.ofDocument d).form? p).bind Reference.ofForm? = some r)
    (hpart : (Tree.ofDocument d).part? p 0 = some id)
    (hid : (Tree.ofDocument d).form? id = some (.expr form)) :
    isBound (Tree.ofDocument d) id = isSeen r := by
  obtain ⟨outer, part, e, houter, hfirst, -, he, rfl, -⟩ := Tree.part?_eq_some hpart
  have hhead := Tree.head?_children_of_part? hpart houter
  rw [Tree.form?, houter, Option.map_some, Option.bind_some] at hform
  have hstatement : outer.node.form ≠ .stmt .expression := by
    intro h
    rw [h] at hform
    cases hform
  have hexpression : e.node.form.isExpression = true := by
    rw [Tree.form?, he, Option.map_some] at hid
    rw [Option.some.inj hid]
    rfl
  have hcalls : callsFirstChild outer.node = isSeen r := by
    obtain ⟨⟨outerForm, span, parts⟩, range, selection, parent, children⟩ := outer
    cases parts with
    | nil => cases hfirst
    | cons first rest =>
      obtain rfl : first = e.node := Option.some.inj hfirst
      exact callsFirstChild_eq hform hexpression
  rw [isBound_of_parent (Tree.parent?_of_part? hpart) houter hstatement, hhead, beq_self_eq_true,
    Bool.and_true, hcalls]

/-- **Which uses as a reference are passed over.** An expression that is used as a reference can be
extracted exactly if it stands in a wrapping or if the search does not look at its use. -/
theorem isExtractable_usedAs_iff {r : Reference} {b : Bool} {form : ExprForm}
    (hid : (Tree.ofDocument d).form? id = some (.expr form)) (hvalue : isValueForm form = true)
    (huse : UsedAs (Tree.ofDocument d) r id b) :
    isExtractable (Tree.ofDocument d) id = true ↔ b = true ∨ isSeen r = false := by
  have hbound : isExtractable (Tree.ofDocument d) id = !isBound (Tree.ofDocument d) id := by
    rw [isExtractable, hid]
    simp only [hvalue, Bool.true_and]
  rw [hbound]
  cases huse with
  | direct hform hpart =>
    rw [isBound_direct hform hpart hid]
    simp
  | wrapped hform hpart _ =>
    rw [isBound_wrapped hform hpart]
    simp

/-- What the search finds is an expression of a kind that can be the value of a constant. -/
theorem isExtractable_of_target? {s : Selection} {target : Target}
    (h : target? (Tree.ofDocument d) s = some target) :
    isExtractable (Tree.ofDocument d) target.expression = true ∧
      ∃ form, (Tree.ofDocument d).form? target.expression = some (.expr form) ∧
        isValueForm form = true := by
  unfold target? at h
  split at h
  · cases h
  · next expression hfound =>
    obtain ⟨statement, -, rfl⟩ := Option.map_eq_some_iff.mp h
    obtain ⟨hextractable, -⟩ := Tree.exists_of_innermost? hfound
    refine ⟨hextractable, ?_⟩
    unfold isExtractable at hextractable
    split at hextractable
    · next form hform =>
      exact ⟨form, hform, ((Bool.and_eq_true _ _).mp hextractable).1⟩
    · cases hextractable

/-- **An extracted expression is never called directly.** If it is used as a reference at all, then
it stands in a wrapping, or it is the operand of `++`, `--` or `delete` or what an optional chain
calls. In these uses every expression that can be the value of a constant can be extracted, and in
the others none can. -/
theorem extracted_not_called (d : Document) :
    (∀ s target, target? (Tree.ofDocument d) s = some target →
      ∀ r b, UsedAs (Tree.ofDocument d) r target.expression b →
        b = true ∨ r ∈ [Reference.update, .delete, .optionalCall]) ∧
    ∀ id form r b, (Tree.ofDocument d).form? id = some (.expr form) → isValueForm form = true →
      UsedAs (Tree.ofDocument d) r id b →
        (isExtractable (Tree.ofDocument d) id = true ↔
          b = true ∨ r ∈ [Reference.update, .delete, .optionalCall]) := by
  have hseen (r : Reference) : isSeen r = false ↔ r ∈ [Reference.update, .delete, .optionalCall] := by
    cases r <;> decide
  refine ⟨fun s target htarget r b huse => ?_, fun id form r b hid hvalue huse => ?_⟩
  · obtain ⟨hextractable, form, hform, hvalue⟩ := isExtractable_of_target? htarget
    rw [← hseen]
    exact (isExtractable_usedAs_iff hform hvalue huse).mp hextractable
  · rw [← hseen]
    exact isExtractable_usedAs_iff hid hvalue huse

/-- With the cursor on what a call calls, it is the call that is extracted; what is called in
parentheses is extracted itself. -/
theorem extracted_not_called_method :
    ∃ d, Document.parse {} "x = a.b(1) + (c.d)();".toList = .ok d ∧
      target? (Tree.ofDocument d) (.cursor ⟨0, 5⟩) = some ⟨4, 1⟩ ∧
      UsedAs (Tree.ofDocument d) .call 5 false ∧
      isExtractable (Tree.ofDocument d) 5 = false ∧
      UsedAs (Tree.ofDocument d) .call 10 true ∧
      isExtractable (Tree.ofDocument d) 10 = true := by
  obtain ⟨d, hd, htarget, hmember, hcall, hcallee, hinner, hparen, hwrapped, hparens, hparensCallee⟩ :
      ∃ d, Document.parse {} "x = a.b(1) + (c.d)();".toList = .ok d ∧
        target? (Tree.ofDocument d) (.cursor ⟨0, 5⟩) = some ⟨4, 1⟩ ∧
        (Tree.ofDocument d).form? 5 = some (.expr .member) ∧
        ((Tree.ofDocument d).form? 4).bind Reference.ofForm? = some .call ∧
        (Tree.ofDocument d).part? 4 0 = some 5 ∧
        (Tree.ofDocument d).form? 10 = some (.expr .member) ∧
        ((Tree.ofDocument d).form? 9).bind wrappedPart? = some 0 ∧
        (Tree.ofDocument d).part? 9 0 = some 10 ∧
        ((Tree.ofDocument d).form? 8).bind Reference.ofForm? = some .call ∧
        (Tree.ofDocument d).part? 8 0 = some 9 :=
    Document.exists_parse (by decide +kernel)
  have hdirect : UsedAs (Tree.ofDocument d) .call 5 false := .direct hcall hcallee
  have hindirect : UsedAs (Tree.ofDocument d) .call 10 true :=
    .wrapped hparen hwrapped (.direct hparens hparensCallee)
  refine ⟨d, hd, htarget, hdirect, ?_, hindirect, ?_⟩
  · have hiff := (extracted_not_called d).2 5 .member .call false hmember rfl hdirect
    exact Bool.eq_false_iff.mpr fun h => absurd (hiff.mp h) (by decide)
  · exact ((extracted_not_called d).2 10 .member .call true hinner rfl hindirect).mpr (.inl rfl)

/-- The operand of `++` and what an optional chain calls are extracted, so that a constant is written
to and a method loses its object. -/
theorem extraction_takes_references :
    (∃ d x, Document.parse {} "x = a.b++;".toList = .ok d ∧
      target? (Tree.ofDocument d) (.cursor ⟨0, 5⟩) = some ⟨4, 1⟩ ∧
      UsedAs (Tree.ofDocument d) .update 4 false ∧
      transform (Tree.ofDocument d) (.cursor ⟨0, 5⟩) {} = .ok x ∧
      x.output d.text (.cursor ⟨0, 5⟩) = .ok "const extracted = a.b;\nx = extracted++;".toList) ∧
    ∃ d x, Document.parse {} "x = a.b?.();".toList = .ok d ∧
      target? (Tree.ofDocument d) (.cursor ⟨0, 5⟩) = some ⟨4, 1⟩ ∧
      UsedAs (Tree.ofDocument d) .optionalCall 4 false ∧
      transform (Tree.ofDocument d) (.cursor ⟨0, 5⟩) {} = .ok x ∧
      x.output d.text (.cursor ⟨0, 5⟩) = .ok "const extracted = a.b;\nx = extracted?.();".toList := by
  constructor
  · obtain ⟨d, hd, htarget, hform, hpart, hextract⟩ :
        ∃ d, Document.parse {} "x = a.b++;".toList = .ok d ∧
          target? (Tree.ofDocument d) (.cursor ⟨0, 5⟩) = some ⟨4, 1⟩ ∧
          ((Tree.ofDocument d).form? 3).bind Reference.ofForm? = some .update ∧
          (Tree.ofDocument d).part? 3 0 = some 4 ∧
          ((transform (Tree.ofDocument d) (.cursor ⟨0, 5⟩) {}).toOption.bind fun x =>
            (x.output d.text (.cursor ⟨0, 5⟩)).toOption) =
              some "const extracted = a.b;\nx = extracted++;".toList :=
      Document.exists_parse (by decide +kernel)
    obtain ⟨x, hx, hout⟩ := Option.bind_eq_some_iff.mp hextract
    exact ⟨d, x, hd, htarget, .direct hform hpart, Outcome.eq_ok_of_toOption hx,
      Outcome.eq_ok_of_toOption hout⟩
  · obtain ⟨d, hd, htarget, hform, hpart, hextract⟩ :
        ∃ d, Document.parse {} "x = a.b?.();".toList = .ok d ∧
          target? (Tree.ofDocument d) (.cursor ⟨0, 5⟩) = some ⟨4, 1⟩ ∧
          ((Tree.ofDocument d).form? 3).bind Reference.ofForm? = some .optionalCall ∧
          (Tree.ofDocument d).part? 3 0 = some 4 ∧
          ((transform (Tree.ofDocument d) (.cursor ⟨0, 5⟩) {}).toOption.bind fun x =>
            (x.output d.text (.cursor ⟨0, 5⟩)).toOption) =
              some "const extracted = a.b;\nx = extracted?.();".toList :=
      Document.exists_parse (by decide +kernel)
    obtain ⟨x, hx, hout⟩ := Option.bind_eq_some_iff.mp hextract
    exact ⟨d, x, hd, htarget, .direct hform hpart, Outcome.eq_ok_of_toOption hx,
      Outcome.eq_ok_of_toOption hout⟩

end Variable

end Retouch
