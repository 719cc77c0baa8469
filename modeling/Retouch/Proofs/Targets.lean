import Retouch.Proofs.Matching
import Retouch.Refactoring.Registry

/-!
# Where refactorings work

A refactoring looks for a construct around the selection and hands on only what it needs of it. Here
the search is turned round: from what was handed on to the construct, its parts and its place in the
tree.

- `Refactoring.site?`: the construct that a refactoring works in.
- `Refactoring.WorksAt`: its entry, which is around the selection; `WorksAt.exists_span?` says that
  the selection then lies in the text.
- `Braces.exists_site`, `Switch.exists_site`, `Variable.exists_site`, `GenericType.exists_site`,
  `Ternary.exists_site`: what a target of each refactoring is in the tree.
- `GenericType.exists_property`: the property whose type becomes a parameter.
-/

namespace Retouch

open Syntax (Node Form)

/-- The construct that a refactoring works in: the `if` that gets braces, the `if` that starts the
chain, the statement before which a variable is declared, the declaration that gets a type
parameter, or the conditional expression. -/
def Refactoring.site? (r : Refactoring) (t : Tree) (s : Selection) : Option Nat :=
  match r with
  | .addBraces => t.innermost? s fun id =>
    ((t.get? id).bind fun e => Braces.targetIn? t.document s e.node).isSome
  | .convertToSwitch => t.innermost? s fun id => (Switch.targetAt? t id).isSome
  | .extractVariable => (Variable.target? t s).map Variable.Target.statement
  | .extractGenericType =>
    let property := t.innermost? s fun id =>
      (GenericType.propertyType? t id).isSome && (GenericType.owner? t id).isSome
    property.bind fun id => (t.ancestors id).find? fun a =>
      ((t.get? a).bind fun e => GenericType.ownerIn? e.node).isSome
  | .flipTernary => t.innermost? s fun id =>
    ((t.get? id).bind fun e => Ternary.targetIn? e.node).isSome

/-- The entry of the construct that a refactoring works in, which is around the selection. -/
structure Refactoring.WorksAt (r : Refactoring) (t : Tree) (s : Selection) (id : Nat) (e : Entry) :
    Prop where
  site : r.site? t s = some id
  entry : t.get? id = some e
  inside : s.isInside e.selection = true

/-! ## Searches turned round -/

theorem find?_of_findSome? {α β : Type} {f : α → Option β} {list : List α} {b : β}
    (h : list.findSome? f = some b) :
    ∃ a, list.find? (fun a => (f a).isSome) = some a ∧ f a = some b := by
  obtain ⟨earlier, a, later, hsplit, ha, hearlier⟩ := List.findSome?_eq_some_iff.mp h
  refine ⟨a, List.find?_eq_some_iff_append.mpr ⟨by simp [ha], earlier, later, hsplit, ?_⟩, ha⟩
  intro x hx
  simp [hearlier x hx]

namespace Tree

variable {t : Tree} {s : Selection} {id : Nat}

theorem exists_of_innermost? {test : Nat → Bool} (h : t.innermost? s test = some id) :
    test id = true ∧ ∃ e, t.get? id = some e ∧ s.isInside e.selection = true :=
  ⟨List.find?_some h, holds_iff.mp (mem_containing.mp (List.mem_of_find?_eq_some h))⟩

/-- What a search finds comes from the construct at which it ends. -/
theorem findInnermost?_eq_some {α : Type} {extract : Nat → Option α} {x : α}
    (h : t.findInnermost? s extract = some x) :
    ∃ id e, t.innermost? s (fun id => (extract id).isSome) = some id ∧ t.get? id = some e ∧
      s.isInside e.selection = true ∧ extract id = some x := by
  obtain ⟨id, hfind, hx⟩ := find?_of_findSome? h
  obtain ⟨-, e, he, hs⟩ := exists_of_innermost? hfind
  exact ⟨id, e, hfind, he, hs, hx⟩

end Tree

/-- A selection in a construct lies in the text: no line behind the construct's last is meant. -/
theorem Tree.exists_span?_of_isInside {d : Document} {s : Selection} {id : Nat} {e : Entry}
    (he : (Tree.ofDocument d).get? id = some e) (hs : s.isInside e.selection = true) :
    ∃ span, d.text.span? s = some span := by
  obtain ⟨-, hstop⟩ := Selection.isInside_iff.mp hs
  rw [Tree.selection_eq he, d.text.selection_of_le (Tree.range_ordered he).1] at hstop
  have hline := Nat.lt_of_le_of_lt (Position.line_le hstop)
    (d.text.position_line_lt e.range.stop)
  exact Text.exists_span? (Nat.lt_of_le_of_lt (Position.line_le s.start_le_stop) hline) hline

theorem Refactoring.WorksAt.exists_span? {r : Refactoring} {d : Document} {s : Selection}
    {id : Nat} {e : Entry} (h : r.WorksAt (Tree.ofDocument d) s id e) :
    ∃ span, d.text.span? s = some span :=
  Tree.exists_span?_of_isInside h.entry h.inside

/-! ## The sites of the refactorings -/

variable {d : Document} {s : Selection}

namespace Braces

/-- The `else` side is meant only where there is one. -/
theorem sideAt_cases (d : Document) (s : Selection) (yes no : Node) :
    sideAt d s yes no = .consequent ∨ sideAt d s yes no = .alternate ∧ no.isPresent = true := by
  unfold sideAt
  dsimp only
  split
  · next hlater =>
    rw [Bool.and_eq_true] at hlater
    exact .inr ⟨rfl, hlater.1⟩
  · exact .inl rfl

/-- The `if` that gets braces, and the side that is meant. -/
theorem exists_site {target : Target} (h : target? (Tree.ofDocument d) s = some target) :
    ∃ id e test yes no, Refactoring.addBraces.WorksAt (Tree.ofDocument d) s id e ∧
      target.statement = e.node ∧ e.node.form = .stmt .ifElse ∧ e.node.parts = [test, yes, no] ∧
      target.hasAlternate = no.isPresent ∧
      (target.side = .consequent ∧ target.body = yes ∨
        target.side = .alternate ∧ target.body = no ∧ no.isPresent = true) := by
  obtain ⟨id, e, hsite, he, hs, htarget⟩ := Tree.findInnermost?_eq_some h
  rw [he, Option.bind_some] at htarget
  unfold targetIn? at htarget
  split at htarget
  · next test yes no hform hparts =>
    refine ⟨id, e, test, yes, no, ⟨hsite, he, hs⟩, ?_⟩
    rcases sideAt_cases (Tree.ofDocument d).document s yes no with hside | ⟨hside, hno⟩
    · simp only [hside] at htarget
      split at htarget
      · cases htarget
        exact ⟨rfl, hform, hparts, rfl, .inl ⟨rfl, rfl⟩⟩
      · cases htarget
    · simp only [hside] at htarget
      split at htarget
      · cases htarget
        exact ⟨rfl, hform, hparts, rfl, .inr ⟨rfl, rfl, hno⟩⟩
      · cases htarget
  · cases htarget

end Braces

namespace Ternary

/-- The conditional expression. -/
theorem exists_site {target : Target} (h : target? (Tree.ofDocument d) s = some target) :
    ∃ id e, Refactoring.flipTernary.WorksAt (Tree.ofDocument d) s id e ∧
      e.node.form = .expr .conditional ∧ e.node.parts = [target.test, target.yes, target.no] := by
  obtain ⟨id, e, hsite, he, hs, htarget⟩ := Tree.findInnermost?_eq_some h
  rw [he, Option.bind_some] at htarget
  unfold targetIn? at htarget
  split at htarget
  · next test yes no hform hparts =>
    cases htarget
    exact ⟨id, e, ⟨hsite, he, hs⟩, hform, hparts⟩
  · cases htarget

end Ternary

namespace Switch

/-- The `if` that starts the chain. -/
theorem exists_site {target : Target} (h : target? (Tree.ofDocument d) s = some target) :
    ∃ id e, Refactoring.convertToSwitch.WorksAt (Tree.ofDocument d) s id e ∧
      target.head = e.node ∧ e.node.form = .stmt .ifElse ∧ chain? e.node = some target.chain := by
  obtain ⟨id, e, hsite, he, hs, htarget⟩ := Tree.findInnermost?_eq_some h
  unfold targetAt? at htarget
  simp only [he] at htarget
  split at htarget
  · next hif =>
    obtain ⟨chain, hchain, rfl⟩ := Option.map_eq_some_iff.mp htarget
    have hform : e.node.form = .stmt .ifElse := by
      rw [Bool.and_eq_true] at hif
      have hif := hif.1
      unfold Form.isIf at hif
      split at hif
      · assumption
      · cases hif
    exact ⟨id, e, ⟨hsite, he, hs⟩, rfl, hform, hchain⟩
  · cases htarget

end Switch

namespace Variable

/-- Walking up ends at the construct itself or at one around it, and that one is a statement. -/
theorem insertionFrom_eq_some {t : Tree} {statement : Nat} :
    ∀ {current : Nat} {ancestors : List Nat}, insertionFrom t current ancestors = some statement →
      (statement = current ∨ statement ∈ ancestors) ∧
        ∃ e, t.get? statement = some e ∧ e.node.form.isStatement = true
  | _, [], h => nomatch h
  | current, ancestor :: rest, h => by
    unfold insertionFrom at h
    split at h
    · next outer inner houter hinner =>
      split at h
      · next hlist =>
        cases h
        obtain ⟨e, he, rfl⟩ := Option.map_eq_some_iff.mp hinner
        rw [Bool.and_eq_true] at hlist
        exact ⟨.inl rfl, e, he, hlist.2⟩
      · split at h
        · cases h
        · obtain ⟨hplace, hentry⟩ := insertionFrom_eq_some h
          refine ⟨.inr ?_, hentry⟩
          rcases hplace with rfl | hrest
          · exact List.mem_cons_self
          · exact List.mem_cons_of_mem _ hrest
    · cases h

/-- The statement before which the variable is declared, and the expression in it. -/
theorem exists_site (hnested : (Tree.ofDocument d).Nested) {target : Target}
    (h : target? (Tree.ofDocument d) s = some target) :
    ∃ e outer, Refactoring.extractVariable.WorksAt (Tree.ofDocument d) s target.statement outer ∧
      outer.node.form.isStatement = true ∧
      (Tree.ofDocument d).get? target.expression = some e ∧ e.node.form.isExpression = true ∧
      e.range.IsInside outer.range := by
  have hsite : Refactoring.extractVariable.site? (Tree.ofDocument d) s = some target.statement := by
    rw [Refactoring.site?, h]
    rfl
  unfold target? at h
  split at h
  · cases h
  · next expression hfound =>
    obtain ⟨statement, hstatement, rfl⟩ := Option.map_eq_some_iff.mp h
    obtain ⟨hextractable, e, he, hs⟩ := Tree.exists_of_innermost? hfound
    obtain ⟨hplace, outer, houter, hform⟩ := insertionFrom_eq_some hstatement
    have hexpression : e.node.form.isExpression = true := by
      unfold isExtractable Tree.form? at hextractable
      rw [he, Option.map_some] at hextractable
      split at hextractable
      · next form hform =>
        rw [Option.some.inj hform]
        rfl
      · cases hextractable
    rcases hplace with rfl | hancestor
    · -- the expression is itself the statement; both have one entry
      obtain rfl : e = outer := Option.some.inj (he.symm.trans houter)
      exact ⟨e, e, ⟨hsite, he, hs⟩, hform, he, hexpression, Nat.le_refl _, Nat.le_refl _⟩
    · have hunder := Tree.mem_ancestors_iff.mp hancestor
      have hholds := hnested.holds_of_under hunder (Tree.holds_iff.mpr ⟨e, he, hs⟩)
      obtain ⟨outer', houter', hinside⟩ := Tree.holds_iff.mp hholds
      obtain rfl : outer = outer' := Option.some.inj (houter.symm.trans houter')
      exact ⟨e, outer, ⟨hsite, houter, hinside⟩, hform, he, hexpression,
        hnested.isInside_of_under hunder he houter⟩

end Variable

namespace GenericType

/-- The property that was found, its primitive type, and the declaration around it that gets the type
parameter. -/
theorem exists_property {target : Target} (h : target? (Tree.ofDocument d) s = some target) :
    ∃ property outer id e,
      (Tree.ofDocument d).innermost? s (fun id => (propertyType? (Tree.ofDocument d) id).isSome &&
        (owner? (Tree.ofDocument d) id).isSome) = some property ∧
      (Tree.ofDocument d).get? property = some outer ∧ s.isInside outer.selection = true ∧
      (Tree.ofDocument d).IsChildOf target.type property ∧
      isPrimitiveType (Tree.ofDocument d) target.type = true ∧
      ((Tree.ofDocument d).ancestors property).find? (fun a =>
        (((Tree.ofDocument d).get? a).bind fun e => ownerIn? e.node).isSome) = some id ∧
      (Tree.ofDocument d).get? id = some e ∧ ownerIn? e.node = some target.owner := by
  obtain ⟨property, outer, hfound, hproperty, hs, htarget⟩ := Tree.findInnermost?_eq_some h
  split at htarget
  · next type owner htype howner =>
    cases htarget
    obtain ⟨id, hfirst, hid⟩ := find?_of_findSome? howner
    obtain ⟨e, he, hin⟩ := Option.bind_eq_some_iff.mp hid
    refine ⟨property, outer, id, e, ?_, hproperty, hs, ?_, ?_, hfirst, he, hin⟩
    · -- a pair is found exactly where both of its halves are
      rw [← hfound]
      congr 1
      funext id
      cases propertyType? (Tree.ofDocument d) id with
      | none => rfl
      | some type => cases owner? (Tree.ofDocument d) id <;> rfl
    all_goals
      unfold propertyType? at htype
      split at htype
    · exact Tree.mem_children_iff.mp (List.mem_of_find?_eq_some htype)
    · cases htype
    · exact List.find?_some htype
    · cases htype
  · cases htarget

/-- The declaration that gets the type parameter, and the primitive type below it. -/
theorem exists_site (hnested : (Tree.ofDocument d).Nested) {target : Target}
    (h : target? (Tree.ofDocument d) s = some target) :
    ∃ id e type, Refactoring.extractGenericType.WorksAt (Tree.ofDocument d) s id e ∧
      ownerIn? e.node = some target.owner ∧
      (Tree.ofDocument d).get? target.type = some type ∧
      (Tree.ofDocument d).Under target.type id := by
  obtain ⟨property, outer, id, e, hfound, houter, hs, hlink, -, hfirst, he, hin⟩ :=
    exists_property h
  have hunder := Tree.mem_ancestors_iff.mp (List.mem_of_find?_eq_some hfirst)
  obtain ⟨type, -, htype, -⟩ := hlink.exists_entries
  obtain ⟨e', he', hinside⟩ :=
    Tree.holds_iff.mp (hnested.holds_of_under hunder (Tree.holds_iff.mpr ⟨_, houter, hs⟩))
  obtain rfl : e = e' := Option.some.inj (he.symm.trans he')
  refine ⟨id, e, type, ⟨?_, he, hinside⟩, hin, htype, .head hlink hunder⟩
  rw [Refactoring.site?, hfound]
  exact hfirst

end GenericType

end Retouch
