import Retouch.Proofs.Scopes

/-!
# Names that an extracted expression reads

An extracted expression is evaluated before the statement that held it, so the names in it should
not depend on what that statement declares.

- `Tree.DeclaredWithin`: a name that is declared in a statement and in scope at an expression in it.
- `Variable.scopeAt_eq`: on the way from an expression to its statement, only the cases of a switch
  bring names into scope. The heads of loops, parameters and the variables of catch clauses do not,
  because the walk ends before them.
- `Variable.extraction_scopes`: for each name, whether it is declared in between, and whether it has
  the same scope at the expression and at the declaration.

There are two ways in which the declaration comes to stand before what it reads: the statement
itself declares the name, as in `const a = 1, b = a + 1`; or the expression is the test of a case,
and the name is declared in a case of the same switch.
-/

namespace Retouch

open Syntax (Node Form)

/-- The names that the cases of a switch share, for a case. -/
def Syntax.Node.sharedNames (outer : Node) (inner : Form) : List String :=
  if outer.form = .stmt .switchStmt ∧ inner = .switchCase then outer.caseNames else []

namespace Syntax.Node

variable {around outer : Node} {inner : Form}

/-- Apart from functions and loops, only lists of statements and switches bring names into scope. -/
theorem namesFor_eq_sharedNames (houter : outer.form.isFrame = false)
    (hlist : (outer.form.isStatementList && inner.isStatement) = false)
    (hinner : ∀ a b, inner ≠ .function a b) : outer.namesFor inner = outer.sharedNames inner := by
  have hplain (hform : outer.form ≠ .stmt .switchStmt) : outer.sharedNames inner = [] :=
    if_neg fun h => hform h.1
  unfold namesFor
  split
  case h_1 hform | h_2 hform | h_3 hform =>
    -- a list, whose part is then no statement
    rw [hform] at hlist
    rw [hplain (by rw [hform]; nofun)]
    exact if_neg (Bool.eq_false_iff.mp hlist)
  case h_4 hform => simp only [sharedNames, hform, true_and]
  case h_5 hform | h_6 hform | h_7 hform | h_8 hform | h_9 hform | h_10 hform =>
    rw [hform] at houter
    cases houter
  case h_11 hform =>
    rw [hplain (by rw [hform]; nofun)]
    split
    · exact absurd rfl (hinner _ _)
    · rfl
  case h_12 => exact (hplain (by assumption)).symm

theorem namesThrough_eq_nil (hlist : (outer.form.isStatementList && inner.isStatement) = false)
    (hinner : ∀ f, inner ≠ .member f) : around.namesThrough outer inner = [] := by
  unfold namesThrough
  split
  · next hform =>
    rw [hform] at hlist
    exact if_neg (Bool.eq_false_iff.mp hlist)
  · split
    · exact absurd rfl (hinner _)
    · rfl
  · rfl

end Syntax.Node

namespace Tree

/-- The names that a statement declares for what is around it. -/
def declaredAt (t : Tree) (id : Nat) : List String :=
  match t.get? id with
  | some e => e.node.declaredNames
  | none => []

/-- The names that a case shares with the other cases of its switch. -/
def sharedAt (t : Tree) (id : Nat) : List String :=
  match t.form? id, (t.parent? id).bind t.get? with
  | some inner, some outer => outer.node.sharedNames inner
  | _, _ => []

/-- A name that is declared in a statement, outside of a construct in it, and that is in scope at
the construct: either the statement declares it for what is around, or it comes into scope on the
way. -/
def DeclaredWithin (t : Tree) (statement id : Nat) (name : String) : Prop :=
  name ∈ t.declaredAt statement ∨ ∃ c ∈ t.within id statement, name ∈ t.scopeAt c

instance (t : Tree) (statement id : Nat) (name : String) :
    Decidable (t.DeclaredWithin statement id name) :=
  inferInstanceAs (Decidable (_ ∨ _))

/-- A name that the cases of a switch share, of which one stands between a construct and a statement
around it. -/
def SharedWithin (t : Tree) (statement id : Nat) (name : String) : Prop :=
  ∃ c ∈ t.within id statement, name ∈ t.sharedAt c

instance (t : Tree) (statement id : Nat) (name : String) :
    Decidable (t.SharedWithin statement id name) :=
  inferInstanceAs (Decidable (∃ c ∈ _, _))

end Tree

namespace Variable

open Retouch.Tree

variable {d : Document} {s : Selection} {target : Target} {id statement c : Nat}

section Way

variable {form : Syntax.ExprForm} {p : Nat} {e outer : Entry}

/-- What the walk goes through is no frame. -/
theorem isFrame_of_mem_within (h : (ofDocument d).MeetsFirst id statement)
    (hc : c ∈ (ofDocument d).within id statement) (hlink : (ofDocument d).IsChildOf c p)
    (houter : (ofDocument d).get? p = some outer) : outer.node.form.isFrame = false := by
  obtain ⟨hplace, hunder⟩ := mem_within_iff.mp hc
  have hframe : (ofDocument d).isFrame p = false := by
    rcases (under_iff hlink).mp hunder with rfl | hps
    · exact isFrame_eq_false_of_isListed h.meets.listed
    · refine h.meets.clear p ?_ hps
      rcases hplace with rfl | hic
      · exact .single hlink
      · exact hic.tail hlink
  rwa [isFrame, form?_of_get? houter, Option.any_some] at hframe

/-- What the walk starts from or passes by is no statement of a list, no function and no member. The
expression may be an arrow, but it is none of these. -/
theorem form_of_mem_within (hform : (ofDocument d).form? id = some (.expr form))
    (h : (ofDocument d).MeetsFirst id statement) (hc : c ∈ (ofDocument d).within id statement)
    (hlink : (ofDocument d).IsChildOf c p) (he : (ofDocument d).get? c = some e)
    (houter : (ofDocument d).get? p = some outer) :
    (outer.node.form.isStatementList && e.node.form.isStatement) = false ∧
      (∀ a b, e.node.form ≠ .function a b) ∧ ∀ m, e.node.form ≠ .member m := by
  obtain ⟨rfl | hic, hunder⟩ := mem_within_iff.mp hc
  · rw [Option.some.inj ((form?_of_get? he).symm.trans hform)]
    exact ⟨Bool.and_false _, fun _ _ => nofun, fun _ => nofun⟩
  · have hframe := h.meets.clear c hic hunder
    rw [isFrame, form?_of_get? he, Option.any_some] at hframe
    refine ⟨?_, fun a b heq => ?_, fun m heq => ?_⟩
    · -- such a statement would have been met before
      have hlisted := h.isListed_eq_false hic hunder
      rw [Form.isFrame, Bool.or_eq_false_iff] at hframe
      rwa [isListed_eq hlink he houter, hframe.2, Bool.not_false, Bool.and_true,
        Bool.and_comm] at hlisted
    · rw [heq] at hframe
      cases hframe
    · rw [heq] at hframe
      cases hframe

/-- On the way from an expression to its statement, only the cases of a switch bring names into
scope. -/
theorem scopeAt_eq (hform : (ofDocument d).form? id = some (.expr form))
    (h : (ofDocument d).MeetsFirst id statement) (hc : c ∈ (ofDocument d).within id statement) :
    (ofDocument d).scopeAt c = (ofDocument d).sharedAt c := by
  obtain ⟨p, hlink⟩ := (mem_within_iff.mp hc).2.exists_isChildOf
  obtain ⟨e, outer, he, houter, -⟩ := hlink.exists_entries
  obtain ⟨hlist, hfunction, hmember⟩ := form_of_mem_within hform h hc hlink he houter
  rw [scopeAt, sharedAt, form?_of_get? he, show (ofDocument d).parent? c = some p from hlink,
    Option.bind_some, houter]
  dsimp only
  rw [Node.namesFor_eq_sharedNames (isFrame_of_mem_within h hc hlink houter) hlist hfunction]
  split
  · rw [Node.namesThrough_eq_nil hlist hmember, List.append_nil]
  · rw [List.append_nil]

end Way

/-- **What an extracted expression reads.** Let an extraction apply. A name is declared in the
statement, outside of the expression and in scope there, exactly if the statement itself declares it
for what is around, or if it is declared in the cases of a switch of which a case holds the
expression; so it is never one that the head of a loop, a parameter or a catch clause declares. A
name has the same scope at the expression and at the statement, before which the declaration goes,
exactly if no such switch declares it; and what reads a name freely in the expression sees the scope
that is seen from the expression. A case on the way to the statement holds the expression in its
test. -/
theorem extraction_scopes (h : target? (ofDocument d) s = some target) (name : String) :
    ((ofDocument d).DeclaredWithin target.statement target.expression name ↔
      name ∈ (ofDocument d).declaredAt target.statement ∨
        (ofDocument d).SharedWithin target.statement target.expression name) ∧
    ((ofDocument d).scope? target.expression name = (ofDocument d).scope? target.statement name ↔
      ¬ (ofDocument d).SharedWithin target.statement target.expression name) ∧
    (∀ use, (ofDocument d).ReadsFree use target.expression name →
      (ofDocument d).scope? use name = (ofDocument d).scope? target.expression name) ∧
    ∀ c ∈ (ofDocument d).within target.expression target.statement, ∀ p,
      (ofDocument d).IsChildOf c p → (ofDocument d).form? p = some .switchCase →
        ((ofDocument d).form? c).any Form.isStatement = false := by
  obtain ⟨-, form, hform, -⟩ := isExtractable_of_target? h
  have hfirst := meetsFirst_of_target? h
  refine ⟨?_, ?_, fun use huse => scope?_eq huse.inside huse.free, fun c hc p hlink hcase => ?_⟩
  · unfold DeclaredWithin SharedWithin
    refine or_congr_right (exists_congr fun c => and_congr_right fun hc => ?_)
    rw [scopeAt_eq hform hfirst hc]
  · rw [scope?_eq_iff hfirst.meets.under, SharedWithin, not_exists]
    refine forall_congr' fun c => ?_
    rw [not_and]
    refine forall_congr' fun hc => ?_
    rw [scopeAt_eq hform hfirst hc]
  · obtain ⟨e, outer, he, houter, -⟩ := hlink.exists_entries
    obtain ⟨hlist, -, -⟩ := form_of_mem_within hform hfirst hc hlink he houter
    rw [Option.some.inj ((form?_of_get? houter).symm.trans hcase)] at hlist
    rw [form?_of_get? he]
    exact hlist

/-- A sum in a catch clause in a loop. The variables of the loop and of the clause are not declared
in the statement of the call, and before it they belong to the loop and to the clause's block, as
they do in the sum. -/
theorem extraction_scopes_catch :
    ∃ d, Document.parse {}
        "for (const x of xs) \x7b try \x7b f(); \x7d catch (y) \x7b g(x + y); \x7d \x7d".toList = .ok d ∧
      target? (ofDocument d) (.cursor ⟨0, 51⟩) = some ⟨15, 12⟩ ∧
      (ofDocument d).ReadsFree 16 15 "x" ∧ ¬ (ofDocument d).DeclaredWithin 12 15 "x" ∧
      (ofDocument d).scope? 16 "x" = some 1 ∧ (ofDocument d).scope? 12 "x" = some 1 ∧
      (ofDocument d).ReadsFree 17 15 "y" ∧ ¬ (ofDocument d).DeclaredWithin 12 15 "y" ∧
      (ofDocument d).scope? 17 "y" = some 11 ∧ (ofDocument d).scope? 12 "y" = some 11 := by
  obtain ⟨d, hd, htarget, hx, hxdeclared, hxshared, hxscope, hy, hydeclared, hyshared, hyscope⟩ :
      ∃ d, Document.parse {}
          "for (const x of xs) \x7b try \x7b f(); \x7d catch (y) \x7b g(x + y); \x7d \x7d".toList = .ok d ∧
        target? (ofDocument d) (.cursor ⟨0, 51⟩) = some ⟨15, 12⟩ ∧
        (ofDocument d).ReadsFree 16 15 "x" ∧ "x" ∉ (ofDocument d).declaredAt 12 ∧
        ¬ (ofDocument d).SharedWithin 12 15 "x" ∧ (ofDocument d).scope? 12 "x" = some 1 ∧
        (ofDocument d).ReadsFree 17 15 "y" ∧ "y" ∉ (ofDocument d).declaredAt 12 ∧
        ¬ (ofDocument d).SharedWithin 12 15 "y" ∧ (ofDocument d).scope? 12 "y" = some 11 :=
    Document.exists_parse (by decide +kernel)
  obtain ⟨hxwithin, hxsame, hxuses, -⟩ := extraction_scopes htarget "x"
  obtain ⟨hywithin, hysame, hyuses, -⟩ := extraction_scopes htarget "y"
  have hxscope' := ((hxuses 16 hx).trans (hxsame.mpr hxshared)).trans hxscope
  have hyscope' := ((hyuses 17 hy).trans (hysame.mpr hyshared)).trans hyscope
  exact ⟨d, hd, htarget, hx, fun h => (hxwithin.mp h).elim hxdeclared hxshared, hxscope', hxscope,
    hy, fun h => (hywithin.mp h).elim hydeclared hyshared, hyscope', hyscope⟩

/-- Two declarations that come to stand before what they read: of a constant that the statement
declares itself, and of a variable that the cases of a switch share. -/
theorem extraction_leaves_scope :
    (∃ d x, Document.parse {} "const a = 1, b = a + 1;".toList = .ok d ∧
      target? (ofDocument d) (.cursor ⟨0, 19⟩) = some ⟨5, 1⟩ ∧
      (ofDocument d).ReadsFree 6 5 "a" ∧ (ofDocument d).DeclaredWithin 1 5 "a" ∧
      transform (ofDocument d) (.cursor ⟨0, 19⟩) {} = .ok x ∧
      x.output d.text (.cursor ⟨0, 19⟩) =
        .ok "const extracted = a + 1;\nconst a = 1, b = extracted;".toList) ∧
    ∃ d x, Document.parse {} "switch (k) \x7b case 0: let y = 1; case y + 1: \x7d".toList = .ok d ∧
      target? (ofDocument d) (.cursor ⟨0, 39⟩) = some ⟨9, 1⟩ ∧
      (ofDocument d).ReadsFree 10 9 "y" ∧ (ofDocument d).DeclaredWithin 1 9 "y" ∧
      (ofDocument d).scope? 10 "y" = some 1 ∧ (ofDocument d).scope? 1 "y" = none ∧
      transform (ofDocument d) (.cursor ⟨0, 39⟩) {} = .ok x ∧
      x.output d.text (.cursor ⟨0, 39⟩) = .ok
        "const extracted = y + 1;\nswitch (k) \x7b case 0: let y = 1; case extracted: \x7d".toList := by
  constructor
  · obtain ⟨d, hd, htarget, hfree, hwithin, hextract⟩ :
        ∃ d, Document.parse {} "const a = 1, b = a + 1;".toList = .ok d ∧
          target? (ofDocument d) (.cursor ⟨0, 19⟩) = some ⟨5, 1⟩ ∧
          (ofDocument d).ReadsFree 6 5 "a" ∧ (ofDocument d).DeclaredWithin 1 5 "a" ∧
          ((transform (ofDocument d) (.cursor ⟨0, 19⟩) {}).toOption.bind fun x =>
            (x.output d.text (.cursor ⟨0, 19⟩)).toOption) =
              some "const extracted = a + 1;\nconst a = 1, b = extracted;".toList :=
      Document.exists_parse (by decide +kernel)
    obtain ⟨x, hx, hout⟩ := Option.bind_eq_some_iff.mp hextract
    exact ⟨d, x, hd, htarget, hfree, hwithin, Outcome.eq_ok_of_toOption hx,
      Outcome.eq_ok_of_toOption hout⟩
  · obtain ⟨d, hd, htarget, hfree, hwithin, hinner, houter, hextract⟩ :
        ∃ d, Document.parse {} "switch (k) \x7b case 0: let y = 1; case y + 1: \x7d".toList = .ok d ∧
          target? (ofDocument d) (.cursor ⟨0, 39⟩) = some ⟨9, 1⟩ ∧
          (ofDocument d).ReadsFree 10 9 "y" ∧ (ofDocument d).DeclaredWithin 1 9 "y" ∧
          (ofDocument d).scope? 10 "y" = some 1 ∧ (ofDocument d).scope? 1 "y" = none ∧
          ((transform (ofDocument d) (.cursor ⟨0, 39⟩) {}).toOption.bind fun x =>
            (x.output d.text (.cursor ⟨0, 39⟩)).toOption) = some
              ("const extracted = y + 1;\nswitch (k) \x7b case 0: let y = 1; " ++
                "case extracted: \x7d").toList :=
      Document.exists_parse (by decide +kernel)
    obtain ⟨x, hx, hout⟩ := Option.bind_eq_some_iff.mp hextract
    exact ⟨d, x, hd, htarget, hfree, hwithin, hinner, houter, Outcome.eq_ok_of_toOption hx,
      Outcome.eq_ok_of_toOption hout⟩

end Variable

end Retouch
