import Retouch.Proofs.Steps
import Retouch.Syntax.Parser.Name

/-!
# Names and keys keep to the text

- `anyName_reads`, `identifierExpr_reads`: names that are one token.
- `propertyKey_yields`, `memberKey_yields`: keys of properties and members.
- `modifier_yields`: words before a name.
-/

namespace Retouch.Syntax.Parser

variable {text : Text} {grammar : Grammar} [hg : grammar.Sound text] {x : Context} {c : Cursor}

/-! ## Names -/

theorem anyName_reads : Reads text anyName := by
  intro x c hc
  refine .query rfl ?_
  split
  · exact tokenNode_leads hc (by simp) rfl
  · exact (fail_yields _).absurd hc

theorem noteStrictWord_remarks (w : Word) (offset : Nat) : Remarks (noteStrictWord w offset) := by
  unfold noteStrictWord
  split
  · exact .ite (complain_remarks _ _) .nothing
  · exact .nothing

/-- An identifier is the current token. -/
theorem identifierWord_leads (hc : c.In text) :
    Leads text x c identifierWord fun word d =>
      word.2 = ⟨c.token.start, c.token.stop⟩ ∧ c.token.stop ≤ d.previous.stop := by
  have htake (name : String) (notes : List SyntaxError) :
      Leads text x { c with notes := notes }
        (advance >>= fun _ => pure (name, Span.mk c.token.start c.token.stop)) fun word d =>
          word.2 = ⟨c.token.start, c.token.stop⟩ ∧ c.token.stop ≤ d.previous.stop :=
    (advance_leads_stop (c := { c with notes := notes }) { hc with }).bind
      fun _ d hd _ hstop => .pure hd ⟨rfl, hstop⟩
  refine .query rfl ?_
  split
  · next w hw =>
    extract_lets span
    split
    · exact .query rfl (.remarkIf (complain_remarks _ _) (htake _))
    · exact htake _ c.notes
    · refine .query rfl (.ite (htake _ c.notes) ?_)
      refine .query rfl (.ite ?_ ?_)
      · exact (fail_yields _).absurd hc
      · exact (fail_yields _).absurd hc
    · exact .remark (complain_remarks _ _) (htake _)
    · refine .ite ((fail_yields _).absurd hc) ?_
      exact .remark (noteStrictWord_remarks _ _) (htake _)
  · exact (fail_yields _).absurd hc

theorem identifier_reads : Reads text identifier := by
  intro x c hc
  refine (identifierWord_leads hc).bind fun ⟨name, span⟩ d hd _ ⟨hspan, hstop⟩ => ?_
  subst hspan
  exact .pure hd ⟨.of_parts rfl hc.start hc.stop (by simp), since_token hc hd hstop⟩

theorem identifierExpr_reads : Reads text identifierExpr := by
  intro x c hc
  refine (identifierWord_leads hc).bind fun ⟨name, span⟩ d hd _ ⟨hspan, hstop⟩ => ?_
  subst hspan
  exact .pure hd ⟨.of_parts rfl hc.start hc.stop (by simp), since_token hc hd hstop⟩

theorem noteRestricted_remarks (name : String) (offset : Nat) :
    Remarks (noteRestricted name offset) :=
  .ite (complain_remarks _ _) .nothing

/-- A word and its range. -/
def SoundWord (text : Text) (word : String × Span) : Prop :=
  text.isBoundary word.2.start = true ∧ text.isBoundary word.2.stop = true

theorem identifierWord_yields : Yields text identifierWord (SoundWord text) := by
  intro x c hc
  refine (identifierWord_leads hc).mono fun word d _ _ hword => ?_
  rw [SoundWord, hword.1]
  exact ⟨hc.start, hc.stop⟩

theorem bindingWord_yields (noLet : Bool) : Yields text (bindingWord noLet) (SoundWord text) := by
  refine .ask fun _ _ _ => ?_
  refine .guard (failUnexpected_yields _) ?_
  refine identifierWord_yields.bind fun word hword => ?_
  refine (noteRestricted_remarks _ _).yields.bind fun _ _ => ?_
  refine .ask fun _ _ _ => ?_
  exact .guard (complain_yields _ _) (.pure hword)

theorem bindingIdentifier_yields (noLet : Bool) :
    Yields text (bindingIdentifier noLet) (Node.Sound text) :=
  (bindingWord_yields noLet).bind fun _ hword =>
    .pure (.of_parts rfl hword.1 hword.2 (by simp))

theorem declaredName_yields (noLet : Bool) :
    Yields text (declaredName noLet) (Node.Sound text) :=
  (bindingWord_yields noLet).bind fun _ hword =>
    .pure (.of_parts rfl hword.1 hword.2 (by simp))

theorem stringLiteral_yields : Yields text stringLiteral (Node.Sound text) := by
  refine .ask fun _ c hc => ?_
  split
  · exact advance_yields.bind fun _ _ => .pure (.of_parts rfl hc.start hc.stop (by simp))
  · exact failUnexpected_yields _

/-! ## Keys -/

theorem computedRest_yields (fuel : Nat) {done : List Node}
    (hdone : SoundAll text done) :
    Yields text (computedRest grammar fuel done) (SoundAll text) := by
  induction fuel generalizing done with
  | zero => exact exhausted_yields
  | succ fuel ih =>
    refine (eat_yields _).bind fun _ _ => .ite ?_ (.pure (by simpa using hdone))
    refine hg.assignment.yields.within.bind fun e he => ih ?_
    simp [he, hdone]

theorem computedExpression_yields : Yields text (computedExpression grammar) (Node.Sound text) := by
  refine .ask fun _ c hc => ?_
  refine hg.assignment.yields.within.bind fun first hfirst => ?_
  refine .ask fun _ _ _ => .ite ?_ (.pure hfirst)
  refine .ask fun _ _ _ => ?_
  refine (computedRest_yields _ (by simpa using hfirst)).bind fun all hall => ?_
  exact (complain_yields _ _).bind fun _ _ => finish_yields hc.start hall rfl

theorem propertyKey_yields : Yields text (propertyKey grammar) (Node.Sound text) := by
  refine .ask fun _ c hc => ?_
  split
  · exact advance_yields.bind fun _ _ => .pure (.of_parts rfl hc.start hc.stop (by simp))
  · exact advance_yields.bind fun _ _ => .pure (.of_parts rfl hc.start hc.stop (by simp))
  · exact advance_yields.bind fun _ _ => .pure (.of_parts rfl hc.start hc.stop (by simp))
  · exact advance_yields.bind fun _ _ => .pure (.of_parts rfl hc.start hc.stop (by simp))
  · refine advance_yields.bind fun _ _ => computedExpression_yields.bind fun key hkey => ?_
    exact (expect_yields _).bind fun _ _ => finish_yields hc.start (by simpa using hkey) rfl
  · exact failUnexpected_yields _

theorem privateName_yields : Yields text privateName (Node.Sound text) := by
  refine .ask fun _ c hc => (expect_yields _).bind fun _ _ => ?_
  refine .ask fun _ d hd => .guard (failAt_yields _ _) ?_
  split
  · exact advance_yields.bind fun _ _ => .pure (.of_parts rfl hc.start hd.stop (by simp))
  · exact fail_yields _

theorem memberKey_yields : Yields text (memberKey grammar) (Node.Sound text) := by
  refine .ask fun _ _ _ => .ite ?_ propertyKey_yields
  refine privateName_yields.bind fun name hname => ?_
  split
  · exact (complain_yields _ _).bind fun _ _ => .pure hname
  · exact .pure hname

theorem memberName_yields : Yields text memberName (Node.Sound text) :=
  .ask fun _ _ _ =>
    .ite privateName_yields anyName_reads.yields

/-! ## Modifiers -/

theorem modifier_yields (allowed : List Keyword) (stopAtBlock : Bool) :
    Yields text (modifier? allowed stopAtBlock) fun _ => True := by
  refine .ask fun _ c hc => ?_
  extract_lets stay jp
  have hjp (r : Unit) : Yields text (jp r) fun _ => True := by
    refine .ask fun _ d hd => ?_
    split
    · exact .pure trivial
    refine .ite (.ask fun _ _ _ => ?_) (.pure trivial)
    refine .ite (.pure trivial) (.ite ?_ (.pure trivial))
    exact advance_yields.bind fun _ _ => .pure trivial
  split
  · exact .stop (fail_yields _)
  · exact .stop (.throw _)
  · exact hjp ()

theorem eatModifier_yields : Yields text eatModifier fun _ => True := by
  refine .ask fun _ c hc => ?_
  split
  · exact .pure trivial
  refine .ask fun _ _ _ => .ite ?_ (.pure trivial)
  exact (modifier_yields _ _).discard.bind fun _ _ => .pure trivial

end Retouch.Syntax.Parser
