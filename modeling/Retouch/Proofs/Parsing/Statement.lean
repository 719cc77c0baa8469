import Retouch.Proofs.Parsing.Declaration
import Retouch.Syntax.Parser.Statement

/-!
# Statements keep to the text

- `LoopHead.Sound`, `loopHead_yields`: the head of a loop.
- `statement_yields`: every statement.
-/

namespace Retouch.Syntax.Parser

variable {text : Text} {grammar : Grammar} [hg : grammar.Sound text] {o : Nat}

/-! ## Loops -/

theorem headExpression_yields : Yields text (headExpression grammar) (Node.Sound text) :=
  (expect_yields _).bind fun _ _ => hg.expression.yields.within.bind fun _ he =>
    (expect_yields _).bind fun _ _ => .pure he

theorem loopBody_yields : Yields text (loopBody grammar) (Node.Sound text) :=
  (hg.statement false).within

theorem jump_yields (isBreak : Bool) : Yields text (jump isBreak) (Node.Sound text) := by
  refine .ask fun _ c hc => advance_yields.bind fun _ _ => ?_
  refine eatSemicolon_yields.bind fun _ _ => ?_
  extract_lets jp
  have hjp (label : Option Node) (hlabel : SoundOption text label) :
      Yields text (jp label) (Node.Sound text) := by
    have hend {form : StmtForm} (hform : (Form.stmt form).isLoose = true) :
        Yields text (finish c.token.start (.stmt form) [.ofOption label]) (Node.Sound text) :=
      finish_yields hc.start (by simpa using hlabel) hform
    refine .ask fun _ _ _ => .ite ?_ ?_
    · refine .ite ?_ (.guard (complain_yields _ _) (hend rfl))
      exact (complain_yields _ _).bind fun _ _ => hend rfl
    · refine .ite ?_ (.guard (complain_yields _ _) (hend rfl))
      exact (complain_yields _ _).bind fun _ _ => hend rfl
  refine .ite (hjp none soundOption_none) ?_
  refine identifier_reads.yields.bind fun name hname => expectSemicolon_yields.bind fun _ _ => ?_
  exact hjp (some name) (soundOption_some.mpr hname)

theorem doWhileLoop_yields : Yields text (doWhileLoop grammar) (Node.Sound text) := by
  refine .ask fun _ c hc => advance_yields.bind fun _ _ => ?_
  refine loopBody_yields.bind fun body hbody => (expectWord_yields _).bind fun _ _ => ?_
  refine headExpression_yields.bind fun test htest => (eat_yields _).discard.bind fun _ _ => ?_
  exact finish_yields hc.start (by simp [hbody, htest]) rfl

theorem whileLoop_yields : Yields text (whileLoop grammar) (Node.Sound text) := by
  refine .ask fun _ c hc => advance_yields.bind fun _ _ => ?_
  refine headExpression_yields.bind fun test htest => ?_
  refine loopBody_yields.bind fun body hbody => ?_
  exact finish_yields hc.start (by simp [htest, hbody]) rfl

/-- The parts of a loop's head keep to the text. -/
def LoopHead.Sound (text : Text) : LoopHead → Prop
  | .counting head test update => head.Sound text ∧ test.Sound text ∧ update.Sound text
  | .over _ head object => head.Sound text ∧ object.Sound text

theorem eachHead_yields {head : Node} (hhead : head.Sound text) :
    Yields text (eachHead grammar head) (LoopHead.Sound text) := by
  refine .ask fun _ _ _ => advance_yields.bind fun _ _ => ?_
  refine Yields.bind (V := Node.Sound text) (.within ?_) fun object hobject =>
    .pure ⟨hhead, hobject⟩
  exact .ite hg.assignment.yields hg.expression.yields

theorem countingHead_yields {head : Node} (hhead : head.Sound text) :
    Yields text (countingHead grammar head) (LoopHead.Sound text) := by
  refine (eat_yields _).bind fun _ _ => ?_
  extract_lets jp
  have hjp (test : Node) (htest : test.Sound text) :
      Yields text (jp test) (LoopHead.Sound text) := by
    refine .ask fun _ _ _ => ?_
    exact .join (.pure sound_absent) hg.expression.yields.within fun update hupdate =>
      .pure ⟨hhead, htest, hupdate⟩
  refine .ite ((Yields.pure sound_absent).bind hjp) ?_
  refine hg.expression.yields.within.bind fun test htest => ?_
  exact (eat_yields _).discard.bind fun _ _ => (Yields.pure htest).bind hjp

theorem checkLoopVariables_yields (all : List Node) :
    Yields text (checkLoopVariables all) fun _ => True := by
  unfold checkLoopVariables
  split
  · refine .guard (complain_yields _ _) ?_
    exact .ite (complain_yields _ _) (.pure trivial)
  · exact .pure trivial
  · exact (Remarks.forIn _ fun _ => complain_remarks _ _).yields.bind fun _ _ => .pure trivial

theorem loopVarKind_yields : Yields text loopVarKind? fun _ => True := by
  refine .ask fun _ _ _ => ?_
  split
  case h_3 => exact .ask fun _ _ _ => .pure trivial
  all_goals exact .pure trivial

omit hg in
theorem atBareHead_yields : Yields text (atBareHead? grammar) fun _ => True := by
  refine .ask fun _ _ _ => .ask fun _ _ _ => .ite (.pure trivial) ?_
  exact (lookAhead_yields _).bind fun _ _ => .pure trivial

theorem loopVariables_yields (kind : VarKind) :
    Yields text (loopVariables grammar kind) (SoundAll text) := by
  refine atBareHead_yields.bind fun _ _ => .ite ?_ ?_
  · refine .ask fun _ _ _ => ?_
    exact (complain_yields _ _).bind fun _ _ => .pure soundAll_nil
  · exact .ask fun _ _ _ => declarators_yields _ _ _ soundAll_nil

theorem atUsedName_yields : Yields text atUsedName? fun _ => True :=
  .ask fun _ _ _ => .ite (.pure trivial) (.ask fun _ _ _ => .pure trivial)

theorem expressionHead_yields : Yields text (expressionHead grammar) (LoopHead.Sound text) := by
  refine .ask fun _ c hc => hg.expression.yields.within.bind fun e he => ?_
  refine atUsedName_yields.bind fun _ _ => .ite ?_ ?_
  · refine (declaredName_yields _).bind fun name hname => ?_
    refine (finish_yields hc.start (by simp [he, hname]) rfl).bind fun head hhead => ?_
    refine .ask fun _ _ _ => ?_
    exact .guard (complain_yields _ _) (eachHead_yields hhead)
  refine .ask fun _ _ _ => .ask fun _ _ _ => ?_
  refine .ite ?_ ((expect_yields _).bind fun _ _ => countingHead_yields he)
  refine (rereadPattern_yields _ he).bind fun pattern hpattern => ?_
  have heach : Yields text (eachHead grammar (.mk (.other "target") pattern.span [pattern]))
      (LoopHead.Sound text) :=
    eachHead_yields (.of_parts rfl hpattern.1.start hpattern.1.stop (by simpa using hpattern.1))
  split
  case h_3 => exact heach
  all_goals
    exact .ask fun _ _ _ => .guard (complain_yields _ _) heach

theorem loopHead_yields : Yields text (loopHead grammar) (LoopHead.Sound text) := by
  refine .ask fun _ c hc => loopVarKind_yields.bind fun _ _ => ?_
  split
  · refine advance_yields.bind fun _ _ => (loopVariables_yields _).within.bind fun all hall => ?_
    refine (finish_yields hc.start hall rfl).bind fun head hhead => ?_
    refine .ask fun _ _ _ => .ask fun _ _ _ => ?_
    refine .ite ?_ ?_
    · exact (checkLoopVariables_yields _).bind fun _ _ => eachHead_yields hhead
    · exact (expect_yields _).bind fun _ _ => countingHead_yields hhead
  · refine (eat_yields _).bind fun _ _ => ?_
    exact .ite (countingHead_yields sound_absent) expressionHead_yields

theorem forLoop_yields : Yields text (forLoop grammar) (Node.Sound text) := by
  refine .ask fun _ c hc => advance_yields.bind fun _ _ => ?_
  refine .ask fun _ _ _ => (eatWord_yields _).bind fun awaiting _ => ?_
  refine (expect_yields _).bind fun _ _ => loopHead_yields.within.bind fun head hhead => ?_
  refine (expect_yields _).bind fun _ _ => loopBody_yields.bind fun body hbody => ?_
  extract_lets refuseAwait
  have hrefuse : Yields text refuseAwait fun _ => True :=
    .ite (failAt_yields _ _) (.pure trivial)
  clear_value refuseAwait
  split
  · obtain ⟨hfirst, htest, hupdate⟩ := hhead
    exact hrefuse.bind fun _ _ => finish_yields hc.start (by simp [hfirst, htest, hupdate, hbody]) rfl
  · obtain ⟨hfirst, hobject⟩ := hhead
    exact hrefuse.bind fun _ _ => finish_yields hc.start (by simp [hfirst, hobject, hbody]) rfl
  · obtain ⟨hfirst, hobject⟩ := hhead
    exact finish_yields hc.start (by simp [hfirst, hobject, hbody]) rfl

/-! ## Branches and ends -/

theorem ifElse_yields (fuel : Nat) :
    Yields text (ifElse grammar fuel) (Node.Sound text) := by
  induction fuel with
  | zero => exact exhausted_yields
  | succ fuel ih =>
    refine .ask fun _ c hc => (expectWord_yields _).bind fun _ _ => ?_
    refine headExpression_yields.bind fun test htest => ?_
    refine (hg.statement false).bind fun yes hyes => ?_
    extract_lets jp
    have hjp (no : Node) (hno : no.Sound text) : Yields text (jp no) (Node.Sound text) :=
      finish_yields hc.start (by simp [htest, hyes, hno]) rfl
    refine (eatWord_yields _).bind fun _ _ => .ite ?_ (hjp _ sound_absent)
    exact .ask fun _ _ _ => .join ih (hg.statement false) hjp

theorem returnStatement_yields : Yields text (returnStatement grammar) (Node.Sound text) := by
  refine .ask fun _ c hc => advance_yields.bind fun _ _ => ?_
  refine eatSemicolon_yields.bind fun _ _ => .ite ?_ ?_
  · exact finish_yields hc.start (by simp) rfl
  · refine hg.expression.yields.within.bind fun value hvalue => ?_
    exact expectSemicolon_yields.bind fun _ _ => finish_yields hc.start (by simp [hvalue]) rfl

theorem throwStatement_yields : Yields text (throwStatement grammar) (Node.Sound text) := by
  refine .ask fun _ c hc => advance_yields.bind fun _ _ => ?_
  refine .ask fun _ _ _ => .guard (fail_yields _) ?_
  refine hg.expression.yields.within.bind fun value hvalue => ?_
  exact expectSemicolon_yields.bind fun _ _ => finish_yields hc.start (by simp [hvalue]) rfl

theorem caseStatements_yields (fuel : Nat) {done : List Node}
    (hdone : SoundAll text done) :
    Yields text (caseStatements grammar fuel done) (SoundAll text) := by
  induction fuel generalizing done with
  | zero => exact exhausted_yields
  | succ fuel ih =>
    refine .ask fun _ _ _ => .ite (.pure (by simpa using hdone)) ?_
    exact (hg.statement true).bind fun s hs => ih (by simp [hs, hdone])

theorem switchCases_yields (fuel : Nat) (hasDefault : Bool)
    {done : List Node} (hdone : SoundAll text done) :
    Yields text (switchCases grammar fuel hasDefault done) (SoundAll text) := by
  induction fuel generalizing hasDefault done with
  | zero => exact exhausted_yields
  | succ fuel ih =>
    refine .ask fun _ c hc => .ask fun _ _ _ => ?_
    refine .ask fun _ _ _ => .ite ?_ ?_
    · refine advance_yields.bind fun _ _ => .guard (fail_yields _) ?_
      refine .join hg.expression.yields.within (.pure sound_absent) fun test htest => ?_
      refine (expect_yields _).bind fun _ _ => .ask fun _ _ _ => ?_
      refine (caseStatements_yields _ soundAll_nil).bind fun body hbody => ?_
      refine (finish_yields hc.start (by simp [htest, hbody]) rfl).bind fun node hnode => ?_
      exact ih _ (by simp [hnode, hdone])
    · exact .pure (by simpa using hdone)

theorem switchStatement_yields : Yields text (switchStatement grammar) (Node.Sound text) := by
  refine .ask fun _ c hc => advance_yields.bind fun _ _ => ?_
  refine headExpression_yields.bind fun discriminant hdiscriminant => ?_
  refine (expect_yields _).bind fun _ _ => ?_
  refine Yields.bind (V := SoundAll text) (.within ?_) fun cases hcases => ?_
  · exact .ask fun _ _ _ => switchCases_yields _ _ soundAll_nil
  · refine (expect_yields _).bind fun _ _ => finish_yields hc.start ?_ rfl
    simp [hdiscriminant, hcases]

theorem catchClause_yields : Yields text (catchClause grammar) (Node.Sound text) := by
  refine .ask fun _ c hc => (eatWord_yields _).bind fun _ _ => ?_
  refine .ite (.pure sound_absent) ?_
  extract_lets jp
  have hjp (target : Node) (htarget : target.Sound text) :
      Yields text (jp target) (Node.Sound text) :=
    (block_yields rfl).bind fun body hbody => finish_yields hc.start (by simp [htarget, hbody]) rfl
  refine (eat_yields _).bind fun _ _ => .ite ?_ (hjp _ sound_absent)
  refine (bindingTarget_yields _).bind fun target htarget => ?_
  refine typeAnnotation_yields.bind fun type htype => (expect_yields _).bind fun _ _ => ?_
  exact hjp _ (annotate_sound htarget htype).1

theorem finalBlock_yields : Yields text (finalBlock grammar) (Node.Sound text) :=
  (eatWord_yields _).bind fun _ _ => .ite (block_yields rfl) (.pure sound_absent)

theorem tryStatement_yields : Yields text (tryStatement grammar) (Node.Sound text) := by
  refine .ask fun _ c hc => advance_yields.bind fun _ _ => ?_
  refine (block_yields rfl).bind fun body hbody => tokenOffset_yields.bind fun _ _ => ?_
  refine catchClause_yields.bind fun handler hhandler => ?_
  refine finalBlock_yields.bind fun final hfinal => .guard (complain_yields _ _) ?_
  exact finish_yields hc.start (by simp [hbody, hhandler, hfinal]) rfl

theorem strayHandler_yields : Yields text (strayHandler grammar) (Node.Sound text) := by
  refine .ask fun _ c hc => (complain_yields _ _).bind fun _ _ => ?_
  refine (Yields.tryCatch (V := fun _ => True) ?_ fun _ => .pure trivial).bind fun _ _ => ?_
  · exact catchClause_yields.discard.bind fun _ _ => finalBlock_yields.discard
  · exact finish_yields hc.start (by simpa using .of_parts rfl hc.start hc.start soundAll_nil) rfl

theorem withStatement_yields : Yields text (withStatement grammar) (Node.Sound text) := by
  refine .ask fun _ c hc => advance_yields.bind fun _ _ => ?_
  refine (complain_yields _ _).bind fun _ _ => headExpression_yields.bind
    fun object hobject => ?_
  refine (hg.statement false).bind fun body hbody => ?_
  exact finish_yields hc.start (by simp [hobject, hbody]) rfl

theorem labelledStatement_yields : Yields text (labelledStatement grammar) (Node.Sound text) := by
  refine .ask fun _ c hc => identifier_reads.yields.bind fun label hlabel => ?_
  extract_lets name
  refine (expect_yields _).bind fun _ _ => .ask fun _ _ _ => ?_
  refine Yields.bind (V := Node.Sound text) (.within ?_) fun body hbody => ?_
  · refine .ask fun _ _ _ => .ite ?_ (hg.statement false)
    refine .ask fun _ d hd => ?_
    refine (functionDeclaration_yields hd.start _ _).bind fun function hfunction => ?_
    exact (complain_yields _ _).bind fun _ _ => .pure (asStatement_sound hfunction)
  · exact .guard (complain_yields _ _) (finish_yields hc.start (by simp [hlabel, hbody]) rfl)

/-! ## Expressions and declarations as statements -/

theorem finishExpression_leads (ho : text.isBoundary o = true) {e : Node}
    {since : Nat} {x : Context} {c : Cursor} (hc : c.In text) (he : e.Sound text)
    (hsince : e.Since since c) :
    Leads text x c (finishExpression grammar o e) fun n _ => n.Sound text := by
  have hend {n : Node} (hn : n.Sound text) :
      Yields text (finish o (.stmt .expression) [n]) (Node.Sound text) :=
    finish_yields ho (by simpa using hn) rfl
  refine (eatSemicolon_yields x c hc).bind fun _ d hd hcd _ => ?_
  refine .ite (hend he x d hd) ?_
  refine (atSignOperator_yields x d hd).bind fun _ f hf hdf _ => ?_
  refine .ite ?_ (fail_yields _ x f hf)
  refine .query rfl (.remark (complain_remarks _ _) fun notes => ?_)
  have hlater : e.Since since f := hsince.le (hcd.trans hdf)
  have hnoted : e.Since since { f with notes := notes } := hlater
  exact (hg.binaryAfter he hnoted { hf with }).bind fun whole d hd _ hwhole =>
    hend hwhole.1 x d hd

theorem misplacedInterface_yields {e : Node} (he : e.Sound text) :
    Yields text (misplacedInterface? grammar e) (SoundOption text) := by
  unfold misplacedInterface?
  extract_lets modifies
  refine (eatWord_yields _).bind fun _ _ => .ite ?_ (.pure soundOption_none)
  exact (complain_yields _ _).bind fun _ _ => (interfaceTail_yields he.start _).some

theorem expressionStatement_yields :
    Yields text (expressionStatement grammar) (Node.Sound text) := by
  intro x c hc
  refine .query rfl ((hg.expression.within x c hc).bind fun e d hd _ he => ?_)
  refine (misplacedInterface_yields he.1 x d hd).bind fun found f hf hdf hfound => ?_
  split
  · exact .pure hf (asStatement_sound (soundOption_some.mp hfound))
  · exact finishExpression_leads hc.start hf he.1 (he.2.le hdf)

theorem usingStatement_yields (awaiting : Bool) :
    Yields text (usingStatement grammar awaiting) (Node.Sound text) := by
  refine .ask fun _ c hc => .guard advance_yields ?_
  refine advance_yields.bind fun _ _ => (declaredVariables_yields _).bind fun all hall => ?_
  refine Yields.bind (V := fun _ => True) (.forIn fun d _ => ?_) fun _ _ =>
    finish_yields hc.start hall rfl
  split
  · extract_lets jp
    have hjp : Yields text (jp ()) fun _ => True :=
      .guard (complain_yields _ _) (.pure trivial)
    split
    · exact hjp
    · exact (complain_yields _ _).bind fun _ _ => hjp
  · exact .pure trivial

theorem atUsing_yields : Yields text atUsing? fun _ => True := by
  refine .ask fun _ _ _ => ?_
  split
  · exact .look fun _ _ => rfl
  · exact (lookAhead_yields _).bind fun _ _ => .pure trivial
  · exact .pure trivial

theorem declared_yields {decorated : List Node}
    (hdecorated : SoundAll text decorated) :
    Yields text (declared? grammar decorated) (SoundOption text) := by
  intro x c hc
  refine .query rfl (.query rfl ?_)
  extract_lets isOperator
  refine .ite (.pure hc soundOption_none) (.query rfl ?_)
  rw [← bind_assoc]
  refine .orRevert hc ?_ (fun _ => rfl) rfl
  exact (advance_yields.bind fun _ _ => ambientDeclaration?_yields hc.start hdecorated) x c hc

theorem freeDeclaration_yields {decorated : List Node}
    (hdecorated : SoundAll text decorated) :
    Yields text (freeDeclaration? grammar decorated) (SoundOption text) := by
  refine .ask fun _ c hc => .ask fun _ _ _ => ?_
  refine .ask fun _ _ _ => ?_
  split
  · exact .pure soundOption_none
  · exact declared_yields hdecorated
  · exact .ite (moduleTail_yields hc.start _).some (.pure soundOption_none)
  · refine .ask fun _ _ _ => .ite ?_ (.pure soundOption_none)
    exact typeDeclaration?_yields hc.start hdecorated _

theorem loneInterface_yields : Yields text loneInterface? (SoundOption text) := by
  refine .ask fun _ c hc => .ask fun _ _ _ => ?_
  refine .ite ?_ (.pure soundOption_none)
  refine (complain_yields _ _).bind fun _ _ => advance_yields.bind fun _ _ => ?_
  refine eatSemicolon_yields.discard.bind fun _ _ => (finish_yields hc.start ?_ rfl).some
  simpa using .of_parts rfl hc.start hc.stop soundAll_nil

theorem declarationOrExpression_yields {decorated : List Node}
    (hdecorated : SoundAll text decorated) :
    Yields text (declarationOrExpression grammar decorated) (Node.Sound text) := by
  refine (freeDeclaration_yields hdecorated).bind fun found hfound => ?_
  split
  · exact .pure (asStatement_sound (soundOption_some.mp hfound))
  refine loneInterface_yields.bind fun found hfound => ?_
  split
  · exact .pure (soundOption_some.mp hfound)
  refine .ask fun _ _ _ => .ask fun _ _ _ => ?_
  refine .ask fun _ _ _ => ?_
  exact .ite labelledStatement_yields expressionStatement_yields

theorem placedDeclaration_yields (withDeclarations : Bool)
    (ho : text.isBoundary o = true) {decorated : List Node} (hdecorated : SoundAll text decorated) :
    Yields text (placedDeclaration grammar withDeclarations o decorated) (Node.Sound text) := by
  refine .ask fun _ c hc => ?_
  extract_lets isPlaced isVar isAsync outer jp owed
  have houter : text.isBoundary outer = true := by
    show text.isBoundary (if _ then o else c.token.start) = true
    split
    · exact ho
    · exact hc.start
  clear_value outer
  have hjp (found : Option Node) (hfound : SoundOption text found) :
      Yields text (jp found) (Node.Sound text) := by
    cases found with
    | some d => exact .pure (asStatement_sound (soundOption_some.mp hfound))
    | none => exact declarationOrExpression_yields hdecorated
  have howed : Yields text (owed ()) (Node.Sound text) := by
    refine .ask fun _ _ _ => ?_
    exact .join (valueDeclaration?_yields houter hdecorated) (.pure soundOption_none) hjp
  exact .guard (complain_yields _ _) howed

theorem importStatement_yields : Yields text (importStatement grammar) (Node.Sound text) := by
  refine .ask fun _ c hc => .ask fun _ _ _ => ?_
  refine .ite ?_ (fail_yields _)
  refine hg.expression.yields.bind fun e he => eatSemicolon_yields.discard.bind fun _ _ => ?_
  exact finish_yields hc.start (by simpa using he) rfl

theorem plainStatement_yields (withDeclarations : Bool)
    (ho : text.isBoundary o = true) {decorated : List Node} (hdecorated : SoundAll text decorated) :
    Yields text (plainStatement grammar withDeclarations o decorated) (Node.Sound text) := by
  refine .ask fun _ c hc => ?_
  split
  · exact block_yields rfl
  · exact advance_yields.bind fun _ _ => finish_yields hc.start soundAll_nil rfl
  · split
    · exact jump_yields true
    · exact jump_yields false
    · refine advance_yields.bind fun _ _ => expectSemicolon_yields.bind fun _ _ => ?_
      exact finish_yields hc.start soundAll_nil rfl
    · exact doWhileLoop_yields
    · exact forLoop_yields
    · exact .ask fun _ _ _ => ifElse_yields _
    · exact returnStatement_yields
    · exact switchStatement_yields
    · exact throwStatement_yields
    · exact tryStatement_yields
    · exact strayHandler_yields
    · exact strayHandler_yields
    · exact whileLoop_yields
    · exact withStatement_yields
    · exact importStatement_yields
    · exact fail_yields _
    case h_17 | h_18 =>
      refine .join atUsing_yields (.pure trivial) fun found _ => ?_
      cases found with
      | some awaiting => exact usingStatement_yields awaiting
      | none => exact declarationOrExpression_yields hdecorated
    case h_25 => exact declarationOrExpression_yields hdecorated
    all_goals exact placedDeclaration_yields withDeclarations ho hdecorated
  · exact expressionStatement_yields

theorem statement_yields (withDeclarations : Bool) :
    Yields text (statement grammar withDeclarations) (Node.Sound text) :=
  .ask fun _ _ hc => decorators_yields.bind fun _ hdecorated =>
    plainStatement_yields _ hc.start hdecorated

end Retouch.Syntax.Parser
