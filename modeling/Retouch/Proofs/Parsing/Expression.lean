import Retouch.Proofs.Parsing.Markup
import Retouch.Syntax.Parser.Expression

/-!
# Expressions keep to the text

Here the order of the parts matters: the left operand of a binary operator ends before the operator
and the right one starts after it. What is carried through the loops is that the expression so far
stands between the offset where it starts and the current token.

- `subscripts_leads`: members and calls after an expression.
- `leftHand_reads`, `unary_reads`: expressions without binary operators.
- `binaryRest_leads`, `binary_reads`: operands in order.
- `assignment_reads`, `expression_reads`: everything else.
-/

namespace Retouch.Syntax.Parser

variable {text : Text} {grammar : Grammar} [hg : grammar.Sound text] {x : Context} {c : Cursor}
  {o : Nat}

/-! ## Members and calls -/

section Subscripts

variable {object name callee args tag : Node} {types : Option Node}

theorem memberNode_completes (ho : text.isBoundary o = true) (hobject : object.Sound text)
    (hname : name.Sound text) (optional : Bool) :
    Completes text o (memberNode o object name optional) := by
  unfold memberNode
  split
  · split
    · exact .never (fail_yields _)
    · exact .finish ho (by simpa using hname) rfl
  · refine .ite ?_ ?_
    · exact .finish ho (by simp [hobject, hname]) rfl
    · exact .finish ho (by simp [hobject, hname]) rfl

theorem callNode_completes (ho : text.isBoundary o = true) (hcallee : callee.Sound text)
    (htypes : SoundOption text types) (hargs : args.Sound text) (optional : Bool) :
    Completes text o (callNode o callee types args optional) := by
  refine .ite ?_ ?_
  · exact .finish ho (by simp [hcallee, htypes, hargs]) rfl
  · exact .finish ho (by simp [hcallee, htypes, hargs]) rfl

theorem computedMember_completes (ho : text.isBoundary o = true)
    (hobject : object.Sound text) (optional : Bool) :
    Completes text o (computedMember grammar o object optional) := by
  refine .ask fun _ c hc => ?_
  refine .bind hg.expression.yields.within fun index hindex => .bind (expect_yields _) fun _ _ => ?_
  refine .bind (finish_yields hc.previousStart (by simpa using hindex) rfl) fun name hname => ?_
  exact memberNode_completes ho hobject hname optional

theorem taggedTemplate_completes (ho : text.isBoundary o = true)
    (htag : tag.Sound text) (htypes : SoundOption text types) :
    Completes text o (taggedTemplate grammar o tag types) := by
  refine .bind (template_reads true).yields fun quoted hquoted => ?_
  refine .guard (complain_yields _ _) (.finish ho ?_ rfl)
  simp [htag, htypes, hquoted.parts]

theorem typedSubscript_mayComplete (ho : text.isBoundary o = true)
    (noCall : Bool) (hobject : object.Sound text) :
    MayComplete text o (typedSubscript? grammar noCall o object) := by
  refine .attempt (.bind typeArguments_yields fun types htypes => ?_)
  refine .ask fun _ _ _ => .ite ?_ ?_
  · refine .bind arguments_yields fun args hargs => ?_
    exact (callNode_completes ho hobject (soundOption_some.mpr htypes) hargs _).some
  refine .ask fun _ _ _ => .ite ?_ ?_
  · exact (taggedTemplate_completes ho hobject (soundOption_some.mpr htypes)).some
  refine .ask fun _ _ _ => .ask fun _ _ _ => ?_
  refine .ask fun _ _ _ => .ite ?_ .none
  exact Completes.some (.finish ho (by simp [hobject, htypes]) rfl)

theorem instantiated_mayComplete (ho : text.isBoundary o = true)
    (hobject : object.Sound text) : MayComplete text o (instantiated? grammar o object) := by
  refine .attempt (.bind typeArguments_yields fun types htypes => ?_)
  refine .ask fun _ _ _ => ?_
  split
  case h_9 =>
    refine .ite ?_ .none
    exact Completes.some (.finish ho (by simp [hobject, htypes]) rfl)
  all_goals exact .none

/-- What stands before the current token is carried on as the expression so far. -/
theorem subscripts_leads (allowed : Subscripts)
    (ho : text.isBoundary o = true) (fuel : Nat) (hc : c.In text) (hobject : object.Sound text)
    (hsince : object.Since o c) :
    Leads text x c (subscripts grammar allowed o fuel object) fun n d =>
      n.Sound text ∧ n.Since o d := by
  induction fuel generalizing x c object with
  | zero => exact exhausted_yields.absurd hc
  | succ fuel ih =>
    have hkept : Leads text x c (pure object) fun n d => n.Sound text ∧ n.Since o d :=
      .pure hc ⟨hobject, hsince⟩
    have hpassed : o ≤ c.previous.stop := Nat.le_trans hsince.1 hsince.2.2.2
    have hnext (n : Node) (x : Context) (d : Cursor) (hd : d.In text) (hn : n.Sound text)
        (hsince : n.Since o d) : Leads text x d (subscripts grammar allowed o fuel n) fun n d =>
          n.Sound text ∧ n.Since o d :=
      ih hd hn hsince
    rw [subscripts]
    refine .query rfl ?_
    split
    case h_7 | h_8 =>
      -- an angle bracket is an operator unless type arguments can be read
      refine (typedSubscript_mayComplete ho _ hobject x c hc hpassed).bind
        fun found d hd hcd hfound => ?_
      cases found with
      | some n => exact ih hd (hfound n rfl).1 (hfound n rfl).2
      | none =>
        refine (instantiated_mayComplete ho hobject x d hd (Nat.le_trans hpassed hcd.2)).bind
          fun found e he hde hfound => ?_
        cases found with
        | some n => exact ih he (hfound n rfl).1 (hfound n rfl).2
        | none => exact .pure he ⟨hobject, hsince.le (hcd.trans hde)⟩
    · suffices h : Completes text o _ from h x c hc hpassed
      refine .bind advance_yields fun _ _ => .bind memberName_yields fun name hname => ?_
      exact (memberNode_completes ho hobject hname _).feed hnext
    · refine .ite hkept ?_
      suffices h : Completes text o _ from h x c hc hpassed
      exact .bind advance_yields fun _ _ => (computedMember_completes ho hobject _).feed hnext
    · refine .query rfl (.ite hkept ?_)
      suffices h : Completes text o _ from h x c hc hpassed
      refine .bind advance_yields fun _ _ => .bind advance_yields fun _ _ => ?_
      refine .bind (eat_yields _) fun _ _ => .ite ?_ ?_
      · exact (computedMember_completes ho hobject _).feed hnext
      refine .ask fun _ _ _ => .ite ?_ ?_
      · refine .bind arguments_yields fun args hargs => ?_
        exact (callNode_completes ho hobject soundOption_none hargs _).feed hnext
      refine .ask fun _ _ _ => .ite ?_ ?_
      · refine .bind typeArguments_yields fun types htypes => ?_
        refine .bind arguments_yields fun args hargs => ?_
        exact (callNode_completes ho hobject (soundOption_some.mpr htypes) hargs _).feed hnext
      · refine .bind memberName_yields fun name hname => ?_
        exact (memberNode_completes ho hobject hname _).feed hnext
    · refine .ite hkept ?_
      suffices h : Completes text o _ from h x c hc hpassed
      refine .bind arguments_yields fun args hargs => ?_
      exact (callNode_completes ho hobject soundOption_none hargs _).feed hnext
    · suffices h : Completes text o _ from h x c hc hpassed
      exact Completes.feed (taggedTemplate_completes ho hobject soundOption_none).within hnext
    · refine .ite hkept ?_
      suffices h : Completes text o _ from h x c hc hpassed
      refine .bind advance_yields fun _ _ => ?_
      exact Completes.feed (.finish ho (by simpa using hobject) rfl) hnext
    · exact hkept

end Subscripts

theorem denyNonNull_yields (word : String) : Yields text (denyNonNull word) fun _ => True := by
  refine .ask fun _ _ _ => .ask fun _ _ _ => ?_
  exact .ite (advance_yields.bind fun _ _ => fail_yields _) (.pure trivial)

theorem superExpression_reads (noCall : Bool) :
    Reads text (superExpression grammar noCall) := by
  intro x c hc
  refine .query rfl ((expectWord_leads _ hc).bind fun _ d hd _ hstop => .query rfl ?_)
  have hparent : (Node.mk .superRef ⟨c.token.start, c.token.stop⟩ []).Sound text :=
    .of_parts rfl hc.start hc.stop soundAll_nil
  refine .ite ?_ (.query rfl ?_)
  · refine (denyNonNull_yields _ x d hd).bind fun _ e he _ _ => ?_
    exact (fail_yields _).stop.absurd he
  · exact subscripts_leads _ hc.start _ hd hparent (since_token hc hd hstop)

theorem importCall_completes (ho : text.isBoundary o = true)
    (noCall : Bool) (phase : ImportPhase) :
    Completes text o (importCall grammar noCall o phase) := by
  refine .ask fun _ c hc => .ask fun _ _ _ => ?_
  have hcallee : (Node.mk (.importRef phase) ⟨o, c.previous.stop⟩ []).Sound text :=
    .of_parts rfl ho hc.previousStop soundAll_nil
  refine .ite ?_ ?_
  · exact .bind (denyNonNull_yields _) fun _ _ => .never (.stop (fail_yields _))
  · refine .bind arguments_yields fun args hargs => ?_
    refine (callNode_completes ho hcallee soundOption_none hargs _).feed
      fun n x d hd hn hsince => ?_
    exact .query rfl (subscripts_leads _ ho _ hd hn hsince)

theorem importExpression_reads (noCall : Bool) :
    Reads text (importExpression grammar noCall) := by
  intro x c hc
  refine .query rfl (Consumes.completes (.expectWord _) hc (Nat.le_refl _) fun _ _ => ?_)
  refine .bind (eat_yields _) fun _ _ => .ite ?_ ?_
  · refine .bind anyName_reads.yields fun property _ => ?_
    split
    · refine Completes.feed (.finish hc.start soundAll_nil rfl) fun n x d hd hn hsince => ?_
      exact .query rfl (subscripts_leads _ hc.start _ hd hn hsince)
    · exact importCall_completes hc.start _ _
    · exact importCall_completes hc.start _ _
    · exact .never (failUnexpected_yields _)
  · exact importCall_completes hc.start _ _

theorem newExpression_reads : Reads text (newExpression grammar) := by
  intro x c hc
  refine .query rfl (Consumes.completes (.expectWord _) hc (Nat.le_refl _) fun _ _ => ?_)
  refine .bind (eat_yields _) fun _ _ => .ite ?_ ?_
  · refine .bind (eatWord_yields _) fun _ _ => .guard (failUnexpected_yields _) ?_
    refine Completes.feed (.finish hc.start soundAll_nil rfl) fun n x d hd hn hsince => .query rfl ?_
    exact .remarkIf (complain_remarks _ _) fun notes => .query rfl
      (subscripts_leads _ hc.start _ { hd with } hn hsince)
  intro x d hd hpassed
  refine (hg.newOrMember x d hd).bind fun callee e he hde hcallee => ?_
  obtain ⟨hcallee, hsince⟩ := hcallee
  refine .ite ?_ ?_
  · exact .pure he ⟨hcallee, hsince.of_le (Nat.le_trans hpassed hd.previous_le)⟩
  suffices h : Completes text c.token.start _ from h x e he (Nat.le_trans hpassed hde.2)
  refine .guard (failAt_yields _ _) ?_
  refine .ask fun _ _ _ => .ask fun _ _ _ => ?_
  refine .join (V := SoundOption text) (.attempt ?_) (.pure soundOption_none)
    fun types htypes => .ask fun _ _ _ => .ite ?_ ?_
  · refine typeArguments_yields.bind fun types htypes => .ask fun _ _ _ => ?_
    exact .ite (.pure (soundOption_some.mpr htypes)) (.pure soundOption_none)
  · refine .bind arguments_yields fun args hargs => ?_
    refine Completes.feed (.finish hc.start (by simp [hcallee, htypes, hargs]) rfl)
      fun n x d hd hn hsince => .query rfl ?_
    exact subscripts_leads _ hc.start _ hd hn hsince
  · exact .finish hc.start (by simp [hcallee, htypes]) rfl

theorem newOrMember_reads : Reads text (newOrMember grammar) := by
  intro x c hc
  refine .query rfl (.query rfl ?_)
  split
  · exact newExpression_reads x c hc
  · exact superExpression_reads true x c hc
  · exact importExpression_reads true x c hc
  · refine (primary_reads x c hc).bind fun e d hd _ he => ?_
    refine .ite (.pure hd he) (.query rfl (.query rfl (.ite ?_ ?_)))
    · have hpassed : c.token.start ≤ d.previous.stop := Nat.le_trans he.2.1 he.2.2.2.2
      refine (instantiated_mayComplete hc.start he.1 x d hd hpassed).bind
        fun typed f hf hdf htyped => .query rfl ?_
      cases typed with
      | some n => exact subscripts_leads _ hc.start _ hf (htyped n rfl).1 (htyped n rfl).2
      | none => exact subscripts_leads _ hc.start _ hf he.1 (he.2.le hdf)
    · exact .query rfl (.query rfl (subscripts_leads _ hc.start _ hd he.1 he.2))

theorem leftHand_reads : Reads text (leftHand grammar) := by
  intro x c hc
  refine .query rfl (.query rfl ?_)
  split
  · exact superExpression_reads false x c hc
  · exact importExpression_reads false x c hc
  · refine .query rfl (.query rfl (.ite ?_ ?_))
    · refine (hg.jsx hc).bind fun e d hd _ h => ?_
      obtain ⟨hsound, hle, hpassed, hstop⟩ := h
      refine (advance_leads_stop hd).bind fun _ f hf hdf hbehind => .pure hf ⟨hsound, hle, ?_⟩
      have hordered := hd.previous_le
      have hnonempty := hd.start_le_stop
      have hlast := hf.previous_le
      have hfurther := hdf.2
      refine ⟨?_, ?_, ?_⟩
      all_goals omega
    · refine (newOrMember_reads x c hc).bind fun e d hd _ he => ?_
      refine .ite (.pure hd he) (.query rfl ?_)
      exact subscripts_leads _ hc.start _ hd he.1 he.2

theorem heritageItem_yields : Yields text (heritageItem grammar) (Node.Sound text) := by
  intro x c hc
  refine .query rfl ((anyName_reads x c hc).bind fun name d hd _ hname => ?_)
  obtain ⟨hname, hsince⟩ := hname
  extract_lets first
  -- a name that is read as an expression keeps its range
  have hfirst : first.Sound text ∧ first.Since c.token.start d := by
    dsimp only [first]
    split
    · exact ⟨.of_parts rfl hname.start hname.stop soundAll_nil, hsince⟩
    · exact ⟨hname, hsince⟩
  refine .query rfl ?_
  refine (subscripts_leads _ hc.start _ hd hfirst.1 hfirst.2).bind fun e f hf _ he => ?_
  suffices h : Yields text _ (Node.Sound text) from h x f hf
  extract_lets ended jp
  have hjp : Yields text (jp ()) (Node.Sound text) := by
    dsimp only [jp]
    split
    · exact .pure (.of_parts rfl he.1.start he.1.stop he.1.parts)
    · refine .ask fun _ _ _ => ?_
      refine .join typeArguments_yields.some (.pure soundOption_none) fun types htypes => ?_
      exact finish_yields hc.start (by simp [he.1, htypes]) rfl
  split
  · exact hjp
  · exact hjp
  · exact hjp
  · exact (complain_yields _ _).bind fun _ _ => hjp

theorem decorator_yields : Yields text (decorator grammar) (Node.Sound text) := by
  refine .ask fun _ c hc => (expect_yields _).bind fun _ _ => ?_
  intro x d hd
  refine .query rfl ((eat_leads _ hd).bind fun b e he hde hpassed => ?_)
  extract_lets ended jp
  have hended {m : Node} (hm : m.Sound text) : Yields text (ended m) (Node.Sound text) :=
    finish_yields hc.start (by simpa using hm) rfl
  have hjp (n : Node) (hn : n.Sound text) :
      Passes text d.token.start (jp n) fun m _ => m.Sound text := by
    refine .ask fun _ _ _ => ?_
    refine .join typeArguments_yields.some (.pure soundOption_none) fun types htypes => ?_
    refine .ask fun _ _ _ => .ite ?_ ?_
    · refine .bind arguments_yields fun args hargs => ?_
      exact (callNode_completes hd.start hn htypes hargs _).feed fun m x f hf hm _ =>
        hended hm x f hf
    · exact fun x f hf _ => .query rfl (hended hn x f hf)
  refine .byCases (fun hb => ?_) fun _ => ?_
  · suffices h : Passes text d.token.start _ fun (m : Node) _ => m.Sound text from
      h x e he (hpassed hb)
    refine .bind hg.expression.yields fun inner hinner => .bind (expect_yields _) fun _ _ => ?_
    exact .bind (finish_yields hd.start (by simpa using hinner) rfl) hjp
  · refine (identifierExpr_reads x e he).bind fun name f hf _ hname => .query rfl ?_
    refine (subscripts_leads _ hd.start _ hf hname.1 (hname.2.of_le hde.1)).bind
      fun n i hi _ hn => ?_
    exact hjp n hn.1 x i hi (Nat.le_trans hn.2.1 hn.2.2.2.2)

/-! ## Operators before and after an operand -/

theorem checkDeleted_remarks (operand : Node) : Remarks (checkDeleted operand) := by
  unfold checkDeleted
  split
  · exact complain_remarks _ _
  · exact .nothing

theorem unaryOperation_reads (op : UnaryOp) :
    Reads text (unaryOperation grammar op) := by
  intro x c hc
  refine .query rfl ((advance_leads hc).bind fun _ d hd hcd hpassed => .query rfl ?_)
  -- a missing operand counts as an empty one
  have hoperand : Leads text x d (do
      try
        grammar .unary
      catch e =>
        note e
        pure (.mk (.expr .invalid) ⟨d.token.start, d.token.start⟩ [])) fun n e =>
        n.Sound text ∧ d.token.start ≤ n.span.stop ∧ n.span.stop ≤ e.token.start := by
    refine .tryCatch ((hg.unary x d hd).mono fun n e _ _ hn => ?_) fun e f hf hdf => ?_
    · exact ⟨hn.1, Nat.le_trans hn.2.1 hn.2.2.1, hn.2.2.2.1⟩
    · refine ((note_remarks e).yields x f hf).bind fun _ i hi hfi _ => .pure hi ?_
      exact ⟨.of_parts rfl hd.start hd.start soundAll_nil, Nat.le_refl _, (hdf.trans hfi).1⟩
  refine hoperand.bind fun operand e he hde h => ?_
  obtain ⟨hsound, hbehind, hbefore⟩ := h
  refine Yields.returns (.guard (checkDeleted_remarks _).yields (.pure rfl)) he
    (.of_parts rfl hc.start hsound.stop (by simpa using hsound)) ?_
  exact ⟨Nat.le_refl _, Nat.le_trans hcd.1 hbehind, hbefore, Nat.le_trans hpassed hde.2⟩

theorem assertion_reads : Reads text (assertion grammar) := by
  intro x c hc
  refine .query rfl ((eatOpenAngle_yields.discard x c hc).bind fun _ d hd hcd _ => ?_)
  refine .query rfl (.query rfl (.ite ?_ ?_))
  · refine (advance_yields x d hd).bind fun _ e he hde _ => ?_
    refine (expect_yields _ x e he).bind fun _ f hf hef _ => ?_
    exact hg.unary.consumes.completes hf ((hcd.trans hde).trans hef).1 fun operand hoperand =>
      .finish hc.start (by simpa using hoperand) rfl
  · refine (hg.type.within x d hd).bind fun type e he hde htype => ?_
    refine (expectCloseAngle_yields x e he).bind fun _ f hf hef _ => ?_
    exact hg.unary.consumes.completes hf ((hcd.trans hde).trans hef).1 fun operand hoperand =>
      .finish hc.start (by simp [htype, hoperand]) rfl

theorem awaitExpression_reads : Reads text (awaitExpression grammar) := by
  intro x c hc
  refine .query rfl (.query rfl (Consumes.completes .advance hc (Nat.le_refl _) fun _ _ => ?_))
  refine .ask fun _ _ _ => .guard (fail_yields _) ?_
  refine .ask fun _ _ _ => .ask fun _ _ _ => ?_
  refine .bind atSemicolon_yields fun _ _ => .ite ?_ ?_
  · exact .bind (complain_yields _ _) fun _ _ => .finish hc.start soundAll_nil rfl
  · refine .guard (complain_yields _ _) (.guard (complain_yields _ _) ?_)
    exact .bind hg.unary.yields fun operand hoperand => .finish hc.start (by simpa using hoperand) rfl

theorem unary_reads : Reads text (unary grammar) := by
  intro x c hc
  refine .query rfl (.query rfl ?_)
  split
  case h_1 | h_2 =>
    refine (advance_leads hc).bind fun _ d hd hcd hpassed => ?_
    refine (hg.unary x d hd).bind fun operand e he hde h => ?_
    obtain ⟨hsound, hbehind, hordered, hbefore, -⟩ := h
    refine Yields.returns ((checkTarget_remarks _ _).yields.bind fun _ _ => .pure rfl) he
      (.of_parts rfl hc.start hsound.stop (by simpa using hsound)) ?_
    refine ⟨Nat.le_refl _, ?_, hbefore, Nat.le_trans hpassed hde.2⟩
    exact Nat.le_trans hcd.1 (Nat.le_trans hbehind hordered)
  split
  · exact unaryOperation_reads _ x c hc
  refine .ite (assertion_reads x c hc) ?_
  refine .ite (awaitExpression_reads x c hc) ?_
  refine (leftHand_reads x c hc).bind fun e d hd _ he => .query rfl ?_
  refine .ite (.pure hd he) ?_
  have hpassed : c.token.start ≤ d.previous.stop := Nat.le_trans he.2.1 he.2.2.2.2
  split
  case h_3 => exact .pure hd he
  all_goals
    suffices h : Completes text c.token.start _ from h x d hd hpassed
    refine .bind (checkTarget_remarks _ _).yields fun _ _ => .bind advance_yields fun _ _ => ?_
    exact .finish hc.start (by simpa using he.1) rfl

/-! ## Binary operators -/

theorem checkMixed_remarks (op : BinaryOp) (left right : Node) :
    Remarks (checkMixed op left right) := by
  unfold checkMixed
  exact .guard (complain_remarks _ _) (.ite (complain_remarks _ _) .nothing)

theorem precedence_pos (op : BinaryOp) : 0 < op.precedence := by
  cases op <;> decide

/-- The left operand stands before the current token, and either some of it has been read or an
operator that binds tightly enough stands here. -/
theorem binaryRest_leads (fuel precedence : Nat) {left : Node}
    (hc : c.In text) (hleft : left.Sound text) (hbehind : o ≤ left.span.start)
    (hordered : left.span.start ≤ left.span.stop) (hbefore : left.span.stop ≤ c.token.start)
    (hread : left.span.start ≤ c.previous.stop ∨
      ∃ op, binaryOp? x c.token = some op ∧ precedence < op.precedence) :
    Leads text x c (binaryRest grammar fuel precedence left) fun n d =>
      n.Sound text ∧ n.Since o d := by
  induction fuel generalizing x precedence c left o with
  | zero => exact exhausted_yields.absurd hc
  | succ fuel ih =>
    have hnext (n : Node) (y : Context) (d : Cursor) (hd : d.In text) (hn : n.Sound text)
        (hsince : n.Since left.span.start d) :
        Leads text y d (binaryRest grammar fuel precedence n) fun n d =>
          n.Sound text ∧ n.Since o d :=
      ih precedence hd hn (Nat.le_trans hbehind hsince.1) hsince.2.1 hsince.2.2.1
        (.inl hsince.2.2.2)
    have hkept (h : left.span.start ≤ c.previous.stop) :
        Leads text x c (pure left) fun n d => n.Sound text ∧ n.Since o d :=
      .pure hc ⟨hleft, hbehind, hordered, hbefore, h⟩
    rw [binaryRest]
    refine .query rfl (.ite ?_ (.query rfl ?_))
    · refine (advance_leads hc).bind fun _ d hd _ hpassed => ?_
      have hread : left.span.start ≤ d.previous.stop :=
        Nat.le_trans hordered (Nat.le_trans hbefore hpassed)
      suffices h : Passes text left.span.start _ fun (n : Node) e => n.Sound text ∧ n.Since o e from
        h x d hd hread
      refine .ask fun _ _ _ => .ite ?_ ?_
      · refine .bind advance_yields fun _ _ => ?_
        exact Completes.feed (.finish hleft.start (by simpa using hleft) rfl) hnext
      · refine .bind hg.type.within fun type htype => ?_
        refine Completes.feed (.finish hleft.start (by simp [hleft, htype]) ?_) hnext
        split
        · rfl
        · rfl
    · split
      · next hop =>
        refine hkept (hread.resolve_right ?_)
        rintro ⟨op, hsome, -⟩
        simp [hop] at hsome
      · next op hop =>
        refine .byCases (fun hle => hkept (hread.resolve_right ?_)) fun _ => ?_
        · rintro ⟨other, hsome, hlt⟩
          cases hop.symm.trans hsome
          omega
        refine (advance_leads hc).bind fun _ d hd hcd hpassed => .unless hd (fail_yields _) ?_
        refine (hg.unary x d hd).bind fun operand e he hde hoperand => ?_
        extract_lets inner jp
        have hjp (right : Node) (f : Cursor) (hf : f.In text) (hdf : d.le f)
            (hright : right.Sound text) (hsince : right.Since d.token.start f) :
            Leads text x f (jp right) fun n d => n.Sound text ∧ n.Since o d := by
          refine ((checkMixed_remarks _ _ _).yields x f hf).bind fun _ i hi hfi _ => ?_
          have hseparates : left.span.stop ≤ right.span.start :=
            Nat.le_trans hbefore (Nat.le_trans hcd.1 hsince.1)
          have hend : right.span.start ≤ right.span.stop := hsince.2.1
          refine hnext _ x i hi (.mk hleft.start hright.stop ?_ (fun _ => ?_) trivial) ?_
          · exact soundAll_cons.mpr ⟨hleft, soundAll_cons.mpr ⟨hright, soundAll_nil⟩⟩
          · exact ⟨left, right, rfl, Nat.le_refl _, hordered, hseparates, hend, Nat.le_refl _⟩
          · refine ⟨Nat.le_refl _, ?_, Nat.le_trans hsince.2.2.1 hfi.1, ?_⟩
            · exact Nat.le_trans hordered (Nat.le_trans hseparates hend)
            · exact Nat.le_trans hordered
                (Nat.le_trans hbefore (Nat.le_trans hpassed (hdf.trans hfi).2))
        refine .ite ?_ ?_
        · exact .query rfl (hjp operand e he hde hoperand.1 hoperand.2)
        · obtain ⟨hoperand, hstart, hordered, hbefore, hread⟩ := hoperand
          refine (ih inner he hoperand hstart hordered hbefore (.inl hread)).bind
            fun right f hf hef hright => ?_
          exact hjp right f hf (hde.trans hef) hright.1 hright.2

/-- The first operand: read, or missing before an operator. -/
theorem firstOperand_leads (hc : c.In text) : Leads text x c (do
      try
        grammar .unary
      catch e =>
        let t ← token
        match binaryOp? (← read) t with
        | some _ =>
          complain t.start "Expression expected"
          pure (.mk (.expr .invalid) ⟨t.start, t.start⟩ [])
        | none => throw e) fun left d =>
      left.Sound text ∧ (left.Since c.token.start d ∨
        left = .mk (.expr .invalid) ⟨d.token.start, d.token.start⟩ [] ∧
          c.token.start ≤ d.token.start ∧ ∃ op, binaryOp? x d.token = some op) := by
  refine .tryCatch ((hg.unary x c hc).mono fun n d _ _ hn => ⟨hn.1, .inl hn.2⟩)
    fun e d hd hcd => .query rfl (.query rfl ?_)
  split
  · next op hop =>
    refine .remark (complain_remarks _ _) fun notes =>
      .pure { hd with } ⟨?_, .inr ⟨rfl, hcd.1, ?_⟩⟩
    · exact .of_parts rfl hd.start hd.start soundAll_nil
    · exact ⟨op, hop⟩
  · exact .throw hd

theorem binary_reads : Reads text (binary grammar) := by
  intro x c hc
  refine (firstOperand_leads hc).bind fun left d hd hcd h => ?_
  obtain ⟨hleft, hsince | ⟨rfl, hle, op, hop⟩⟩ := h
  · refine .ite (.pure hd ⟨hleft, hsince⟩) (.query rfl ?_)
    exact binaryRest_leads _ 0 hd hleft hsince.1 hsince.2.1 hsince.2.2.1 (.inl hsince.2.2.2)
  · refine .query rfl ?_
    exact binaryRest_leads _ 0 hd hleft hle (Nat.le_refl _) (Nat.le_refl _)
      (.inr ⟨op, hop, precedence_pos op⟩)

/-! ## Conditional expressions, assignments, sequences -/

theorem conditional_reads : Reads text (conditional grammar) := by
  intro x c hc
  refine .query rfl ((binary_reads x c hc).bind fun test d hd _ htest => ?_)
  refine .ite (.pure hd htest) ?_
  refine (eat_yields _ x d hd).bind fun _ e he hde _ => .ite ?_ ?_
  · refine (conditionalTail_leads he hc.start htest.1).mono fun n f _ hef hn => ?_
    obtain ⟨hn, hstart, hbehind, hbefore⟩ := hn
    have hread : c.token.start ≤ d.previous.stop := Nat.le_trans htest.2.1 htest.2.2.2.2
    have hordered : c.token.start ≤ e.token.start :=
      Nat.le_trans hread (Nat.le_trans hd.previous_le hde.1)
    refine ⟨hn, Nat.le_of_eq hstart.symm, ?_, hbefore, ?_⟩
    · rw [hstart]
      exact Nat.le_trans hordered hbehind
    · rw [hstart]
      exact Nat.le_trans hread (hde.trans hef).2
  · exact .pure he ⟨htest.1, htest.2.le hde⟩

theorem yieldExpression_reads : Reads text (yieldExpression grammar) := by
  refine .begin .advance fun o _ ho _ => .ask fun _ _ _ => ?_
  refine .guard (failAt_yields _ _) (.bind atSemicolon_yields fun _ _ => .ite ?_ ?_)
  · exact .finish ho (by simp) rfl
  have hvalue (delegates : Bool) : Completes text o (do
      let e ← grammar .assignment
      finish o (.expr (.yieldExpr delegates)) [e]) :=
    .bind hg.assignment.yields fun e he => .finish ho (by simpa using he) rfl
  refine .bind (eat_yields _) fun _ _ => .ite (hvalue true) ?_
  refine .ask fun _ _ _ => .ite (hvalue false) ?_
  exact .finish ho (by simp) rfl

theorem assignmentBase_reads : Reads text (assignmentBase grammar) := by
  intro x c hc
  refine .query rfl (.query rfl (.query rfl (.ite ?_ (.query rfl ?_))))
  · exact yieldExpression_reads x c hc
  extract_lets jp
  have hjp : Leads text x c (jp ()) fun n d => n.Sound text ∧ n.Since c.token.start d := by
    have hmark : Yields text (modify fun d => { d with arrowStart := some c.token.start })
        fun _ => True :=
      yields_modify fun d hd => ⟨{ hd with }, .of_eq rfl rfl rfl⟩
    refine (hmark x c hc).bind fun _ d hd hcd _ => ?_
    refine (conditional_reads x d hd).bind fun e f hf _ he => ?_
    have hsince := he.2.of_le hcd.1
    split
    case h_6 => exact finishAssignment_leads hf hc.start he.1 hsince
    all_goals exact .pure hf ⟨he.1, hsince⟩
  split
  · exact (advance_yields.bind fun _ _ => (Yields.throw _).stop).absurd hc
  · exact hjp

theorem genericArrow_leads (hc : c.In text) :
    Leads text x c (genericArrow grammar) fun arrow d =>
      ∀ n ∈ arrow, n.Sound text ∧ n.Since c.token.start d := by
  refine .attempt hc fun x => .query rfl ?_
  refine (typeParameters_yields _ x c hc).bind fun generics d hd hcd hgenerics => ?_
  refine (assignmentBase_reads x d hd).bind fun e f hf _ he => ?_
  obtain ⟨hsound, hbehind, hordered, hbefore, hread⟩ := he
  split
  · -- the range of the function starts with its type parameters
    have hparts := (soundAll_cons.mp hsound.parts).2
    have hstart := Nat.le_trans hcd.1 hbehind
    refine .pure hf fun n hn => ?_
    cases hn
    refine ⟨.of_parts rfl hc.start hsound.stop (soundAll_cons.mpr ⟨hgenerics, hparts⟩), ?_⟩
    exact ⟨Nat.le_refl _, Nat.le_trans hstart hordered, hbefore, Nat.le_trans hstart hread⟩
  · exact .pure hf nofun

theorem assignment_reads : Reads text (assignment grammar) := by
  intro x c hc
  have hbase (d : Cursor) (hd : d.In text) (hcd : c.le d) :
      Leads text x d (assignmentBase grammar) fun n e =>
        n.Sound text ∧ n.Since c.token.start e :=
    (assignmentBase_reads x d hd).mono fun n _ _ _ hn => ⟨hn.1, hn.2.of_le hcd.1⟩
  refine .query rfl (.ite (.query rfl ?_) (hbase c hc c.le_refl))
  extract_lets generic markup
  have hmarkup (d : Cursor) (hd : d.In text) (hcd : c.le d) :
      Leads text x d (markup none) fun n e => n.Sound text ∧ n.Since c.token.start e := by
    refine .query rfl (.ite ?_ (.query rfl (hbase d hd hcd)))
    have harrow (y : Context) : Leads text y d (genericArrow grammar) fun arrow e =>
        ∀ n ∈ arrow, n.Sound text ∧ n.Since c.token.start e :=
      (genericArrow_leads hd).mono fun _ _ _ _ h n hn => ⟨(h n hn).1, (h n hn).2.of_le hcd.1⟩
    exact .orElse (harrow _) (fun _ => rfl) fun e he hde => hbase e he (hcd.trans hde)
  refine .ite ?_ (.query rfl (hmarkup c hc c.le_refl))
  refine .orElse (.attempt hc fun x => ?_) (fun _ => rfl) hmarkup
  rw [map_eq_pure_bind]
  refine (assignmentBase_reads x c hc).bind fun n d hd _ hn => .pure hd fun m hm => ?_
  exact Option.some.inj hm ▸ hn

theorem sequenceRest_yields (fuel : Nat) {done : List Node}
    (hdone : SoundAll text done) :
    Yields text (sequenceRest grammar fuel done) (SoundAll text) := by
  induction fuel generalizing done with
  | zero => exact exhausted_yields
  | succ fuel ih =>
    refine (eat_yields _).bind fun _ _ => ?_
    refine .ite ?_ (.pure (soundAll_reverse.mpr hdone))
    exact hg.assignment.yields.bind fun e he => ih (by simp [he, hdone])

theorem expression_reads : Reads text (expression grammar) := by
  intro x c hc
  refine (hg.assignment x c hc).bind fun first d hd _ hfirst => .query rfl ?_
  refine .ite (.query rfl ?_) (.pure hd hfirst)
  suffices h : Completes text first.span.start _ from
    (h x d hd hfirst.2.2.2.2).mono fun n _ _ _ hn => ⟨hn.1, hn.2.of_le hfirst.2.1⟩
  refine .bind (sequenceRest_yields _ (by simpa using hfirst.1)) fun all hall => ?_
  exact .finish hfirst.1.start hall rfl

end Retouch.Syntax.Parser
