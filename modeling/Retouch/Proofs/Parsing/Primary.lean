import Retouch.Proofs.Parsing.Function
import Retouch.Proofs.Parsing.Target
import Retouch.Syntax.Parser.Primary

/-!
# Primary expressions keep to the text

- `arrayLiteral_reads`, `objectLiteral_reads`, `template_reads`, `regexLiteral_leads`: literals.
- `arrowTail_completes`: a function after its arrow.
- `parenOrArrow_leads`: what starts with a parenthesis.
- `primary_reads`: every expression that does not start with another expression.
-/

namespace Retouch.Syntax.Parser

variable {text : Text} {grammar : Grammar} [hg : grammar.Sound text] {x : Context} {c : Cursor}
  {o : Nat}

/-! ## Literals -/

theorem exprOrSpread_yields : Yields text (exprOrSpread grammar) (Node.Sound text) := by
  refine .ask fun _ c hc => (eat_yields _).bind fun _ _ => ?_
  refine .ite ?_ hg.assignment.yields.within
  exact hg.assignment.yields.within.bind fun e he => finish_yields hc.start (by simpa using he) rfl

theorem argumentList_yields (fuel : Nat) {done : List Node}
    (hdone : SoundAll text done) :
    Yields text (argumentList grammar fuel done) (SoundAll text) := by
  induction fuel generalizing done with
  | zero => exact exhausted_yields
  | succ fuel ih =>
    have hend : SoundAll text done.reverse := soundAll_reverse.mpr hdone
    refine (eat_yields _).bind fun _ _ => .ite (.pure hend) ?_
    refine .guard (expect_yields _) ?_
    refine (eat_yields _).bind fun _ _ => .ite (.pure hend) ?_
    exact exprOrSpread_yields.bind fun e he => ih (by simp [he, hdone])

theorem arguments_yields : Yields text (arguments grammar) (Node.Sound text) := by
  refine (expect_yields _).bind fun _ _ => .ask fun _ _ _ => ?_
  refine .guard (fail_yields _) ?_
  refine Yields.bind (V := SoundAll text) (.within (.ask fun _ _ _ =>
    argumentList_yields _ soundAll_nil)) fun items hitems => ?_
  exact .pure (sound_group.mpr hitems)

theorem rememberComma_yields (literalStart : Nat) :
    Yields text (rememberComma literalStart) fun _ => True :=
  yields_modify fun _ hc => ⟨{ hc with }, .of_eq rfl rfl rfl⟩

theorem elementList_yields (literalStart fuel : Nat) {done : List Node}
    (hdone : SoundAll text done) :
    Yields text (elementList grammar literalStart fuel done) (SoundAll text) := by
  induction fuel generalizing done with
  | zero => exact exhausted_yields
  | succ fuel ih =>
    refine .ask fun _ _ _ => ?_
    refine .ite (.pure (soundAll_reverse.mpr hdone)) ?_
    refine (eat_yields _).bind fun _ _ => .ite (ih (by simpa using hdone)) ?_
    refine exprOrSpread_yields.bind fun e he => .ask fun _ _ _ => ?_
    have hdone : SoundAll text (e :: done) := soundAll_cons.mpr ⟨he, hdone⟩
    have hmore := ih hdone
    refine .ite ?_ hmore
    refine (expect_yields _).bind fun _ _ => .ask fun _ _ _ => ?_
    exact .guard (rememberComma_yields _) hmore

theorem arrayLiteral_reads : Reads text (arrayLiteral grammar) := by
  refine .begin (.expect _) fun o _ ho _ => .ask fun _ _ _ => ?_
  refine .bind (elementList_yields _ _ soundAll_nil) fun elements helements => ?_
  exact .bind (expect_yields _) fun _ _ => .finish ho helements rfl

theorem accessorProperty_yields (ho : text.isBoundary o = true)
    (word : String) : Yields text (accessorProperty grammar o word) (Node.Sound text) := by
  unfold accessorProperty
  refine .join (eat_yields _) (.pure trivial) fun isGenerator _ => ?_
  refine propertyKey_yields.bind fun key hkey => .ite ?_ ?_
  · refine (functionTail_yields ho soundAll_nil _ _ nothing_yields).bind fun f hf => ?_
    exact .pure (.of_parts rfl hf.start hf.stop (by simp [hkey, hf]))
  · refine (functionTail_yields ho soundAll_nil _ _ (checkAccessor_yields _ _)).bind
      fun f hf => ?_
    have hparts := hf.parts
    split
    · next hshape =>
      rw [hshape] at hparts
      simp only [soundAll_cons] at hparts
      obtain ⟨-, -, hps, hresult, hbody, -⟩ := hparts
      refine .ite ?_ ?_
      · exact finish_yields ho (by simp [hkey, hresult, hbody]) rfl
      · exact finish_yields ho (by simp [hkey, hps, hbody]) rfl
    · exact fail_yields _

theorem shorthandOrAccessor_yields (ho : text.isBoundary o = true)
    (modified : Option Span) {key : Node} (hkey : key.Sound text) (name : String) :
    Yields text (shorthandOrAccessor grammar o modified key name) (Node.Sound text) := by
  refine (eat_yields _).bind fun _ _ => .guardWith (.look fun _ _ => rfl) (fun _ =>
    complain_yields _ _) ?_
  refine (eat_yields _).bind fun _ _ => .ite ?_ ?_
  · refine hg.assignment.yields.within.bind fun value hvalue => ?_
    exact finish_yields ho (by simp [hkey, hvalue]) rfl
  refine .ask fun _ _ _ => .ask fun _ _ _ => ?_
  refine .ite (.pure (.of_parts rfl hkey.start hkey.stop soundAll_nil)) ?_
  refine .ite ?_ (failUnexpected_yields _)
  split
  · exact (complain_yields _ _).bind fun _ _ => accessorProperty_yields ho name
  · exact accessorProperty_yields ho name

theorem objectProperty_yields : Yields text (objectProperty grammar) (Node.Sound text) := by
  refine .ask fun _ c hc => .ask fun _ _ _ => ?_
  refine .ite exprOrSpread_yields ((eat_yields _).bind fun _ _ => ?_)
  have hmethod {key : Node} (hkey : key.Sound text) (isGenerator : Bool) : Yields text (do
      let function ← functionTail grammar c.token.start [] false isGenerator
      return Node.mk (.property .method) function.span [key, function]) (Node.Sound text) :=
    (functionTail_yields hc.start soundAll_nil _ _ nothing_yields).bind fun f hf =>
      .pure (.of_parts rfl hf.start hf.stop (by simp [hkey, hf]))
  refine .ite ?_ (eatModifier_yields.bind fun _ _ => ?_)
  · exact propertyKey_yields.bind fun key hkey => hmethod hkey true
  extract_lets jp
  have hjp (modified : Option Span) : Yields text (jp modified) (Node.Sound text) := by
    refine propertyKey_yields.bind fun key hkey => .ask fun _ _ _ => ?_
    refine .ite ?_ ((eat_yields _).bind fun _ _ => .ite ?_ ?_)
    · refine tokenOffset_yields.bind fun here hhere => (complain_yields _ _).bind fun _ _ => ?_
      have hmissing : (Node.mk (.expr .invalid) ⟨here, here⟩ []).Sound text :=
        .of_parts rfl hhere hhere soundAll_nil
      exact .pure (.of_parts rfl hkey.start hhere (by simp [hkey, hmissing]))
    · refine hg.assignment.yields.within.bind fun value hvalue => ?_
      exact .pure (.of_parts rfl hkey.start hvalue.stop (by simp [hkey, hvalue]))
    · refine .ask fun _ _ _ => .ask fun _ _ _ => ?_
      refine .ite (hmethod hkey false) ?_
      split
      · exact shorthandOrAccessor_yields hc.start _ hkey _
      · exact failUnexpected_yields _
  exact .ite (.ask fun _ _ _ => hjp _) (hjp none)

theorem objectProperties_yields (literalStart fuel : Nat)
    {done : List Node} (hdone : SoundAll text done) :
    Yields text (objectProperties grammar literalStart fuel done) (SoundAll text) := by
  induction fuel generalizing done with
  | zero => exact exhausted_yields
  | succ fuel ih =>
    refine (eat_yields _).bind fun _ _ => ?_
    refine .ite (.pure (soundAll_reverse.mpr hdone)) ?_
    refine objectProperty_yields.bind fun p hp => .ask fun _ _ _ => ?_
    have hdone : SoundAll text (p :: done) := soundAll_cons.mpr ⟨hp, hdone⟩
    have hmore := ih hdone
    refine .ite ?_ hmore
    refine (expect_yields _).bind fun _ _ => .ask fun _ _ _ => ?_
    exact .guard (rememberComma_yields _) hmore

theorem objectLiteral_reads : Reads text (objectLiteral grammar) := by
  refine .begin (.expect _) fun o _ ho _ => ?_
  refine .bind (V := SoundAll text) (.within (.ask fun _ _ _ =>
    objectProperties_yields _ _ soundAll_nil)) fun properties hproperties => ?_
  exact .finish ho hproperties rfl

/-- The escapes of a piece of a template are looked at before the piece itself. -/
theorem quasiFault_leads (hc : c.In text) (tagged : Bool) (place : Place)
    {p : Parser (List Node)} {V : List Node → Cursor → Prop} (h : Leads text x c p V) :
    Leads text x c (if (!tagged) = true then
      match quasiFault? (scanQuasi place).stop place.rest place.offset .plain with
      | some e => throw e >>= fun _ : Unit => p
      | none => p
    else p) V := by
  refine .ite ?_ h
  split
  · exact (Yields.throw _).stop.absurd hc
  · exact h

theorem templateParts_leads (tagged : Bool) (fuel : Nat) {place : Place}
    {done : List Node} (hc : c.In text) (hplace : place.In text)
    (hle : c.token.start ≤ place.offset) (hdone : SoundAll text done) :
    Leads text x c (templateParts grammar tagged o fuel place done) fun all d =>
      SoundAll text all ∧ c.token.start ≤ d.previous.stop := by
  induction fuel generalizing c place done with
  | zero => exact exhausted_yields.absurd hc
  | succ fuel ih =>
    obtain ⟨hstop, hin, hbehind⟩ := scanQuasi_in hplace hle
    have hall : SoundAll text (.mk (.quasi (String.ofList (scanQuasi place).raw))
        ⟨place.offset, (scanQuasi place).stop⟩ [] :: done) :=
      soundAll_cons.mpr ⟨.of_parts rfl hplace.isBoundary hstop soundAll_nil, hdone⟩
    rw [templateParts]
    refine quasiFault_leads hc tagged place ?_
    split
    · exact (failAt_yields _ _).absurd hc
    · refine (resume_leads hc hin hbehind).bind fun _ d hd _ hpassed => ?_
      exact .pure hd ⟨soundAll_reverse.mpr hall, hpassed⟩
    · refine (resume_leads hc hin hbehind).bind fun _ d hd _ hpassed => ?_
      refine (hg.expression.yields.within x d hd).bind fun e f hf hle he => .query rfl ?_
      refine .unless hf (failExpected_yields _) (.query rfl ?_)
      obtain ⟨hafter, hbehind⟩ := after_in hf
      refine (ih hf hafter hbehind (soundAll_cons.mpr ⟨he, hall⟩)).mono fun all i _ hle' h => ?_
      exact ⟨h.1, Nat.le_trans hpassed (Nat.le_trans hle.2 hle'.2)⟩

theorem template_reads (tagged : Bool) :
    Reads text (template grammar tagged) := by
  intro x c hc
  obtain ⟨hafter, hbehind⟩ := after_in hc
  refine .query rfl (.query rfl (.query rfl ?_))
  refine (templateParts_leads _ _ hc hafter hbehind soundAll_nil).bind fun parts d hd _ h => ?_
  exact Passes.finish hc.start h.1 rfl x d hd h.2

theorem checkFlags_remarks (offset : Nat) (seen flags : Text) :
    Remarks (checkFlags offset seen flags) := by
  induction flags generalizing seen with
  | nil => exact .nothing
  | cons c rest ih =>
    refine .ite ((complain_remarks _ _).bind (ih _)) ?_
    exact .guard (complain_remarks _ _) (ih _)

theorem regexLiteral_leads (hc : c.In text) {sign : Punct} (hsign : c.token.kind = .punct sign) :
    Leads text x c regexLiteral fun n d => n.Sound text ∧ n.Since c.token.start d := by
  refine .query rfl ?_
  split
  · exact ⟨{ hc with short := nofun }, .of_eq rfl rfl rfl⟩
  · next regex hregex =>
    have hreaches := scanRegex_reaches hregex
    have hle : c.token.start ≤ regex.place.offset := by
      have hstart := hc.start_eq
      have h : c.here.offset + 1 ≤ regex.place.offset := hreaches.offset_le
      omega
    have hplace : regex.place.In text := (behindSign_in hc hsign).reaches hreaches
    refine (resume_leads hc hplace hle).bind fun _ d hd _ hpassed => ?_
    suffices h : Completes text c.token.start _ from h x d hd hpassed
    exact .bind (checkFlags_remarks _ _ _).yields fun _ _ => .finish hc.start soundAll_nil rfl

/-! ## Arrow functions -/

/-- The body of an arrow function: a block or an expression. -/
theorem arrowBody_yields (isAsync : Bool) (ps : List Node) :
    Yields text (within (Context.inBody isAsync false true) do
      if ← at? .lbrace then
        let body ← block grammar
        checkDirective (areSimple ps) body
        pure body
      else
        grammar .assignment) (Node.Sound text) := by
  refine .within (.ask fun _ _ _ => .ite ?_ ?_)
  · refine (block_yields rfl).bind fun body hbody => ?_
    exact (checkDirective_yields _ _).bind fun _ _ => .pure hbody
  · exact hg.assignment.yields

section Arrow

variable {generics result : Option Node} {ps : List Node}

theorem arrowTail_yields (ho : text.isBoundary o = true)
    (isAsync : Bool) (hgenerics : SoundOption text generics) (hps : SoundAll text ps)
    (hresult : SoundOption text result) :
    Yields text (arrowTail grammar o isAsync generics ps result) (Node.Sound text) :=
  (arrowBody_yields isAsync ps).bind fun body hbody =>
    finish_yields ho (by simp [hgenerics, hps, hresult, hbody]) rfl

theorem arrowTail_completes (ho : text.isBoundary o = true)
    (isAsync : Bool) (hgenerics : SoundOption text generics) (hps : SoundAll text ps)
    (hresult : SoundOption text result) :
    Completes text o (arrowTail grammar o isAsync generics ps result) :=
  .bind (arrowBody_yields isAsync ps) fun body hbody =>
    .finish ho (by simp [hgenerics, hps, hresult, hbody]) rfl

end Arrow

theorem noteComma_yields (trailing : Option Nat) :
    Yields text (asParameters.noteComma trailing) fun _ => True := by
  unfold asParameters.noteComma
  split
  · exact complain_yields _ _
  · exact .pure trivial

theorem asParameters_yields (trailing : Option Nat) {items : List Node}
    (hitems : SoundAll text items) : Yields text (asParameters trailing items) (SoundAll text) := by
  induction items with
  | nil => exact .pure soundAll_nil
  | cons item rest ih =>
    obtain ⟨hitem, hrest⟩ := soundAll_cons.mp hitems
    rw [asParameters]
    refine .ite ((complain_yields _ _).bind fun _ _ => ih hrest) ?_
    extract_lets jp
    have hjp (p : Node) (hp : p.Sound text) : Yields text (jp p) (SoundAll text) :=
      (ih hrest).bind fun ps hps => .pure (soundAll_cons.mpr ⟨hp, hps⟩)
    split
    · next inner =>
      have hinner : inner.Sound text := (soundAll_cons.mp hitem.parts).1
      refine .guard (complain_yields _ _) ((noteComma_yields _).bind fun _ _ => ?_)
      refine (rereadPattern_yields _ hinner).bind fun target htarget => ?_
      exact (Yields.pure (.of_parts rfl hinner.start hinner.stop (by simp [htarget.1]))).bind hjp
    · exact .guard (noteComma_yields _) ((Yields.pure hitem).bind hjp)
    · exact (rereadPattern_yields _ hitem).bind fun p hp => hjp p hp.1

theorem itemsAsParameters_yields {found : ParenItems} (hfound : SoundAll text found.items) :
    Yields text (itemsAsParameters found) (SoundAll text) :=
  (asParameters_yields _ hfound).bind fun _ hps =>
    (noteRestrictedIn_remarks _).yields.bind fun _ _ => .pure hps

/-! ## Items in parentheses -/

theorem conditionalTail_leads (hc : c.In text)
    (ho : text.isBoundary o = true) {test : Node} (htest : test.Sound text) :
    Leads text x c (conditionalTail grammar o test) fun n d =>
      n.Sound text ∧ n.span.start = o ∧ c.token.start ≤ n.span.stop ∧
        n.span.stop ≤ d.token.start := by
  refine (hg.assignment.yields.within x c hc).bind fun yes d hd hcd hyes => ?_
  refine (expect_yields _ x d hd).bind fun _ e he hde _ => ?_
  refine (hg.assignment.within x e he).bind fun no f hf _ hno => .pure hf ?_
  obtain ⟨hno, hsince⟩ := hno
  refine ⟨.of_parts rfl ho hno.stop (by simp [htest, hyes, hno]), rfl, ?_, hsince.2.2.1⟩
  calc c.token.start ≤ e.token.start := (hcd.trans hde).1
    _ ≤ no.span.start := hsince.1
    _ ≤ no.span.stop := hsince.2.1

theorem itemPattern_yields (ho : text.isBoundary o = true) {item : Node}
    (hitem : item.Sound text) (optional : Bool) :
    Yields text (itemPattern grammar o item optional) (Node.Sound text) := by
  unfold itemPattern
  split
  next isRest inner hshape =>
  have hinner : inner.Sound text := by
    split at hshape
    · cases hshape
      exact (soundAll_cons.mp hitem.parts).1
    · cases hshape
      exact hitem
  refine (rereadPattern_yields _ hinner).bind fun pattern hpattern => ?_
  have hmarked : SoundPattern text (if optional then markOptional pattern else pattern) := by
    split
    · exact markOptional_sound hpattern
    · exact hpattern
  refine typeAnnotation_yields.bind fun annotation hannotation => ?_
  have hannotated := (annotate_sound hmarked hannotation).1
  refine .guard (complain_yields _ _) ?_
  refine .join (finish_yields ho (by simpa using hannotated) rfl) (.pure hannotated)
    fun pattern hpattern => (eat_yields _).bind fun _ _ => ?_
  refine .ite ?_ (.pure hpattern)
  refine hg.assignment.yields.bind fun value hvalue => ?_
  exact finish_yields ho (by simp [hpattern, hvalue]) rfl

theorem plainItem_yields : Yields text (plainItem grammar) (Node.Sound text) := by
  intro x c hc
  refine .query rfl (.query rfl (.query rfl ?_))
  extract_lets jp
  have hjp (reference : Bool) : Leads text x c (jp reference) fun n _ => n.Sound text := by
    refine .ite ?_ (exprOrSpread_yields x c hc)
    refine (eat_yields _ x c hc).bind fun _ d hd hle _ => .ite ?_ ?_
    · refine (hg.binary.yields x d hd).bind fun e f hf _ he => ?_
      exact finish_yields hc.start (by simpa using he) rfl x f hf
    · refine (hg.binary x d hd).bind fun e f hf _ he => ?_
      split
      · exact .pure hf he.1
      · refine (finishAssignment_leads hf hc.start he.1 (he.2.of_le hle.1)).mono ?_
        exact fun n _ _ _ hn => hn.1
  refine .ite ?_ ?_
  · exact .query rfl (.query rfl (hjp _))
  · exact .query rfl (.query rfl (hjp _))

theorem finishedItem_yields (ho : text.isBoundary o = true) {item : Node}
    (hitem : item.Sound text) :
    Yields text (finishedItem grammar o item) (Node.Sound text) := by
  refine .ask fun _ _ _ => .ite ?_ ?_
  · refine .ask fun _ _ _ => ?_
    split
    -- a question mark that is part of a parameter
    iterate 4
      refine advance_yields.bind fun _ _ => ?_
      refine .guardWith (.look fun _ _ => rfl) (fun _ => complain_yields _ _) ?_
      extract_lets inner pattern
      split
      · exact itemPattern_yields ho hitem true
      · exact .stop (failAt_yields _ _)
    · refine .ite (.pure hitem) (advance_yields.bind fun _ _ => ?_)
      exact fun x c hc => (conditionalTail_leads hc ho hitem).mono fun n _ _ _ hn => hn.1
  · refine .ask fun _ _ _ => ?_
    exact .ite (itemPattern_yields ho hitem _) (.pure hitem)

theorem parenItem_yields : Yields text (parenItem grammar) (Node.Sound text) := by
  have hmark (offset : Nat) :
      Yields text (modify fun c => { c with arrowStart := some offset }) fun _ => True :=
    yields_modify fun _ hc => ⟨{ hc with }, .of_eq rfl rfl rfl⟩
  refine .ask fun _ _ _ => (hmark _).bind fun _ _ => ?_
  refine eatModifier_yields.bind fun _ _ => .ask fun _ c hc => ?_
  refine plainItem_yields.bind fun item hitem => ?_
  refine (finishedItem_yields hc.start hitem).bind fun item hitem => ?_
  exact .guard (complain_yields _ _) (.pure hitem)

theorem parenItems_yields (ho : text.isBoundary o = true) (fuel : Nat)
    (trailing : Option Nat) {done : List Node} (hdone : SoundAll text done) :
    Yields text (parenItems grammar o fuel trailing done) fun found =>
      SoundAll text found.items := by
  induction fuel generalizing trailing done with
  | zero => exact exhausted_yields
  | succ fuel ih =>
    refine (eat_yields _).bind fun _ _ => ?_
    refine .ite (.pure (soundAll_reverse.mpr hdone)) ?_
    refine parenItem_yields.bind fun item hitem => (eat_yields _).bind fun _ _ => ?_
    extract_lets jp
    have hjp (more : List Node) (hmore : SoundAll text more) :
        Yields text (jp more) fun found => SoundAll text found.items := by
      have hdone : SoundAll text (more ++ item :: done) := by simp [hmore, hitem, hdone]
      have hnext (trailing : Option Nat) := ih trailing hdone
      refine .ask fun _ _ _ => .ite (hnext none) ?_
      refine (expect_yields _).bind fun _ _ => .ask fun _ _ _ => ?_
      exact .ite (.ask fun _ _ _ => hnext _) (hnext none)
    refine .ite ?_ (hjp [] soundAll_nil)
    refine (itemsAsParameters_yields (by simpa using hitem)).bind fun ps hps => ?_
    refine (arrowTail_yields ho _ soundOption_none hps soundOption_none).bind
      fun arrow harrow => ?_
    exact hjp [arrow] (by simpa using harrow)

/-! ## Parentheses -/

theorem arrowInConditional_mayComplete (ho : text.isBoundary o = true)
    (isAsync : Bool) {found : ParenItems} (hfound : SoundAll text found.items) :
    MayComplete text o (arrowInConditional grammar o isAsync found) := by
  refine .ask fun _ _ _ => .attempt ?_
  refine .bind (resultType_yields _) fun result hresult => .bind (expect_yields _) fun _ _ => ?_
  refine .bind (itemsAsParameters_yields hfound) fun ps hps => ?_
  refine (arrowTail_completes ho _ soundOption_none hps (soundOption_some.mpr hresult)).feed
    fun arrow x d hd harrow hsince => .query rfl (.ite (.pure hd nofun) ?_)
  exact .pure hd fun n hn => Option.some.inj hn ▸ ⟨harrow, hsince⟩

theorem parenExpression_completes (ho : text.isBoundary o = true) {asyncSpan : Option Span}
    (hspan : ∀ s ∈ asyncSpan, text.isBoundary s.start = true ∧ text.isBoundary s.stop = true)
    {items : List Node} (hitems : SoundAll text items) :
    Completes text o (parenExpression o asyncSpan items) := by
  unfold parenExpression
  split
  · next span =>
    obtain ⟨hstart, hstop⟩ := hspan span rfl
    have hcallee : (Node.mk (.expr (.ident "async")) span []).Sound text :=
      .of_parts rfl hstart hstop soundAll_nil
    exact .finish ho (by simp [hcallee, hitems]) rfl
  · extract_lets spread
    clear_value spread
    split
    · exact .never (failAt_yields _ _)
    · split
      · exact .never (failAt_yields _ _)
      · exact .finish ho hitems rfl
      · next first rest _ =>
        obtain ⟨hfirst, hrest⟩ := soundAll_cons.mp hitems
        refine .finish ho (soundAll_cons.mpr ⟨?_, soundAll_nil⟩) rfl
        refine .of_parts rfl hfirst.start ?_ hitems
        -- the parenthesis ends where its last item does
        split
        · next last hlast => exact (hrest last (List.mem_of_getLast? hlast)).stop
        · exact hfirst.stop

theorem noteDefault_yields (property : Node) : Yields text (match property with
    | .mk (.property .assign) span _ => do
      complain span.start "assignment property is invalid syntax"
      pure (ForInStep.yield PUnit.unit)
    | _ => pure (ForInStep.yield PUnit.unit)) fun _ => True := by
  split
  · exact (complain_yields _ _).bind fun _ _ => .pure trivial
  · exact .pure trivial

theorem noteDefaults_yields (item : Node) : Yields text (noteDefaults item) fun _ => True := by
  unfold noteDefaults
  split
  · exact (Yields.forIn fun property _ => noteDefault_yields property).bind fun _ _ => .pure trivial
  · exact (Yields.forIn fun property _ => noteDefault_yields property).bind fun _ _ => .pure trivial
  · exact .pure trivial

theorem atSignOperator_yields : Yields text atSignOperator? fun _ => True := by
  refine .ask fun _ _ _ => ?_
  split
  · exact .pure trivial
  · exact .pure trivial

/-- An operator that stands behind an arrow function with a block as its body is read all the
same. -/
theorem operatorAfterArrow_leads (hc : c.In text) {arrow : Node}
    (harrow : arrow.Sound text) (hsince : arrow.Since o c) :
    Leads text x c (operatorAfterArrow grammar arrow) fun n d => n.Sound text ∧ n.Since o d := by
  unfold operatorAfterArrow
  split
  · refine (atSignOperator_yields x c hc).bind fun _ d hd hcd _ => ?_
    refine .ite ?_ (.pure hd ⟨harrow, hsince.le hcd⟩)
    refine (tokenOffset_yields x d hd).bind fun _ e he hde _ => ?_
    refine (complain_yields _ _ x e he).bind fun _ f hf hef _ => ?_
    have hbefore := ((hsince.le hcd).le hde).le hef
    refine (hg.binaryAfter harrow hbefore hf).bind fun whole i hi _ hwhole => ?_
    refine Yields.returns ?_ hi hwhole.1 hwhole.2
    refine atSemicolon_yields.bind fun _ _ => ?_
    exact .guardWith tokenOffset_yields (fun _ => complain_yields _ _) (.pure rfl)
  · exact .pure hc ⟨harrow, hsince⟩

/-- What a parenthesis starts with: the word before it, or the parenthesis itself. -/
def parenStart (asyncSpan : Option Span) (c : Cursor) : Nat :=
  match asyncSpan with
  | some span => span.start
  | none => c.token.start

theorem parenOrArrow_leads (hc : c.In text) (canBeArrow : Bool)
    {asyncSpan : Option Span}
    (hspan : ∀ s ∈ asyncSpan, text.isBoundary s.start = true ∧ text.isBoundary s.stop = true ∧
      s.start ≤ c.token.start) :
    Leads text x c (parenOrArrow grammar canBeArrow asyncSpan) fun n d =>
      n.Sound text ∧ n.Since (parenStart asyncSpan c) d := by
  unfold parenOrArrow
  extract_lets inside jp
  have hjp (o : Nat) (ho : text.isBoundary o = true) (hle : o ≤ c.token.start) :
      Leads text x c (jp o) fun n d => n.Sound text ∧ n.Since o d := by
    refine Consumes.completes (.expect _) hc hle fun _ _ => ?_
    refine .bind (V := fun found => SoundAll text found.items) (.within
      (.ask fun _ _ _ => parenItems_yields ho _ _ soundAll_nil))
      fun found hfound => .ask fun _ _ _ => .ask fun _ _ _ => ?_
    have harrow {result : Option Node} (hresult : SoundOption text result) : Completes text o (do
        expect .arrow
        let ps ← itemsAsParameters found
        let arrow ← arrowTail grammar o asyncSpan.isSome none ps result
        operatorAfterArrow grammar arrow) := by
      refine .bind (expect_yields _) fun _ _ => .bind (itemsAsParameters_yields hfound)
        fun ps hps => ?_
      exact (arrowTail_completes ho _ soundOption_none hps hresult).feed
        fun arrow x d hd harrow hsince => operatorAfterArrow_leads hd harrow hsince
    extract_lets late early
    have hlate (result : Option Node) (hresult : SoundOption text result) :
        Completes text o (late result) := by
      refine .ask fun _ _ _ => .ite ?_ ?_
      · refine .ask fun _ _ _ => ?_
        exact .guard (failAt_yields _ _) (.guard (failAt_yields _ _) (harrow hresult))
      · refine .bind (.forIn fun item _ => (noteDefaults_yields item).bind fun _ _ => .pure trivial)
          fun _ _ => ?_
        exact parenExpression_completes ho (fun s hs => ⟨(hspan s hs).1, (hspan s hs).2.1⟩) hfound
    have hearly : Completes text o (early none) := by
      refine .ask fun _ _ _ => ?_
      refine .join (V := SoundOption text) (.attempt ?_) (.pure soundOption_none) hlate
      refine (resultType_yields _).bind fun type htype => .ask fun _ _ _ => ?_
      exact .ite (.pure (soundOption_some.mpr htype)) (.pure soundOption_none)
    refine .ite ?_ hearly
    intro x d hd hle
    refine .orElse (arrowInConditional_mayComplete ho _ hfound x d hd hle) (fun _ => rfl) ?_
    exact fun e he hde => hearly x e he (Nat.le_trans hle hde.2)
  split
  · next span => exact .query rfl (hjp _ (hspan span rfl).1 (hspan span rfl).2.2)
  · exact .query rfl (hjp _ hc.start (Nat.le_refl _))

theorem genericAsyncArrow_leads (hc : c.In text) :
    Leads text x c (genericAsyncArrow grammar c.token.start) fun arrow d =>
      ∀ n ∈ arrow, n.Sound text ∧ n.Since c.token.start d := by
  refine .attempt hc fun x => (advance_leads hc).bind fun _ d hd _ hpassed => ?_
  refine (typeParameters_yields _ x d hd).bind fun generics e he hde hgenerics => ?_
  refine (parameters_yields false x e he).bind fun ps f hf hef hps => ?_
  have hpatterns : SoundAll text (ps.filterMap fun p => p.parts[1]?) := by
    intro n hn
    obtain ⟨p, hp, hpart⟩ := List.mem_filterMap.mp hn
    exact (hps p hp).parts n (List.mem_of_getElem? hpart)
  refine (resultType?_yields x f hf).bind fun result i hi hfi hresult => ?_
  refine (expect_yields _ x i hi).bind fun _ j hj hij _ => ?_
  have hbehind : c.token.start ≤ j.previous.stop :=
    Nat.le_trans hpassed (((hde.trans hef).trans hfi).trans hij).2
  rw [map_eq_pure_bind]
  refine (arrowTail_completes hc.start _ (soundOption_some.mpr hgenerics) hpatterns hresult x j
    hj
    hbehind).bind fun arrow k hk _ harrow => .pure hk ?_
  intro n hn
  cases hn
  exact harrow

/-! ## Primary expressions -/

theorem functionExpression_leads (hc : c.In text)
    (ho : text.isBoundary o = true) (hle : o ≤ c.token.start) (isAsync : Bool) :
    Leads text x c (functionExpression grammar o isAsync) fun n d =>
      n.Sound text ∧ n.Since o d := by
  refine Consumes.completes (.expectWord _) hc hle fun _ _ => ?_
  refine .bind (namedFunction_yields ho _ _ _) fun pair hpair => ?_
  exact .finish ho (by simp [hpair.1, hpair.2]) rfl

theorem classExpression_leads (hc : c.In text)
    (ho : text.isBoundary o = true) (hle : o ≤ c.token.start) {decorated : List Node}
    (hdecorated : SoundAll text decorated) :
    Leads text x c (classExpression grammar o decorated) fun n d =>
      n.Sound text ∧ n.Since o d := by
  refine Consumes.completes (.expectWord _) hc hle fun _ _ => ?_
  refine .bind (namedClass_yields ho hdecorated _ _) fun pair hpair => ?_
  exact .finish ho (by simp [hpair.1, hpair.2]) rfl

theorem nameOrArrow_reads (canBeArrow : Bool) :
    Reads text (nameOrArrow grammar canBeArrow) := by
  intro x c hc
  refine .query rfl ((identifierExpr_reads x c hc).bind fun name d hd hcd hname => ?_)
  obtain ⟨hname, hsince⟩ := hname
  have hpassed : c.token.start ≤ d.previous.stop := Nat.le_trans hsince.1 hsince.2.2.2
  refine .query rfl (.query rfl (.query rfl (.ite ?_ ?_)))
  · refine .query rfl (.query rfl (.query rfl (.ite ?_ ?_)))
    · refine Yields.returns ?_ hd hname hsince
      exact .guardWith (.look fun _ _ => rfl) (fun _ => complain_yields _ _) (.pure rfl)
    · suffices h : Completes text c.token.start _ from h x d hd hpassed
      refine .bind (bindingIdentifier_yields _) fun p hp => .ask fun _ _ _ => ?_
      refine .ite ?_ ?_
      · refine .bind hg.type.within fun type htype => ?_
        exact .finish hc.start (by simp [hname, htype]) rfl
      · refine .bind (expect_yields _) fun _ _ => ?_
        exact arrowTail_completes hc.start _ soundOption_none (by simpa using hp)
          soundOption_none
  · refine .query rfl (.query rfl (.ite ?_ (.pure hd ⟨hname, hsince⟩)))
    split
    · next written span _ =>
      have hparameter : (Node.mk (.pattern (.ident written false)) span [.absent]).Sound text :=
        .of_parts rfl hname.start hname.stop (by simp)
      suffices h : Completes text c.token.start _ from h x d hd hpassed
      refine .bind (noteRestricted_remarks _ _).yields fun _ _ => .bind advance_yields fun _ _ => ?_
      exact arrowTail_completes hc.start _ soundOption_none (by simpa using hparameter)
        soundOption_none
    · exact .pure hd ⟨hname, hsince⟩

theorem asyncExpression_reads (canBeArrow : Bool) :
    Reads text (asyncExpression grammar canBeArrow) := by
  intro x c hc
  refine .query rfl (.query rfl (.ite ?_ ?_))
  · refine (advance_yields x c hc).bind fun _ d hd hcd _ => ?_
    exact functionExpression_leads hd hc.start hcd.1 _
  extract_lets jp
  have hjp (d : Cursor) (hd : d.In text) (hcd : c.le d) :
      Leads text x d (jp none) fun n e => n.Sound text ∧ n.Since c.token.start e := by
    refine .ite ?_ ?_
    · refine (advance_yields x d hd).bind fun _ e he hde _ => ?_
      refine parenOrArrow_leads he _ fun s hs => ?_
      cases hs
      exact ⟨hc.start, hc.stop, (hcd.trans hde).1⟩
    · refine (nameOrArrow_reads _ x d hd).mono fun n _ _ _ hn => ?_
      exact ⟨hn.1, hn.2.of_le hcd.1⟩
  refine .ite ?_ (.query rfl (hjp c hc c.le_refl))
  exact .orElse (genericAsyncArrow_leads hc) (fun _ => rfl) hjp

theorem privateReference_reads : Reads text privateReference := by
  intro x c hc
  refine .query rfl ((expect_leads _ hc).bind fun _ d hd hcd hpassed => ?_)
  refine (anyName_reads x d hd).bind fun name e he hde hname => ?_
  split
  · exact Passes.finish hc.start soundAll_nil rfl x e he (Nat.le_trans hpassed hde.2)
  · exact .pure he ⟨hname.1, hname.2.of_le hcd.1⟩

theorem decoratedName_reads : Reads text decoratedName := by
  intro x c hc
  refine .query rfl ?_
  split
  · exact (advance_yields.bind fun _ _ => .throw _).absurd hc
  · exact privateReference_reads x c hc
  · refine .query rfl (.ite (identifierExpr_reads x c hc) ?_)
    exact (fail_yields _).absurd hc

theorem isLoose_tokenLiteral {t : Token} {literal : ExprForm}
    (h : tokenLiteral? t = some literal) : (Form.expr literal).isLoose = true := by
  unfold tokenLiteral? at h
  split at h
  case h_4 =>
    split at h
    all_goals cases h
    all_goals rfl
  all_goals cases h
  all_goals rfl

theorem tokenLiteral_leads (hc : c.In text) : Leads text x c (match tokenLiteral? c.token with
    | some literal => do
      advance
      pure (Node.mk (.expr literal) ⟨c.token.start, c.token.stop⟩ [])
    | none => fail "Expression expected") fun n d =>
      n.Sound text ∧ n.Since c.token.start d := by
  split
  · next literal h => exact tokenNode_leads hc soundAll_nil (isLoose_tokenLiteral h)
  · exact (fail_yields _).absurd hc

theorem primary_reads : Reads text (primary grammar) := by
  intro x c hc
  refine .query rfl (.query rfl ?_)
  have hliteral := tokenLiteral_leads (x := x) hc
  extract_lets canBeArrow span
  split
  · exact hliteral
  · exact hliteral
  · exact hliteral
  · exact arrayLiteral_reads x c hc
  · exact objectLiteral_reads x c hc
  · exact parenOrArrow_leads hc _ (by rintro _ ⟨⟩)
  · next hsign => exact regexLiteral_leads hc hsign
  · next hsign => exact regexLiteral_leads hc hsign
  · exact template_reads _ x c hc
  · refine .query rfl (.ite ?_ ((fail_yields _).absurd hc))
    refine (decorators_yields x c hc).bind fun decorated d hd hcd hdecorated => ?_
    refine (denyExport_yields x d hd).bind fun _ e he hde _ => .query rfl ?_
    have hle := (hcd.trans hde).1
    refine .ite (classExpression_leads he hc.start hle hdecorated) ?_
    exact (decoratedName_reads x e he).mono fun n _ _ _ hn => ⟨hn.1, hn.2.of_le hle⟩
  · exact privateReference_reads x c hc
  · split
    · exact tokenNode_leads hc soundAll_nil rfl
    · exact hliteral
    · exact hliteral
    · exact hliteral
    · exact functionExpression_leads hc hc.start (Nat.le_refl _) _
    · exact classExpression_leads hc hc.start (Nat.le_refl _) soundAll_nil
    · exact asyncExpression_reads _ x c hc
    · refine .ite ((fail_yields _).absurd hc) ?_
      exact nameOrArrow_reads _ x c hc
    · exact nameOrArrow_reads _ x c hc
  · exact (advance_yields.bind fun _ _ => .throw _).absurd hc
  · exact (fail_yields _).absurd hc

end Retouch.Syntax.Parser
