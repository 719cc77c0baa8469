import Retouch.Proofs.Parsing.Pattern
import Retouch.Syntax.Parser.Type

/-!
# Types keep to the text

- `typeArguments_yields`, `typeParameters_yields`: lists in angle brackets.
- `typeElements_yields`: the elements of an interface or a type literal.
- `typeExpr_yields`, `typeExpr_isType`: every type.
-/

namespace Retouch.Syntax.Parser

variable {text : Text} {grammar : Grammar} [hg : grammar.Sound text] {x : Context} {c : Cursor}

/-! ## Angle brackets -/

theorem eatOpenAngle_leads (hc : c.In text) :
    Leads text x c eatOpenAngle fun b d => b = true → c.token.start ≤ d.previous.stop := by
  refine .query rfl ?_
  split
  · exact (advance_leads hc).bind fun _ _ hd _ h => .pure hd fun _ => h
  · next hsign => exact (advancePart_leads hc hsign).bind fun _ _ hd _ h => .pure hd fun _ => h
  · exact .pure hc nofun

theorem eatOpenAngle_yields : Yields text eatOpenAngle fun _ => True :=
  fun _ _ hc => (eatOpenAngle_leads hc).mono fun _ _ _ _ _ => trivial

theorem expectCloseAngle_yields : Yields text expectCloseAngle fun _ => True := by
  intro x c hc
  refine .query rfl ?_
  have hpart {sign : Punct} (hsign : c.token.kind = .punct sign) :
      Leads text x c (advancePart 1) fun _ _ => True :=
    (advancePart_leads hc hsign).mono fun _ _ _ _ _ => trivial
  split
  · exact advance_yields x c hc
  · next hsign => exact hpart hsign
  · next hsign => exact hpart hsign
  · next hsign => exact hpart hsign
  · next hsign => exact hpart hsign
  · next hsign => exact hpart hsign
  · exact (failExpected_yields _).absurd hc

theorem atCloseAngle_leads (hc : c.In text) :
    Leads text x c atCloseAngle? fun b d =>
      d = c ∧ (b = true → ∃ sign, c.token.kind = .punct sign) := by
  refine .query rfl ?_
  split
  case h_7 => exact .pure hc ⟨rfl, nofun⟩
  all_goals
    next hsign => exact .pure hc ⟨rfl, fun _ => ⟨_, hsign⟩⟩

theorem atCloseAngle_yields : Yields text atCloseAngle? fun _ => True :=
  fun _ _ hc => (atCloseAngle_leads hc).mono fun _ _ _ _ _ => trivial

theorem angleItems_yields {item : Parser Node} (hitem : Yields text item (Node.Sound text))
    (fuel : Nat) {done : List Node} (hdone : SoundAll text done) :
    Yields text (angleItems item fuel done) (SoundAll text) := by
  induction fuel generalizing done with
  | zero => exact exhausted_yields
  | succ fuel ih =>
    refine atCloseAngle_yields.bind fun _ _ => .ite (.pure (by simpa using hdone)) ?_
    refine hitem.bind fun n hn => (eat_yields _).bind fun _ _ => ?_
    refine .ite (ih (by simp [hn, hdone])) (atCloseAngle_yields.bind fun _ _ => ?_)
    exact .ite (.pure (by simp [hn, hdone])) (failExpected_yields _)

theorem typeArguments_yields : Yields text (typeArguments grammar) (Node.Sound text) := by
  refine .ask fun _ c hc => eatOpenAngle_yields.bind fun _ _ => ?_
  refine .guard (failExpected_yields _) ?_
  refine Yields.bind (V := SoundAll text) (.within (.ask fun _ _ _ =>
    angleItems_yields hg.type _ soundAll_nil)) fun types htypes => ?_
  refine expectCloseAngle_yields.bind fun _ _ => .guard (complain_yields _ _) ?_
  exact finish_yields hc.start htypes rfl

theorem typeArguments?_yields : Yields text (typeArguments? grammar) (SoundOption text) := by
  refine .ask fun _ _ _ => .ite ?_ (.pure (by simp))
  exact typeArguments_yields.bind fun types htypes => .pure (by simpa using htypes)

theorem typeParameterModifiers_yields (rules : TypeParameterRules) (fuel : Nat)
    (done : List Keyword) :
    Yields text (typeParameterModifiers rules fuel done) fun _ => True := by
  induction fuel generalizing done with
  | zero => exact exhausted_yields
  | succ fuel ih =>
    refine (modifier_yields _ _).bind fun word _ => ?_
    split
    · exact .pure trivial
    · split
      · exact .ask fun _ _ _ => (complain_yields _ _).bind fun _ _ => ih _
      · exact ih _

theorem typeParameter_yields (rules : TypeParameterRules) :
    Yields text (typeParameter grammar rules) (Node.Sound text) := by
  refine .ask fun _ c hc => .ask fun _ _ _ => ?_
  refine (typeParameterModifiers_yields rules _ _).bind fun modifiers _ => ?_
  refine anyName_reads.yields.bind fun name hname => (eatWord_yields _).bind fun _ _ => ?_
  refine .join hg.type.some (.pure soundOption_none) fun bound hbound => ?_
  refine (eat_yields _).bind fun _ _ => ?_
  refine .join hg.type.some (.pure soundOption_none) fun default hdefault => ?_
  split
  · exact finish_yields hc.start (by simp [hbound, hdefault]) rfl
  · exact fail_yields _

theorem typeParameters_yields (rules : TypeParameterRules) :
    Yields text (typeParameters grammar rules) (Node.Sound text) := by
  refine .ask fun _ c hc => eatOpenAngle_yields.bind fun _ _ => ?_
  refine .guard (failExpected_yields _) (.ask fun _ _ _ => ?_)
  refine (angleItems_yields (typeParameter_yields rules) _ soundAll_nil).bind
    fun items hitems => ?_
  exact expectCloseAngle_yields.bind fun _ _ => finish_yields hc.start hitems rfl

theorem typeParameters?_yields (rules : TypeParameterRules) :
    Yields text (typeParameters? grammar rules) (SoundOption text) :=
  .ask fun _ _ _ =>
    .ite (typeParameters_yields rules).some (.pure soundOption_none)

theorem typeParameters?_form {rules : TypeParameterRules} :
    Gives (typeParameters? grammar rules) fun list => (Node.ofOption list).IsParameterList := by
  refine .after fun _ => .ite (.map (V := fun n => n.form = .typeParams) ?_ fun _ => .inr)
    (.pure (.inl rfl))
  exact .after fun _ => .after fun _ => .guard (.after fun _ => .after fun _ => .after fun _ =>
    .finish fun _ => rfl)

/-! ## Names and results -/

theorem atAnyWord_yields : Yields text atAnyWord? fun _ => True := by
  refine .ask fun _ _ _ => ?_
  split
  · exact .pure trivial
  · exact .pure trivial

theorem qualifiedRest_yields {offset : Nat} (ho : text.isBoundary offset = true) (fuel : Nat)
    {left : Node} (hleft : left.Sound text) :
    Yields text (qualifiedRest offset fuel left) (Node.Sound text) := by
  induction fuel generalizing left with
  | zero => exact exhausted_yields
  | succ fuel ih =>
    refine (eat_yields _).bind fun _ _ => .ite ?_ (.pure hleft)
    refine atAnyWord_yields.bind fun _ _ => .ite ?_ ?_
    · refine anyName_reads.yields.bind fun right hright => ?_
      exact (finish_yields ho (by simp [hleft, hright]) rfl).bind fun _ => ih
    · refine .ask fun _ _ _ => .ite (fail_yields _) ?_
      exact tokenOffset_yields.bind fun _ _ => (complain_yields _ _).bind fun _ _ => .pure hleft

theorem entityName_yields : Yields text entityName (Node.Sound text) :=
  .ask fun _ _ hc => anyName_reads.yields.bind fun _ hfirst =>
    .ask fun _ _ _ => qualifiedRest_yields hc.start _ hfirst

theorem resultType_yields (mark : Punct) :
    Yields text (resultType grammar mark) (Node.Sound text) := by
  refine (expect_yields _).bind fun _ _ => .ask fun _ c hc => ?_
  refine .ask fun _ _ _ => .guard advance_yields (.ask fun _ _ _ => ?_)
  refine .ite (anyName_reads.yields.bind fun subject hsubject => ?_) ?_
  · refine advance_yields.bind fun _ _ => hg.type.bind fun type htype => ?_
    exact finish_yields hc.start (by simp [hsubject, htype]) rfl
  refine .ite (anyName_reads.yields.bind fun subject hsubject => ?_) hg.type
  exact finish_yields hc.start (by simpa using hsubject) rfl

theorem resultType?_yields : Yields text (resultType? grammar) (SoundOption text) :=
  .ask fun _ _ _ =>
    .ite (resultType_yields _).some (.pure soundOption_none)

/-! ## Elements of interfaces and type literals -/

theorem endElement_yields : Yields text endElement fun _ => True :=
  (eat_yields _).bind fun _ _ => .ite expectSemicolon_yields (.pure trivial)

theorem elementKey_yields : Yields text (elementKey grammar) (Node.Sound text) := by
  refine .ask fun _ c hc => ?_
  split
  · refine advance_yields.bind fun _ _ => hg.assignment.yields.bind fun key hkey => ?_
    exact (expect_yields _).bind fun _ _ => finish_yields hc.start (by simpa using hkey) rfl
  · exact hg.newOrMember.yields
  · exact hg.newOrMember.yields
  · exact (complain_yields _ _).bind fun _ _ => privateName_yields
  · exact anyName_reads.yields

theorem atIndexSignature_yields : Yields text atIndexSignature? fun _ => True := by
  refine .ask fun _ _ _ => .ite (.pure trivial) ?_
  exact (lookAhead_yields _).bind fun _ _ => .pure trivial

theorem indexSignature_yields : Yields text (indexSignature grammar) (SoundAll text) := by
  refine (expect_yields _).bind fun _ _ => anyName_pattern.bind fun name hname => ?_
  refine (eat_yields _).bind fun _ _ => ?_
  extract_lets pattern jp
  have hpattern : SoundPattern text pattern := by
    unfold pattern
    split
    · exact ⟨.of_parts rfl hname.1.start hname.1.stop (by simp), rfl⟩
    · exact hname
  have hjp (r : Unit) : Yields text (jp r) (SoundAll text) := by
    refine hg.type.bind fun bound hbound => (expect_yields _).bind fun _ _ => ?_
    refine typeAnnotation_yields.bind fun type htype => (endElement_yields).bind fun _ _ => ?_
    have hname := (annotate_sound hpattern (soundOption_some.mpr hbound)).1
    exact .pure (by simp [hname, htype])
  refine .ite ((complain_yields _ _).bind fun _ _ => hjp ()) ?_
  exact (expect_yields _).bind fun _ _ => hjp ()

theorem accessorElement_yields : Yields text (accessorElement grammar) (Node.Sound text) := by
  refine .ask fun _ c hc => (eatWord_yields _).bind fun isGet _ => ?_
  refine .guard (expectWord_yields _) (elementKey_yields.bind fun key hkey => ?_)
  refine .ite ((expect_yields _).bind fun _ _ => (expect_yields _).bind fun _ _ => ?_)
    (signatureParameters_yields.bind fun ps hps => ?_)
  · refine typeAnnotation_yields.bind fun type htype => (endElement_yields).bind fun _ _ => ?_
    exact finish_yields hc.start (by simp [hkey, htype]) rfl
  · refine .guard (fail_yields _) ((endElement_yields).bind fun _ _ => ?_)
    exact finish_yields hc.start (by simp [hkey, hps]) rfl

theorem signatureElement_yields {offset : Nat}
    (ho : text.isBoundary offset = true) {form : ElementForm}
    (hform : (Form.element form).isLoose = true) :
    Yields text (signatureElement grammar offset form) (Node.Sound text) := by
  refine (typeParameters?_yields _).bind fun generics hgenerics => ?_
  refine signatureParameters_yields.bind fun ps hps => ?_
  refine resultType?_yields.bind fun type htype => (endElement_yields).bind fun _ _ => ?_
  exact finish_yields ho (by simp [hgenerics, hps, htype]) hform

theorem typeElement_yields : Yields text (typeElement grammar) (Node.Sound text) := by
  refine .ask fun _ c hc => ?_
  refine .ask fun _ _ _ => .ask fun _ _ _ => ?_
  refine .ite (signatureElement_yields hc.start rfl) ?_
  refine .ask fun _ _ _ => .ask fun _ _ _ => ?_
  refine .ask fun _ _ _ => .ite (advance_yields.bind fun _ _ => ?_) ?_
  · exact signatureElement_yields hc.start rfl
  refine (modifier_yields _ _).bind fun _ _ => atIndexSignature_yields.bind fun _ _ => ?_
  refine .ite (indexSignature_yields.bind fun parts hparts => ?_) ?_
  · exact finish_yields hc.start hparts rfl
  refine Yields.bind (V := SoundOption text) (.attempt ?_) fun accessor haccessor => ?_
  · refine .ite (.pure soundOption_none) (.ask fun _ _ _ => ?_)
    refine .ask fun _ _ _ => .ite ?_ (.pure soundOption_none)
    exact accessorElement_yields.bind fun _ h => .pure (soundOption_some.mpr h)
  split
  · exact .pure (soundOption_some.mp haccessor)
  refine elementKey_yields.bind fun key hkey => (eat_yields _).bind fun optional _ => ?_
  refine .ask fun _ _ _ => .ask fun _ _ _ => ?_
  refine .ite (.guard (fail_yields _) ?_) ?_
  · refine (typeParameters?_yields _).bind fun generics hgenerics => ?_
    refine signatureParameters_yields.bind fun ps hps => ?_
    refine resultType?_yields.bind fun type htype => (endElement_yields).bind fun _ _ => ?_
    exact finish_yields hc.start (by simp [hkey, hgenerics, hps, htype]) rfl
  · refine (typeAnnotation_yields.gives (typeAnnotation_isType hg.isType)).bind fun type htype => ?_
    refine (endElement_yields).bind fun _ _ => finish_fits rfl ⟨key, _, rfl, ?_⟩ hc.start
      (by simp [hkey, htype.1])
    cases type with
    | none => exact .inl rfl
    | some t => exact .inr (htype.2 t rfl)

theorem typeElement_isElement : Gives (typeElement grammar) (·.form.isElement = true) := by
  have hsignature {offset : Nat} {form : ElementForm} :
      Gives (signatureElement grammar offset form) (·.form.isElement = true) :=
    .after fun _ => .after fun _ => .after fun _ => .after fun _ => .finish fun _ => rfl
  have haccessor : Gives (accessorElement grammar) (·.form.isElement = true) := by
    refine .after fun _ => .after fun _ => .guard (.after fun _ => .ite ?_ ?_)
    · exact .after fun _ => .after fun _ => .after fun _ => .after fun _ => .finish fun _ => rfl
    · exact .after fun _ => .guard (.after fun _ => .finish fun _ => rfl)
  refine .after fun _ => .after fun _ => .after fun _ => .ite hsignature ?_
  refine .after fun _ => .after fun _ => .after fun _ => .ite (.after fun _ => hsignature) ?_
  refine .after fun _ => .after fun _ => .ite (.after fun _ => .finish fun _ => rfl) ?_
  refine .bind (V := fun found => ∀ e ∈ found, e.form.isElement = true) (.attempt ?_ nofun)
    fun found hfound => ?_
  · refine .ite (.pure nofun) (.after fun _ => .after fun _ => .ite ?_ (.pure nofun))
    exact haccessor.bind fun e he => .pure fun _ hfound => Option.some.inj hfound ▸ he
  split
  · exact .pure (hfound _ rfl)
  refine .after fun _ => .after fun _ => .after fun _ => .after fun _ => .ite (.guard ?_) ?_
  · exact .after fun _ => .after fun _ => .after fun _ => .after fun _ => .finish fun _ => rfl
  · exact .after fun _ => .after fun _ => .finish fun _ => rfl

theorem typeElementList_yields (fuel : Nat) {done : List Node}
    (hdone : SoundAll text done) :
    Yields text (typeElementList grammar fuel done) (SoundAll text) := by
  induction fuel generalizing done with
  | zero => exact exhausted_yields
  | succ fuel ih =>
    refine .ask fun _ _ _ => .ite (.pure (by simpa using hdone)) ?_
    exact typeElement_yields.bind fun e he => ih (by simp [he, hdone])

theorem typeElementList_isElement (fuel : Nat) {done : List Node}
    (hdone : ∀ e ∈ done, e.form.isElement = true) :
    Gives (typeElementList grammar fuel done) fun es => ∀ e ∈ es, e.form.isElement = true := by
  induction fuel generalizing done with
  | zero => exact .exhausted
  | succ fuel ih =>
    refine .after fun _ => .ite (.pure (by simpa using hdone)) ?_
    exact typeElement_isElement.bind fun e he => ih (List.forall_mem_cons.mpr ⟨he, hdone⟩)

theorem typeElements_yields : Yields text (typeElements grammar) (SoundAll text) := by
  refine (expect_yields _).bind fun _ _ => ?_
  refine Yields.bind (V := SoundAll text) (.within (.ask fun _ _ _ =>
    typeElementList_yields _ soundAll_nil)) fun es hes => ?_
  exact (expect_yields _).bind fun _ _ => .pure hes

theorem typeElements_isElement :
    Gives (typeElements grammar) fun es => ∀ e ∈ es, e.form.isElement = true := by
  refine .after fun _ => Gives.bind (V := fun es => ∀ e ∈ es, e.form.isElement = true) ?_
    fun es hes => .after fun _ => .pure hes
  exact .within (.after fun _ => typeElementList_isElement _ nofun)

/-! ## Mapped types, tuples and templates -/

theorem atMappedType_yields : Yields text atMappedType? fun _ => True :=
  (lookAhead_yields _).bind fun _ _ => .pure trivial

theorem mappedSign_yields {eatMark : Parser Bool} {expectMark : Parser Unit}
    (heat : Yields text eatMark fun _ => True) (hexpect : Yields text expectMark fun _ => True) :
    Yields text (mappedSign eatMark expectMark) fun _ => True := by
  refine (eat_yields _).bind fun _ _ => .ite ?_ ?_
  · exact hexpect.bind fun _ _ => .pure trivial
  refine (eat_yields _).bind fun _ _ => .ite ?_ ?_
  · exact hexpect.bind fun _ _ => .pure trivial
  exact heat.bind fun _ _ => .ite (.pure trivial) (.pure trivial)

theorem mappedType_yields : Yields text (mappedType grammar) (Node.Sound text) := by
  refine .ask fun _ c hc => (expect_yields _).bind fun _ _ => ?_
  refine (mappedSign_yields (eatWord_yields _) (expectWord_yields _)).bind fun _ _ => ?_
  refine (expect_yields _).bind fun _ _ => anyName_reads.yields.bind fun name hname => ?_
  refine (expectWord_yields _).bind fun _ _ => hg.type.within.bind fun constraint hconstraint => ?_
  refine (eatWord_yields _).bind fun _ _ => ?_
  refine .join hg.type.within.some (.pure soundOption_none) fun renamed hrenamed => ?_
  refine (expect_yields _).bind fun _ _ => ?_
  refine (mappedSign_yields (eat_yields _) (expect_yields _)).bind fun _ _ => ?_
  refine typeAnnotation_yields.within.bind fun type htype => ?_
  refine expectSemicolon_yields.bind fun _ _ => (expect_yields _).bind fun _ _ => ?_
  exact finish_yields hc.start (by simp [hname, hconstraint, hrenamed, htype]) rfl

theorem tupleLabel_yields :
    Yields text tupleLabel? fun label => ∀ parts ∈ label, SoundAll text parts := by
  refine .attempt ?_
  extract_lets mark
  have hmark (word : String) (present : Bool) : Yields text (mark word present)
    (Node.Sound text) := by
    refine .ite (.ask fun _ c hc => ?_) (.pure sound_absent)
    exact .pure (.of_parts rfl hc.previousStart hc.previousStop (by simp))
  refine (eat_yields _).bind fun _ _ => (hmark _ _).bind fun rest hrest => ?_
  refine anyName_reads.yields.bind fun name hname => (eat_yields _).bind fun _ _ => ?_
  refine (hmark _ _).bind fun optional hoptional => (expect_yields _).bind fun _ _ => .pure ?_
  simp [hrest, hname, hoptional]

theorem tupleElement_yields : Yields text (tupleElement grammar) (Node.Sound text) := by
  refine .ask fun _ c hc => tupleLabel_yields.bind fun label hlabel => ?_
  have hparts : SoundAll text (label.getD [.absent, .absent, .absent]) := by
    cases label with
    | none => simp
    | some parts => exact hlabel parts rfl
  refine (eat_yields _).bind fun _ _ => ?_
  extract_lets jp
  have hjp (inner : Node) (hinner : inner.Sound text) : Yields text (jp inner) (Node.Sound text) :=
    finish_yields hc.start (by simp [hparts, hinner]) rfl
  refine .ite (hg.type.bind fun type htype => ?_) (hg.type.bind
    fun type htype => ?_)
  · exact (finish_yields hc.start (by simpa using htype) rfl).bind hjp
  · refine (eat_yields _).bind fun _ _ => .ite ?_ (hjp _ htype)
    exact (finish_yields htype.start (by simpa using htype) rfl).bind hjp

theorem tupleElements_yields (fuel : Nat) {done : List Node}
    (hdone : SoundAll text done) :
    Yields text (tupleElements grammar fuel done) (SoundAll text) := by
  induction fuel generalizing done with
  | zero => exact exhausted_yields
  | succ fuel ih =>
    refine .ask fun _ _ _ => .ite (.pure (by simpa using hdone)) ?_
    refine tupleElement_yields.bind fun e he => (eat_yields _).bind fun _ _ => ?_
    refine .ite (ih (by simp [he, hdone])) (.ask fun _ _ _ => ?_)
    exact .ite (.pure (by simp [he, hdone])) (failExpected_yields _)

/-- The place where a piece of a template stops, and the place after it, for a piece that starts
behind the current token. -/
theorem scanQuasi_in {place : Place} (hplace : place.In text)
    (hle : c.token.start ≤ place.offset) :
    text.isBoundary (scanQuasi place).stop = true ∧ (scanQuasi place).place.In text ∧
      c.token.start ≤ (scanQuasi place).place.offset := by
  obtain ⟨stop, hstop, hreaches, hafter⟩ := quasiFrom_reaches place.rest place.offset []
  have hin := hplace.reaches hreaches
  refine ⟨?_, hin.reaches hafter, ?_⟩
  · rw [scanQuasi, ← hstop]
    exact hin.isBoundary
  · have h : place.offset ≤ stop.offset := hreaches.offset_le
    have h' := hafter.offset_le
    simp only [scanQuasi]
    omega

theorem after_in (hc : c.In text) : c.after.In text ∧ c.token.start ≤ c.after.offset :=
  ⟨hc.after, hc.stop_eq ▸ hc.start_le_stop⟩

theorem templateTypes_leads (o fuel : Nat) {place : Place}
    {done : List Node} (hc : c.In text) (hplace : place.In text)
    (hle : c.token.start ≤ place.offset) (hdone : SoundAll text done) :
    Leads text x c (templateTypes grammar o fuel place done) fun all _ => SoundAll text all := by
  induction fuel generalizing c place done with
  | zero => exact exhausted_yields.absurd hc
  | succ fuel ih =>
    obtain ⟨hstop, hin, hbehind⟩ := scanQuasi_in hplace hle
    rw [templateTypes]
    split
    · exact (Yields.throw _).stop.absurd hc
    extract_lets node
    have hall : SoundAll text (node :: done) :=
      soundAll_cons.mpr ⟨.of_parts rfl hplace.isBoundary hstop soundAll_nil, hdone⟩
    refine (resume_leads hc hin hbehind).bind fun _ d hd _ _ => ?_
    split
    · exact (failAt_yields _ _).absurd hd
    · exact .pure hd (soundAll_reverse.mpr hall)
    · refine (hg.type.within x d hd).bind fun t e he _ ht => .query rfl ?_
      refine .unless he (failExpected_yields _) (.query rfl ?_)
      obtain ⟨hafter, hbehind⟩ := after_in he
      exact ih he hafter hbehind (soundAll_cons.mpr ⟨ht, hall⟩)

/-! ## Types without operators -/

theorem typeReference_yields : Yields text (typeReference grammar) (Node.Sound text) := by
  refine .ask fun _ c hc => eatModifier_yields.bind fun modified _ => ?_
  refine entityName_yields.bind fun name hname => ?_
  refine typeArguments?_yields.bind fun arguments harguments => ?_
  exact .guard (complain_yields _ _) (finish_yields hc.start (by simp [hname, harguments]) rfl)

theorem importType_yields : Yields text (importType grammar) (Node.Sound text) := by
  refine .ask fun _ c hc => (expectWord_yields _).bind fun _ _ => ?_
  refine (expect_yields _).bind fun _ _ => .ask fun _ d hd => ?_
  extract_lets jp
  have hjp (source : Node) (hsource : source.Sound text) :
      Yields text (jp source) (Node.Sound text) := by
    refine (eat_yields _).bind fun _ _ => .ask fun _ _ _ => ?_
    refine .join hg.assignment.yields.some (.pure soundOption_none) fun options hoptions => ?_
    refine (expect_yields _).bind fun _ _ => (eat_yields _).bind fun _ _ => ?_
    refine .join entityName_yields.some (.pure soundOption_none) fun qualifier hqualifier => ?_
    refine .ask fun _ _ _ => ?_
    refine .join typeArguments_yields.some (.pure soundOption_none)
      fun arguments harguments => ?_
    exact finish_yields hc.start (by simp [hsource, hoptions, hqualifier, harguments]) rfl
  split
  · exact stringLiteral_yields.bind hjp
  · refine advance_yields.bind fun _ _ => (complain_yields _ _).bind fun _ _ => ?_
    exact hjp _ (.of_parts rfl hd.start hd.stop (by simp))

theorem typeQuery_yields : Yields text (typeQuery grammar) (Node.Sound text) := by
  refine .ask fun _ c hc => (expectWord_yields _).bind fun _ _ => ?_
  refine .ask fun _ _ _ => ?_
  refine .join importType_yields entityName_yields fun entity hentity => ?_
  refine typeArguments?_yields.bind fun arguments harguments => ?_
  exact finish_yields hc.start (by simp [hentity, harguments]) rfl

/-- A type that is one token, around a literal. -/
theorem valueType_yields (hc : c.In text) {form : ExprForm}
    (hform : (Form.expr form).isLoose = true) :
    Yields text (advance >>= fun _ => pure (Node.mk (.type .value) ⟨c.token.start, c.token.stop⟩
      [Node.mk (.expr form) ⟨c.token.start, c.token.stop⟩ []])) (Node.Sound text) :=
  advance_yields.bind fun _ _ => .pure (.of_parts rfl hc.start hc.stop
    (by simpa using .of_parts hform hc.start hc.stop soundAll_nil))

theorem primaryType_yields : Yields text (primaryType grammar) (Node.Sound text) := by
  refine .ask fun _ c hc => ?_
  have hspan {form : Form} (hform : form.isLoose = true) :
      (Node.mk form ⟨c.token.start, c.token.stop⟩ []).Sound text :=
    .of_parts hform hc.start hc.stop soundAll_nil
  extract_lets span negative
  split
  · -- a word
    split
    · refine advance_yields.bind fun _ _ => .ask fun _ _ _ => ?_
      refine .ask fun _ _ _ => .ite ?_ (.pure (hspan rfl))
      refine advance_yields.bind fun _ _ => hg.type.bind fun type htype => ?_
      exact finish_yields hc.start (by simpa using ⟨hspan rfl, htype⟩) rfl
    · exact typeQuery_yields
    · exact importType_yields
    · exact valueType_yields hc rfl
    · exact valueType_yields hc rfl
    · refine .ask fun _ _ _ => .ite ?_ typeReference_yields
      refine advance_yields.bind fun _ _ => anyName_reads.yields.bind fun subject hsubject => ?_
      refine (eatWord_yields _).bind fun _ _ => ?_
      refine .join hg.type.some (.pure soundOption_none) fun type htype => ?_
      exact finish_yields hc.start (by simp [hsubject, htype]) rfl
    · split
      · refine .ask fun _ _ _ => .ite typeReference_yields ?_
        exact advance_yields.bind fun _ _ => .pure (.of_fits rfl rfl hc.start hc.stop soundAll_nil)
      · exact .ite (failUnexpected_yields _) typeReference_yields
    · exact .ite (failUnexpected_yields _) typeReference_yields
  · exact valueType_yields hc rfl
  · exact valueType_yields hc rfl
  · exact valueType_yields hc rfl
  · refine advance_yields.bind fun _ _ => .ask fun _ d hd => ?_
    extract_lets jp
    have hjp (literal : ExprForm) (hform : (Form.expr literal).isLoose = true) :
        Yields text (jp literal) (Node.Sound text) := by
      refine advance_yields.bind fun _ _ => ?_
      have hoperand : (Node.mk (.expr literal) ⟨d.token.start, d.token.stop⟩ []).Sound text :=
        .of_parts hform hd.start hd.stop soundAll_nil
      refine (finish_yields hc.start (by simpa using hoperand) rfl).bind fun negated hnegated => ?_
      exact finish_yields hc.start (by simpa using hnegated) rfl
    split
    · exact hjp _ rfl
    · exact hjp _ rfl
    · exact .stop (failUnexpected_yields _)
  · refine atMappedType_yields.bind fun _ _ => .ite mappedType_yields ?_
    exact (typeElements_yields.gives typeElements_isElement).bind fun es hes =>
      finish_fits rfl hes.2 hc.start hes.1
  · refine advance_yields.bind fun _ _ => ?_
    refine Yields.bind (V := SoundAll text) (.within (.ask fun _ _ _ =>
      tupleElements_yields _ soundAll_nil)) fun es hes => ?_
    refine (expect_yields _).bind fun _ _ => .guard (failAt_yields _ _) ?_
    exact finish_yields hc.start hes rfl
  · refine advance_yields.bind fun _ _ => hg.type.within.bind fun inner hinner => ?_
    exact (expect_yields _).bind fun _ _ => finish_yields hc.start (by simpa using hinner) rfl
  · intro x d hd
    obtain ⟨hafter, hbehind⟩ := after_in hd
    refine .query rfl (.query rfl ?_)
    refine (templateTypes_leads _ _ hd hafter hbehind soundAll_nil).bind
      fun parts e he _ hparts => ?_
    exact finish_yields hc.start hparts rfl x e he
  · exact .throw _
  · exact failUnexpected_yields _

theorem bracketedRest_yields {o : Nat} (ho : text.isBoundary o = true)
    (fuel : Nat) {type : Node} (htype : type.Sound text) :
    Yields text (bracketedRest grammar o fuel type) (Node.Sound text) := by
  induction fuel generalizing type with
  | zero => exact exhausted_yields
  | succ fuel ih =>
    refine .ask fun _ _ _ => .ask fun _ _ _ => ?_
    refine .ite ?_ (.pure htype)
    refine advance_yields.bind fun _ _ => (eat_yields _).bind fun _ _ => .ite ?_ ?_
    · exact (finish_yields ho (by simpa using htype) rfl).bind fun _ => ih
    · refine hg.type.within.bind fun index hindex => (expect_yields _).bind fun _ _ => ?_
      exact (finish_yields ho (by simp [htype, hindex]) rfl).bind fun _ => ih

theorem bracketedType_yields : Yields text (bracketedType grammar) (Node.Sound text) :=
  .ask fun _ _ hc => primaryType_yields.bind fun _ hinner =>
    .ask fun _ _ _ => bracketedRest_yields hc.start _ hinner

theorem inferType_yields : Yields text (inferType grammar) (Node.Sound text) := by
  refine .ask fun _ c hc => (expectWord_yields _).bind fun _ _ => ?_
  refine .ask fun _ d hd => anyName_reads.yields.bind fun name hname => ?_
  refine Yields.bind (V := SoundOption text) (.attempt ?_) fun bound hbound => ?_
  · refine (eatWord_yields _).bind fun _ _ => .ite (.pure soundOption_none) ?_
    refine hg.type.within.bind fun bound hbound => ?_
    refine .ask fun _ _ _ => .ask fun _ _ _ => ?_
    exact .ite (.pure (soundOption_some.mpr hbound)) (.pure soundOption_none)
  · refine (finish_yields hd.start (by simp [hbound]) rfl).bind fun parameter hparameter => ?_
    exact finish_yields hc.start (by simpa using hparameter) rfl

theorem operatorType_yields (fuel : Nat) :
    Yields text (operatorType grammar fuel) (Node.Sound text) := by
  induction fuel with
  | zero => exact exhausted_yields
  | succ fuel ih =>
    refine .ask fun _ c hc => ?_
    extract_lets operator
    have hoperator (word : String) : Yields text (operator word) (Node.Sound text) :=
      advance_yields.bind fun _ _ => ih.bind fun operand hoperand =>
        finish_yields hc.start (by simpa using hoperand) rfl
    refine .ask fun _ _ _ => ?_
    split
    · exact hoperator _
    · exact hoperator _
    · exact hoperator _
    · exact inferType_yields
    · exact bracketedType_yields

section Joined

variable {sign : Punct} {item : Parser Node}

theorem joinedRest_yields (hitem : Yields text item (Node.Sound text)) (fuel : Nat)
    {done : List Node} (hdone : SoundAll text done) :
    Yields text (joinedRest sign item fuel done) (SoundAll text) := by
  induction fuel generalizing done with
  | zero => exact exhausted_yields
  | succ fuel ih =>
    refine (eat_yields _).bind fun _ _ => .ite ?_ (.pure (by simpa using hdone))
    exact hitem.bind fun t ht => ih (by simp [ht, hdone])

theorem joinedType_yields {form : TypeForm} (hform : (Form.type form).isLoose = true)
    (hitem : Yields text item (Node.Sound text)) :
    Yields text (joinedType sign form item) (Node.Sound text) := by
  refine .ask fun _ c hc => (eat_yields _).discard.bind fun _ _ => ?_
  refine hitem.bind fun first hfirst => .ask fun _ _ _ => ?_
  refine .ite ?_ (.pure hfirst)
  refine .ask fun _ _ _ => ?_
  refine (joinedRest_yields hitem _ (by simpa using hfirst)).bind fun types htypes => ?_
  exact finish_yields hc.start htypes hform

end Joined

theorem unionType_yields : Yields text (unionType grammar) (Node.Sound text) :=
  .ask fun _ _ _ =>
    joinedType_yields rfl (joinedType_yields rfl (operatorType_yields _))

omit hg in
theorem atFunctionType_yields : Yields text (atFunctionType? grammar) fun _ => True := by
  refine .ask fun _ _ _ => .ite (.pure trivial) (.ask fun _ _ _ => .ite (.pure trivial) ?_)
  exact (lookAhead_yields _).bind fun _ _ => .pure trivial

theorem arrowType_yields {o : Nat} (ho : text.isBoundary o = true)
    {form : TypeForm} (hform : (Form.type form).isLoose = true) :
    Yields text (arrowType grammar o form) (Node.Sound text) := by
  refine (typeParameters?_yields _).bind fun generics hgenerics => ?_
  refine signatureParameters_yields.bind fun ps hps => ?_
  refine (resultType_yields _).bind fun result hresult => ?_
  exact finish_yields ho (by simp [hgenerics, hps, hresult]) hform

theorem plainType_yields : Yields text (plainType grammar) (Node.Sound text) := by
  refine .ask fun _ c hc => atFunctionType_yields.bind fun _ _ => ?_
  refine .ite (arrowType_yields hc.start rfl) ?_
  refine .ask fun _ _ _ => .ite ?_ ?_
  · exact advance_yields.bind fun _ _ => arrowType_yields hc.start rfl
  refine .ask fun _ _ _ => .ask fun _ _ _ => ?_
  refine .ite ?_ unionType_yields
  exact advance_yields.bind fun _ _ => advance_yields.bind fun _ _ =>
    arrowType_yields hc.start rfl

theorem typeExpr_yields : Yields text (typeExpr grammar) (Node.Sound text) := by
  refine .ask fun _ c hc => plainType_yields.bind fun checked hchecked => ?_
  refine .ask fun _ _ _ => .ask fun _ _ _ => ?_
  refine .ask fun _ _ _ => .ite (.pure hchecked) ?_
  refine advance_yields.bind fun _ _ => plainType_yields.within.bind fun bound hbound => ?_
  refine (expect_yields _).bind fun _ _ => hg.type.within.bind fun yes hyes => ?_
  refine (expect_yields _).bind fun _ _ => hg.type.within.bind fun no hno => ?_
  exact finish_yields hc.start (by simp [hchecked, hbound, hyes, hno]) rfl

/-! ## Where a type is read, a type is found -/

theorem typeReference_isType : Gives (typeReference grammar) (·.form.isType = true) :=
  .after fun _ => .after fun _ => .after fun _ => .after fun _ => .guard (.finish fun _ => rfl)

theorem importType_isType : Gives (importType grammar) (·.form.isType = true) := by
  refine .after fun _ => .after fun _ => .after fun _ => .after fun _ => ?_
  extract_lets jp
  have hjp (source : Node) : Gives (jp source) (·.form.isType = true) := by
    refine .after fun _ => .after fun _ => .join fun _ => .after fun _ => .after fun _ => ?_
    exact .join fun _ => .after fun _ => .join fun _ => .finish fun _ => rfl
  split
  · exact .after hjp
  · exact .after fun _ => .after fun _ => hjp _

theorem typeQuery_isType : Gives (typeQuery grammar) (·.form.isType = true) :=
  .after fun _ => .after fun _ => .after fun _ => .join fun _ => .after fun _ =>
    .finish fun _ => rfl

theorem mappedType_isType : Gives (mappedType grammar) (·.form.isType = true) := by
  refine .after fun _ => .after fun _ => .after fun _ => .after fun _ => .after fun _ => ?_
  refine .after fun _ => .after fun _ => .after fun _ => .join fun _ => .after fun _ => ?_
  exact .after fun _ => .after fun _ => .after fun _ => .after fun _ => .finish fun _ => rfl

theorem primaryType_isType : Gives (primaryType grammar) (·.form.isType = true) := by
  refine .after fun t => ?_
  extract_lets span negative
  split
  · -- a word
    split
    · exact .after fun _ => .after fun _ => .after fun _ =>
        .ite (.after fun _ => .after fun _ => .finish fun _ => rfl) (.pure rfl)
    · exact typeQuery_isType
    · exact importType_isType
    · exact .after fun _ => .pure rfl
    · exact .after fun _ => .pure rfl
    · refine .after fun _ => .ite (.after fun _ => .after fun _ => .after fun _ => ?_)
        typeReference_isType
      exact .join fun _ => .finish fun _ => rfl
    · split
      · exact .after fun _ => .ite typeReference_isType (.after fun _ => .pure rfl)
      · exact .ite .failUnexpected typeReference_isType
    · exact .ite .failUnexpected typeReference_isType
  · exact .after fun _ => .pure rfl
  · exact .after fun _ => .pure rfl
  · exact .after fun _ => .pure rfl
  · refine .after fun _ => .after fun n => ?_
    extract_lets jp
    have hjp (literal : ExprForm) : Gives (jp literal) (·.form.isType = true) :=
      .after fun _ => .after fun _ => .finish fun _ => rfl
    split
    · exact hjp _
    · exact hjp _
    · exact .after hjp
  · exact .after fun _ => .ite mappedType_isType (.after fun _ => .finish fun _ => rfl)
  · exact .after fun _ => .after fun _ => .after fun _ => .guard (.finish fun _ => rfl)
  · exact .after fun _ => .after fun _ => .after fun _ => .finish fun _ => rfl
  · exact .after fun _ => .after fun _ => .after fun _ => .finish fun _ => rfl
  · exact .throw
  · exact .failUnexpected

theorem bracketedRest_isType {o : Nat} (fuel : Nat) {type : Node}
    (htype : type.form.isType = true) :
    Gives (bracketedRest grammar o fuel type) (·.form.isType = true) := by
  induction fuel generalizing type with
  | zero => exact .exhausted
  | succ fuel ih =>
    have hnext {form : TypeForm} {parts : List Node} :
        Gives (finish o (.type form) parts >>= bracketedRest grammar o fuel)
          (·.form.isType = true) :=
      .bind (V := (·.form.isType = true)) (.finish fun _ => rfl) fun _ => ih
    refine .after fun _ => .after fun _ => .ite (.after fun _ => .after fun _ => ?_) (.pure htype)
    exact .ite hnext (.after fun _ => .after fun _ => hnext)

theorem operatorType_isType (fuel : Nat) :
    Gives (operatorType grammar fuel) (·.form.isType = true) := by
  induction fuel with
  | zero => exact .exhausted
  | succ fuel ih =>
    refine .after fun offset => ?_
    extract_lets operator
    have hoperator (word : String) : Gives (operator word) (·.form.isType = true) :=
      .after fun _ => .after fun _ => .finish fun _ => rfl
    refine .after fun _ => ?_
    split
    · exact hoperator _
    · exact hoperator _
    · exact hoperator _
    · exact .after fun _ => .after fun _ => .after fun _ => .after fun _ => .after fun _ =>
        .after fun _ => .finish fun _ => rfl
    · exact .after fun _ => primaryType_isType.bind fun _ hinner => .after fun _ =>
        bracketedRest_isType _ hinner

theorem joinedType_isType {sign : Punct} {form : TypeForm} {item : Parser Node}
    (hitem : Gives item (·.form.isType = true)) :
    Gives (joinedType sign form item) (·.form.isType = true) := by
  refine .after fun _ => .after fun _ => hitem.bind fun first hfirst => .after fun _ => ?_
  exact .ite (.after fun _ => .after fun _ => .finish fun _ => rfl) (.pure hfirst)

theorem plainType_isType : Gives (plainType grammar) (·.form.isType = true) := by
  have harrow {offset : Nat} {form : TypeForm} :
      Gives (arrowType grammar offset form) (·.form.isType = true) :=
    .after fun _ => .after fun _ => .after fun _ => .finish fun _ => rfl
  have hunion : Gives (unionType grammar) (·.form.isType = true) :=
    .after fun _ => joinedType_isType (joinedType_isType (operatorType_isType _))
  refine .after fun _ => .after fun _ => .ite harrow (.after fun _ => .ite ?_ ?_)
  · exact .after fun _ => harrow
  · exact .after fun _ => .after fun _ => .ite (.after fun _ => .after fun _ => harrow) hunion

theorem typeExpr_isType : Gives (typeExpr grammar) (·.form.isType = true) := by
  refine .after fun _ => plainType_isType.bind fun checked hchecked => ?_
  refine .after fun _ => .after fun _ => .after fun _ => .ite (.pure hchecked) ?_
  exact .after fun _ => .after fun _ => .after fun _ => .after fun _ => .after fun _ =>
    .after fun _ => .finish fun _ => rfl

end Retouch.Syntax.Parser
