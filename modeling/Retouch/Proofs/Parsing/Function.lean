import Retouch.Proofs.Parsing.Type
import Retouch.Syntax.Parser.Function

/-!
# Functions and classes keep to the text

- `block_yields`, `functionTail_yields`: a body, and a function around it.
- `MemberHead.Sound`: what stands before the key of a class member keeps to the text.
- `classMember_yields`, `classTail_yields`: one member, and a class around its members.
-/

namespace Retouch.Syntax.Parser

variable {text : Text} {grammar : Grammar} [hg : grammar.Sound text] {o : Nat}

theorem statementsToBrace_yields (fuel : Nat) {done : List Node}
    (hdone : SoundAll text done) :
    Yields text (statementsToBrace grammar fuel done) (SoundAll text) := by
  induction fuel generalizing done with
  | zero => exact exhausted_yields
  | succ fuel ih =>
    have hend : SoundAll text done.reverse := soundAll_reverse.mpr hdone
    refine (eat_yields _).bind fun _ _ => .ite (.pure hend) ?_
    refine .ask fun _ _ _ => .ite ?_ ?_
    · exact tokenOffset_yields.bind fun _ _ => (complain_yields _ _).bind fun _ _ => .pure hend
    · exact (hg.statement true).bind fun s hs => ih (by simp [hs, hdone])

theorem block_yields {form : Form} (hform : form.isLoose = true) :
    Yields text (block grammar form) (Node.Sound text) := by
  refine .ask fun _ c hc => (expect_yields _).bind fun _ _ => ?_
  refine .ask fun _ _ _ => ?_
  exact (statementsToBrace_yields _ soundAll_nil).bind fun _ hstatements =>
    finish_yields hc.start hstatements hform

theorem checkDirective_yields (simple : Bool) (body : Node) :
    Yields text (checkDirective simple body) fun _ => True := by
  refine .ite ?_ (.pure trivial)
  split
  · exact complain_yields _ _
  · exact .pure trivial

theorem functionBody?_yields (isAsync isGenerator simple : Bool) :
    Yields text (functionBody? grammar isAsync isGenerator simple) (SoundOption text) := by
  refine .ask fun _ _ _ => .ask fun _ _ _ => ?_
  extract_lets inside jp
  have hjp : Yields text (jp ()) (SoundOption text) := by
    refine .ask fun _ _ _ => eatSemicolon_yields.bind fun _ _ => ?_
    refine .ite (.pure soundOption_none) ?_
    refine (block_yields rfl).within.bind fun body hbody => ?_
    exact (checkDirective_yields _ _).bind fun _ _ => .pure (soundOption_some.mpr hbody)
  refine .ite ?_ hjp
  exact .ask fun _ _ _ => (complain_yields _ _).bind fun _ _ => hjp

theorem noteDeclaredDefaults_yields (ps : List Node) :
    Yields text (noteDeclaredDefaults ps) fun _ => True := by
  induction ps with
  | nil => exact .pure trivial
  | cons p rest ih =>
    rw [noteDeclaredDefaults]
    split
    · exact (complain_yields _ _).bind fun _ _ => ih
    · exact ih

theorem functionTail_yields (ho : text.isBoundary o = true)
    {decorated : List Node} (hdecorated : SoundAll text decorated) (isAsync isGenerator : Bool)
    {check : List Node → Parser Unit} (hcheck : ∀ ps, Yields text (check ps) fun _ => True) :
    Yields text (functionTail grammar o decorated isAsync isGenerator check) (Node.Sound text) := by
  unfold functionTail
  extract_lets outside inside
  refine .within ((typeParameters?_yields _).within.bind fun generics hgenerics => ?_)
  refine (parameters_yields false).within.bind fun ps hps => (hcheck ps).bind fun _ _ => ?_
  refine resultType?_yields.bind fun result hresult => ?_
  refine (functionBody?_yields _ _ _).bind fun body hbody => ?_
  refine .guard (noteDeclaredDefaults_yields _) ?_
  exact finish_yields ho (by simp [hdecorated, hgenerics, hps, hresult, hbody]) rfl

theorem nothing_yields (ps : List Node) :
    Yields text ((fun _ => pure () : List Node → Parser Unit) ps) fun _ => True :=
  .pure trivial

/-- A name with a construct behind it. -/
def SoundPair (text : Text) (pair : Node × Node) : Prop :=
  pair.1.Sound text ∧ pair.2.Sound text

theorem namedFunction_yields (ho : text.isBoundary o = true)
    (isAsync isExpression nameRequired : Bool) :
    Yields text (namedFunction grammar o isAsync isExpression nameRequired) (SoundPair text) := by
  refine (eat_yields _).bind fun _ _ => ?_
  refine Yields.bind (V := Node.Sound text) (.within ?_) fun name hname => ?_
  · refine .ask fun _ _ _ => .ask fun _ _ _ => ?_
    exact .ite (declaredName_yields _) (.pure sound_absent)
  · refine (functionTail_yields ho soundAll_nil _ _ nothing_yields).within.bind fun f hf => ?_
    exact .pure ⟨hname, hf⟩

/-! ## Class members -/

theorem atProperty_yields (lineBreakEnds : Bool) :
    Yields text (atProperty? lineBreakEnds) fun _ => True := by
  refine .ask fun _ c _ => ?_
  split
  all_goals exact .pure trivial

theorem checkPrivateAccess_yields (head : MemberHead) (key : Node) :
    Yields text (checkPrivateAccess head key) fun _ => True :=
  .ite (complain_yields _ _) (.pure trivial)

/-- What stands before the key of a member keeps to the text. -/
structure MemberHead.Sound (text : Text) (head : MemberHead) : Prop where
  offset : text.isBoundary head.offset = true
  decorated : SoundAll text head.decorated
  /-- the word can turn out to be the key -/
  fixed : ∀ span ∈ head.fixed,
    text.isBoundary span.start = true ∧ text.isBoundary span.stop = true

variable {head : MemberHead} {key : Node}

theorem methodTail_yields (hhead : head.Sound text)
    (hkey : key.Sound text) {kind : String} (optional isAsync isGenerator : Bool)
    {check : List Node → Parser Unit} (hcheck : ∀ ps, Yields text (check ps) fun _ => True) :
    Yields text (methodTail grammar head kind key optional isAsync isGenerator check)
      (Node.Sound text) := by
  refine (functionTail_yields hhead.offset hhead.decorated _ _ hcheck).bind fun f hf => ?_
  refine (checkPrivateAccess_yields _ _).bind fun _ _ => .guard (complain_yields _ _) ?_
  exact finish_yields hhead.offset (by simp [hkey, hf]) rfl

theorem propertyTail_yields (hhead : head.Sound text)
    (hkey : key.Sound text) (optional : Bool) :
    Yields text (propertyTail grammar head key optional) (Node.Sound text) := by
  unfold propertyTail
  refine .guard (failAt_yields _ _) ?_
  extract_lets rest jp
  have hjp : Yields text (jp ()) (Node.Sound text) := by
    refine .join (.pure trivial) (eat_yields _) fun definite _ => ?_
    refine typeAnnotation_yields.bind fun type htype => (eat_yields _).bind fun _ _ => ?_
    refine .join hg.assignment.yields.within.some (.pure soundOption_none) fun value hvalue => ?_
    refine eatSemicolon_yields.bind fun _ _ => ?_
    extract_lets words form finished checked
    have hfinished : Yields text (finished ()) (Node.Sound text) :=
      finish_yields hhead.offset (by simp [hkey, htype, hvalue, hhead.decorated]) rfl
    have hchecked : Yields text (checked ()) (Node.Sound text) := by
      refine .ite ?_ hfinished
      exact (checkPrivateAccess_yields _ _).bind fun _ _ => .guard (complain_yields _ _) hfinished
    exact .guardWith tokenOffset_yields (fun _ => complain_yields _ _) hchecked
  refine .ite ?_ hjp
  exact .guard (complain_yields _ _) (.guard (complain_yields _ _) hjp)

theorem refusedTypeParameters_yields :
    Yields text (refusedTypeParameters grammar) fun _ => True := by
  refine .ask fun _ _ _ => .ite (.pure trivial) ?_
  refine .ask fun _ _ _ => .ite ?_ ?_
  · refine advance_yields.bind fun _ _ => .ask fun _ _ _ => ?_
    exact (complain_yields _ _).bind fun _ _ => advance_yields
  · refine (typeParameters_yields _).bind fun generics _ => ?_
    exact (Remarks.forIn _ fun _ => complain_remarks _ _).yields.bind fun _ _ => .pure trivial

theorem constructorTail_yields (hhead : head.Sound text)
    (hkey : key.Sound text) :
    Yields text (constructorTail grammar head key) (Node.Sound text) := by
  unfold constructorTail
  refine .guard (complain_yields _ _) (.within ?_)
  refine refusedTypeParameters_yields.bind fun _ _ => ?_
  refine (parameters_yields true).bind fun ps hps => (eat_yields _).bind fun _ _ => ?_
  refine .guardWith hg.type (fun _ => complain_yields _ _) ?_
  refine (functionBody?_yields _ _ _).bind fun body hbody => ?_
  extract_lets finished abstractNoted defaultsNoted
  have hfinished : Yields text (finished ()) (Node.Sound text) :=
    finish_yields hhead.offset (by simp [hkey, hps, hbody]) rfl
  have habstract : Yields text (abstractNoted ()) (Node.Sound text) := by
    refine .ite ?_ hfinished
    split
    · exact (complain_yields _ _).bind fun _ _ => hfinished
    · exact hfinished
  have hdefaults : Yields text (defaultsNoted ()) (Node.Sound text) := by
    dsimp only [defaultsNoted]
    split
    · exact (complain_yields _ _).bind fun _ _ => habstract
    · exact habstract
  refine .ite ?_ hdefaults
  refine (Yields.forIn fun p _ => ?_).bind fun _ _ => (noteDeclaredDefaults_yields _).bind
    fun _ _ => hdefaults
  split
  · exact (complain_yields _ _).bind fun _ _ => .pure trivial
  · exact .pure trivial

theorem staticBlock_yields (ho : text.isBoundary o = true) :
    Yields text (staticBlock grammar o) (Node.Sound text) :=
  (block_yields rfl).within.bind fun _ hbody => finish_yields ho (by simpa using hbody) rfl

theorem checkAccessor_yields (isGet : Bool) (offset : Nat) (ps : List Node) :
    Yields text (checkAccessor isGet offset ps) fun _ => True := by
  unfold checkAccessor
  refine .ite (.ite (complain_yields _ _) (.pure trivial)) ?_
  refine .guard (complain_yields _ _) ?_
  split
  · exact .ite (complain_yields _ _) (.pure trivial)
  · exact .pure trivial

theorem asyncMember_yields (hhead : head.Sound text) (optional : Bool) :
    Yields text (asyncMember grammar head optional) (Node.Sound text) := by
  refine (modifier_yields _ _).bind fun _ _ => ?_
  extract_lets jp
  have hjp (head : MemberHead) (hhead : head.Sound text) :
      Yields text (jp head) (Node.Sound text) := by
    refine (eat_yields _).bind fun _ _ => memberKey_yields.bind fun key hkey => ?_
    refine .guard (failAt_yields _ _) (.guard (failAt_yields _ _) ?_)
    refine Yields.bind (V := fun _ => True) ((eat_yields _).bind fun _ _ => .pure trivial)
      fun _ _ => ?_
    exact methodTail_yields hhead hkey _ _ _ nothing_yields
  refine .ite ?_ (hjp head hhead)
  refine .ask fun _ _ _ => (complain_yields _ _).bind fun _ _ => ?_
  exact hjp _ { hhead with }

theorem accessorMember_yields (hhead : head.Sound text)
    (word : Node) (optional : Bool) :
    Yields text (accessorMember grammar head word optional) (Node.Sound text) := by
  refine memberKey_yields.bind fun key hkey => ?_
  refine .guard (complain_yields _ _) (.guard (complain_yields _ _) ?_)
  exact methodTail_yields hhead hkey _ _ _ (checkAccessor_yields _ _)

theorem generatorMember_yields (hhead : head.Sound text) :
    Yields text (generatorMember grammar head) (Node.Sound text) := by
  refine memberKey_yields.bind fun key hkey => ?_
  refine .guard (complain_yields _ _) (.guard (complain_yields _ _) ?_)
  exact methodTail_yields hhead hkey _ _ _ nothing_yields

theorem memberFromKey_yields (hhead : head.Sound text) :
    Yields text (memberFromKey grammar head) (Node.Sound text) := by
  unfold memberFromKey
  extract_lets jp
  have hjp (key : Node) (hkey : key.Sound text) : Yields text (jp key) (Node.Sound text) := by
    refine (eat_yields _).bind fun _ _ => .ask fun _ _ _ => .ite ?_ ?_
    · extract_lets method checked
      have hmethod : Yields text (method ()) (Node.Sound text) :=
        .ite (constructorTail_yields hhead hkey)
          (methodTail_yields hhead hkey _ _ _ nothing_yields)
      have hchecked : Yields text (checked ()) (Node.Sound text) :=
        .guard (failAt_yields _ _) hmethod
      split
      · exact (complain_yields _ _).bind fun _ _ => hchecked
      · exact hchecked
    · refine .ask fun _ _ _ => (atProperty_yields _).bind fun _ _ => ?_
      refine (atProperty_yields _).bind fun _ _ => ?_
      refine .ite (propertyTail_yields hhead hkey _) ?_
      refine .ite (asyncMember_yields hhead _) ?_
      refine .ite (accessorMember_yields hhead _ _) (failUnexpected_yields _)
  split
  · next span hspan =>
    refine .ask fun _ _ _ => .ask fun _ _ _ => ?_
    obtain ⟨hstart, hstop⟩ := hhead.fixed span hspan
    exact .join (.pure (.of_parts rfl hstart hstop soundAll_nil)) memberKey_yields hjp
  · exact memberKey_yields.bind hjp

theorem MemberHead.Sound.add (hhead : head.Sound text) {span : Span}
    (hspan : text.isBoundary span.start = true ∧ text.isBoundary span.stop = true)
    (word : Keyword) : (head.add span word).Sound text := by
  unfold MemberHead.add
  split
  · exact { hhead with }
  · exact { hhead with }
  · refine { hhead with fixed := ?_ }
    cases hfixed : head.fixed with
    | none => simpa [hfixed] using hspan
    | some first => simpa [hfixed] using hhead.fixed first hfixed
  · exact { hhead with }
  · exact { hhead with }

theorem memberModifiers_yields (fuel : Nat) (hhead : head.Sound text) :
    Yields text (memberModifiers fuel head) (MemberHead.Sound text) := by
  induction fuel generalizing head with
  | zero => exact exhausted_yields
  | succ fuel ih =>
    refine (modifier_yields _ _).bind fun found _ => ?_
    split
    · exact .pure hhead
    · next word =>
      refine .ask fun _ c hc => .ask fun _ _ _ => ?_
      have hadded := ih (hhead.add ⟨hc.previousStart, hc.previousStop⟩ word)
      split
      · exact (complain_yields _ _).bind fun _ _ => hadded
      · exact hadded

theorem memberNamedBy?_yields (hhead : head.Sound text) (name : String)
    (lineBreakEnds : Bool) :
    Yields text (memberNamedBy? grammar head name lineBreakEnds) (SoundOption text) := by
  refine .ask fun _ c hc => ?_
  have hkey : (Node.mk (.name name) c.previous []).Sound text :=
    .of_parts rfl hc.previousStart hc.previousStop soundAll_nil
  refine .ask fun _ _ _ => .ite ?_ ?_
  · exact (methodTail_yields hhead hkey _ _ _ nothing_yields).some
  refine (atProperty_yields _).bind fun _ _ => .ask fun _ _ _ => ?_
  refine .ite ?_ (.pure soundOption_none)
  exact (eat_yields _).bind fun _ _ => (propertyTail_yields hhead hkey _).some

theorem accessModifier?_yields : Yields text accessModifier? fun _ => True := by
  refine (modifier_yields _ _).bind fun found _ => ?_
  have hdenied : Yields text (do
      let word := (← get).previous
      let written := if word.stop == word.start + 2 then "in" else "out"
      complain word.start
        ("'" ++ written
          ++ "' modifier can only appear on a type parameter of a class, interface or "
          ++ "type alias")
      return none) fun _ : Option Keyword => True :=
    .ask fun _ _ _ => (complain_yields _ _).bind fun _ _ => .pure trivial
  split
  · exact hdenied
  · exact hdenied
  · exact .pure trivial

theorem modifiedMember_yields (hhead : head.Sound text) :
    Yields text (modifiedMember grammar head) (Node.Sound text) := by
  refine .ask fun _ _ _ => ?_
  refine (memberModifiers_yields _ hhead).bind fun head hhead => ?_
  refine (eatWord_yields _).bind fun _ _ => ?_
  refine .join (.pure { hhead with }) (.pure hhead) fun head hhead => ?_
  refine .ask fun _ _ _ => .ite ?_ ?_
  · extract_lets finished checked
    have hchecked : Yields text (checked ()) (Node.Sound text) :=
      .guardWith (.look fun _ _ => rfl) (fun _ => complain_yields _ _)
        (staticBlock_yields hhead.offset)
    split
    · exact (complain_yields _ _).bind fun _ _ => hchecked
    · exact hchecked
  refine .ask fun _ _ _ => .ask fun _ _ _ => ?_
  refine .ite ?_ ?_
  · refine (Remarks.forIn _ fun _ => complain_remarks _ _).yields.bind fun _ _ => ?_
    exact advance_yields.bind fun _ _ => staticBlock_yields hhead.offset
  refine .join (.pure trivial) atIndexSignature_yields fun _ _ => .ite ?_ ?_
  · exact indexSignature_yields.bind fun _ hparts => finish_yields hhead.offset hparts rfl
  refine (eat_yields _).bind fun _ _ => ?_
  exact .ite (generatorMember_yields hhead) (memberFromKey_yields hhead)

/-- A construct that is read at once, or else by the rest of its rule. -/
theorem orElse_yields {p : Parser (Option Node)} {f : Option Node → Parser Node}
    (h : Yields text p (SoundOption text)) (hsome : ∀ m, f (some m) = pure m)
    (hnone : Yields text (f none) (Node.Sound text)) :
    Yields text (p >>= f) (Node.Sound text) := by
  refine h.bind fun found hfound => ?_
  cases found with
  | some m =>
    rw [hsome]
    exact .pure (by simpa using hfound)
  | none => exact hnone

theorem placedMember_yields (hhead : head.Sound text) :
    Yields text (placedMember grammar head) (Node.Sound text) := by
  unfold placedMember
  extract_lets plain
  have hplain : plain.Sound text := { hhead with }
  refine (eatWord_yields _).bind fun _ _ => .ite ?_ ?_
  · refine .ask fun _ c _ => ?_
    refine orElse_yields (memberNamedBy?_yields hplain _ _) (fun _ => rfl) ?_
    have hstatic : MemberHead.Sound text
        { head with leadingStatic := some c.previous, isStatic := true } := { hhead with }
    refine (eatWord_yields _).bind fun _ _ => .ite ?_ ?_
    · exact orElse_yields (memberNamedBy?_yields hstatic _ _) (fun _ => rfl)
        (modifiedMember_yields { hstatic with })
    · exact modifiedMember_yields hstatic
  · refine (eatWord_yields _).bind fun _ _ => .ite ?_ ?_
    · exact orElse_yields (memberNamedBy?_yields hhead _ _) (fun _ => rfl)
        (modifiedMember_yields { hhead with })
    · exact modifiedMember_yields hhead

theorem classMember_yields : Yields text (classMember grammar) (Node.Sound text) := by
  refine .ask fun _ c hc => decorators_yields.bind
    fun decorated hdecorated => ?_
  refine (eatWord_yields _).bind fun _ _ => .ask fun _ _ _ => ?_
  refine accessModifier?_yields.bind fun access _ => ?_
  extract_lets head jp
  have hhead : head.Sound text := ⟨hc.start, hdecorated, nofun⟩
  have hjp (after : Bool) : Yields text (jp after) (Node.Sound text) := by
    refine .ite ?_ (placedMember_yields hhead)
    exact orElse_yields (memberNamedBy?_yields hhead _ _) (fun _ => rfl)
      (.ask fun _ _ _ => placedMember_yields { hhead with })
  exact .join (.pure trivial) (eatWord_yields _) fun after _ => hjp after

/-! ## Classes -/

theorem classMembers_yields (isAbstract : Bool) (fuel : Nat)
    (hasConstructor : Bool) {done : List Node} (hdone : SoundAll text done) :
    Yields text (classMembers grammar isAbstract fuel hasConstructor done) (SoundAll text) := by
  induction fuel generalizing hasConstructor done with
  | zero => exact exhausted_yields
  | succ fuel ih =>
    refine (eat_yields _).bind fun _ _ => .ite (.pure (soundAll_reverse.mpr hdone)) ?_
    refine .ask fun _ c hc => (eat_yields _).bind fun _ _ => ?_
    refine .ite ?_ ?_
    · exact (finish_yields hc.start soundAll_nil rfl).bind fun empty hempty =>
        ih _ (by simp [hempty, hdone])
    · refine classMember_yields.bind fun m hm => .guard (complain_yields _ _) ?_
      refine .ask fun _ _ _ => .guard (complain_yields _ _) ?_
      exact ih _ (by simp [hm, hdone])

theorem heritage_yields (fuel : Nat) {done : List Node}
    (hdone : SoundAll text done) : Yields text (heritage grammar fuel done) (SoundAll text) := by
  induction fuel generalizing done with
  | zero => exact exhausted_yields
  | succ fuel ih =>
    refine .ask fun _ _ _ => ?_
    refine .ite (.pure (soundAll_reverse.mpr hdone)) ?_
    refine hg.heritage.bind fun item hitem => (eat_yields _).bind fun _ _ => ?_
    refine .ite (ih (by simp [hitem, hdone])) (.ask fun _ _ _ => ?_)
    exact .ite (.pure (by simp [hitem, hdone])) (failExpected_yields _)

theorem parentClass_yields : Yields text (parentClass grammar) (SoundPair text) := by
  refine hg.leftHand.yields.bind fun parent hparent => ?_
  split
  · have hparts := hparent.parts
    exact .pure (by simpa [Node.parts, SoundPair] using hparts)
  · refine .ask fun _ _ _ => ?_
    refine .join typeArguments_yields.some (.pure soundOption_none)
      fun arguments harguments => ?_
    exact .pure ⟨hparent, sound_ofOption.mpr harguments⟩

/-- What a class extends and implements keeps to the text. -/
def ClassHeritage.Sound (text : Text) (h : ClassHeritage) : Prop :=
  h.parent.Sound text ∧ h.arguments.Sound text ∧ SoundAll text h.implemented

theorem classHeritage_yields : Yields text (classHeritage grammar) (ClassHeritage.Sound text) := by
  have hlist (fuel : Nat) : Yields text (heritage grammar fuel []) (SoundAll text) :=
    heritage_yields fuel soundAll_nil
  refine (eatWord_yields _).bind fun _ _ => ?_
  extract_lets jp
  have hjp (pair : Node × Node) (hpair : SoundPair text pair) :
      Yields text (jp pair) (ClassHeritage.Sound text) := by
    obtain ⟨parent, arguments⟩ := pair
    have hend (implemented : List Node) (himplemented : SoundAll text implemented) :
        Yields text (pure (ClassHeritage.mk parent arguments implemented))
          (ClassHeritage.Sound text) :=
      .pure ⟨hpair.1, hpair.2, himplemented⟩
    refine (eatWord_yields _).bind fun _ _ => ?_
    extract_lets checked implementing
    have hchecked (implemented : List Node) (himplemented : SoundAll text implemented) :
        Yields text (checked implemented) (ClassHeritage.Sound text) := by
      refine (eatWord_yields _).bind fun _ _ => ?_
      extract_lets ended last
      have hlast : Yields text (last ()) (ClassHeritage.Sound text) := by
        refine (eatWord_yields _).bind fun _ _ => .ite ?_ (hend _ himplemented)
        refine .ask fun _ _ _ => (complain_yields _ _).bind fun _ _ => ?_
        exact parentClass_yields.discard.bind fun _ _ => hend _ himplemented
      refine .ite ?_ hlast
      refine .ask fun _ _ _ => (complain_yields _ _).bind fun _ _ => ?_
      exact .ask fun _ _ _ => (hlist _).discard.bind fun _ _ => hlast
    have himplementing : Yields text (implementing ()) (ClassHeritage.Sound text) := by
      refine (eatWord_yields _).bind fun _ _ => .ite ?_ ?_
      · exact .ask fun _ _ _ => (hlist _).bind hchecked
      · exact (Yields.pure soundAll_nil).bind hchecked
    refine .ite ?_ himplementing
    refine .ask fun _ _ _ => (complain_yields _ _).bind fun _ _ => ?_
    exact parentClass_yields.discard.bind fun _ _ => himplementing
  refine .ite ?_ ((Yields.pure ⟨sound_absent, sound_absent⟩).bind hjp)
  refine parentClass_yields.bind fun found hfound => (eat_yields _).bind fun _ _ => ?_
  have hfound' := (Yields.pure hfound).bind hjp
  refine .ite ?_ hfound'
  refine .ask fun _ _ _ => (hlist _).bind fun others _ => ?_
  exact (Remarks.forIn _ fun _ => complain_remarks _ _).yields.bind fun _ _ => hfound'

theorem classTail_yields (ho : text.isBoundary o = true)
    {decorated : List Node} (hdecorated : SoundAll text decorated) (isAbstract : Bool) :
    Yields text (classTail grammar o decorated isAbstract) (Node.Sound text) := by
  refine (typeParameters?_yields _).bind fun generics hgenerics => ?_
  refine classHeritage_yields.bind fun h hh => ?_
  obtain ⟨hparent, harguments, himplemented⟩ := hh
  refine (expect_yields _).bind fun _ _ => ?_
  refine Yields.bind (V := SoundAll text) (.within (.ask fun _ _ _ =>
    classMembers_yields _ _ _ soundAll_nil)) fun members hmembers => ?_
  refine finish_yields ho ?_ rfl
  simp [hdecorated, hgenerics, hparent, harguments, himplemented, hmembers]

theorem namedClass_yields (ho : text.isBoundary o = true)
    {decorated : List Node} (hdecorated : SoundAll text decorated)
    (isAbstract nameRequired : Bool) :
    Yields text (namedClass grammar o decorated isAbstract nameRequired) (SoundPair text) := by
  unfold namedClass
  extract_lets rest jp
  have hrest (name : Node) (hname : name.Sound text) :
      Yields text (rest name) (SoundPair text) := by
    have hend : Yields text (do
        let body ← classTail grammar o decorated isAbstract
        pure (name, body)) (SoundPair text) :=
      (classTail_yields ho hdecorated _).bind fun body hbody => .pure ⟨hname, hbody⟩
    dsimp only [rest]
    split
    · exact .ite ((complain_yields _ _).bind fun _ _ => hend) hend
    · exact hend
  have hjp (named : Bool) : Yields text (jp named) (SoundPair text) :=
    .join (declaredName_yields _) (.pure sound_absent) hrest
  refine .ite (hjp true) (.ask fun _ _ _ => ?_)
  exact .ask fun _ _ _ => .ask fun _ _ _ => hjp _

end Retouch.Syntax.Parser
