import Retouch.Proofs.Parsing.Name
import Retouch.Syntax.Parser.Pattern

/-!
# Patterns and parameters keep to the text

- `bindingTarget_yields`: what a variable or parameter binds.
- `parameters_yields`, `signatureParameters_yields`: parameters in their parentheses.
-/

namespace Retouch.Syntax

variable {text : Text} {n : Node} {type : Option Node}

/-- A tree that can take a type or a mark: it is no binary operation, so its range may be
widened. -/
def SoundPattern (text : Text) (n : Node) : Prop :=
  n.Sound text ∧ n.form.isBinary = false

namespace Parser

theorem annotate_sound (hn : SoundPattern text n) (htype : SoundOption text type) :
    SoundPattern text (annotate n type) := by
  cases type with
  | none => exact hn
  | some t =>
    have ht : t.Sound text := by simpa using htype
    have hparts := hn.1.parts
    simp only [annotate]
    split
    · exact ⟨.of_parts rfl hn.1.start ht.stop (by simpa using ht), rfl⟩
    · next helements =>
      rw [helements] at hparts
      exact ⟨.of_parts rfl hn.1.start ht.stop (by simp_all), rfl⟩
    · next helements =>
      rw [helements] at hparts
      exact ⟨.of_parts rfl hn.1.start ht.stop (by simp_all), rfl⟩
    · next helements =>
      rw [helements] at hparts
      exact ⟨.of_parts rfl hn.1.start ht.stop (by simp_all), rfl⟩
    · exact ⟨.of_fits hn.2 hn.1.fits hn.1.start ht.stop hparts, hn.2⟩

theorem markOptional_sound (hn : SoundPattern text n) : SoundPattern text (markOptional n) := by
  unfold markOptional
  split
  · exact ⟨.of_parts rfl hn.1.start hn.1.stop hn.1.parts, rfl⟩
  · exact ⟨.of_parts rfl hn.1.start hn.1.stop hn.1.parts, rfl⟩
  · exact ⟨.of_parts rfl hn.1.start hn.1.stop hn.1.parts, rfl⟩
  · exact hn

variable {grammar : Grammar} [hg : grammar.Sound text]

theorem typeAnnotation_yields : Yields text (typeAnnotation? grammar) (SoundOption text) := by
  refine (eat_yields _).bind fun _ _ => .ite ?_ (.pure (by simp))
  exact hg.type.bind fun t ht => .pure (by simpa using ht)

theorem typeAnnotation_isType (h : Gives (grammar .type) fun n => n.form.isType = true) :
    Gives (typeAnnotation? grammar) fun type => ∀ t ∈ type, t.form.isType = true := by
  refine .after fun _ => .ite (h.bind fun t ht => .pure ?_) (.pure nofun)
  exact fun _ hfound => Option.some.inj hfound ▸ ht

theorem anyName_pattern : Yields text anyName (SoundPattern text) := by
  refine .ask fun _ c hc => ?_
  split
  · exact advance_yields.bind fun _ _ => .pure ⟨.of_parts rfl hc.start hc.stop (by simp), rfl⟩
  · exact fail_yields _

/-! ## Patterns -/

theorem bindingElement_yields : Yields text (bindingElement grammar) (Node.Sound text) := by
  refine .ask fun _ c hc => hg.binding.bind fun target htarget => ?_
  refine (eat_yields _).bind fun _ _ => .ite ?_ (.pure htarget)
  refine hg.assignment.yields.within.bind fun value hvalue => .ask fun _ _ _ => ?_
  exact .guard (complain_yields _ _) (finish_yields hc.start (by simp [htarget, hvalue]) rfl)

theorem arrayElements_yields (fuel : Nat) (rest : Option Nat)
    {done : List Node} (hdone : SoundAll text done) :
    Yields text (arrayElements grammar fuel rest done) (SoundAll text) := by
  induction fuel generalizing rest done with
  | zero => exact exhausted_yields
  | succ fuel ih =>
    refine .ask fun _ _ _ => .ite (.pure (by simpa using hdone)) ?_
    refine (eat_yields _).bind fun _ _ => .ite (ih _ (by simpa using hdone)) ?_
    extract_lets jp
    have hjp (r : Unit) : Yields text (jp r) (SoundAll text) := by
      refine .ask fun _ c hc => (eat_yields _).bind fun isRest _ => ?_
      extract_lets finished
      have hfinished (element : Node) (helement : element.Sound text) :
          Yields text (finished element) (SoundAll text) := by
        have hmore (rest : Option Nat) :
            Yields text (arrayElements grammar fuel rest (element :: done)) (SoundAll text) :=
          ih _ (by simp [helement, hdone])
        refine .ask fun _ _ _ => .ite ?_ (hmore _)
        refine (expect_yields _).bind fun _ _ => .ask fun _ _ _ => ?_
        refine .ite (.ask fun _ _ _ => ?_) (hmore _)
        exact (complain_yields _ _).bind fun _ _ => hmore _
      refine .ite (hg.binding.bind fun target htarget => ?_) ?_
      · exact (finish_yields hc.start (by simpa using htarget) rfl).bind hfinished
      · exact bindingElement_yields.bind hfinished
    split
    · exact (complain_yields _ _).bind fun _ _ => hjp ()
    · exact hjp ()

theorem patternProperty_yields : Yields text (patternProperty grammar) (Node.Sound text) := by
  refine .ask fun _ c hc => (eat_yields _).bind fun _ _ => ?_
  refine .ite (hg.binding.bind fun target htarget => ?_) ?_
  · exact finish_yields hc.start (by simpa using htarget) rfl
  refine .ask fun _ d hd => propertyKey_yields.bind fun key hkey => ?_
  refine (eat_yields _).bind fun _ _ => .ite ?_ ?_
  · refine bindingElement_yields.bind fun value hvalue => ?_
    exact finish_yields hc.start (by simp [hkey, hvalue]) rfl
  split
  · refine (eat_yields _).bind fun _ _ => .ite ?_ ?_
    · refine hg.assignment.yields.within.bind fun value hvalue => ?_
      exact finish_yields hc.start (by simpa using hvalue) rfl
    extract_lets jp
    have hjp (r : Unit) : Yields text (jp r) (Node.Sound text) := finish_yields hc.start (by simp) rfl
    split
    · exact .guard (complain_yields _ _) (hjp ())
    · exact hjp ()
  · exact failUnexpected_yields _

theorem patternProperties_yields (fuel : Nat) (trailing : Option Nat)
    {done : List Node} (hdone : SoundAll text done) :
    Yields text (patternProperties grammar fuel trailing done)
      fun found => SoundAll text found.1 := by
  induction fuel generalizing trailing done with
  | zero => exact exhausted_yields
  | succ fuel ih =>
    refine (eat_yields _).bind fun _ _ => .ite (.pure (by simpa using hdone)) ?_
    refine patternProperty_yields.bind fun property hproperty => ?_
    have hmore (trailing : Option Nat) :
        Yields text (patternProperties grammar fuel trailing (property :: done))
          fun found => SoundAll text found.1 :=
      ih _ (by simp [hproperty, hdone])
    refine .ask fun _ _ _ => .ite (hmore _) ?_
    refine (expect_yields _).bind fun _ _ => .ask fun _ _ _ => ?_
    exact .ite (.ask fun _ _ _ => hmore _) (hmore _)

theorem checkPatternRest_yields (trailing : Option Nat) (properties : List Node) :
    Yields text (checkPatternRest trailing properties) fun _ => True := by
  fun_induction checkPatternRest trailing properties with
  | case1 | case3 => exact .pure trivial
  | case2 => exact complain_yields _ _
  | case4 => exact failAt_yields _ _
  | case5 => exact (complain_yields _ _).bind fun _ _ => by assumption
  | case6 => assumption

/-- What a variable or parameter binds is a pattern. -/
theorem bindingTarget_yields (noLet : Bool) :
    Yields text (bindingTarget grammar noLet) (SoundPattern text) := by
  refine .ask fun _ c hc => ?_
  split
  · exact (bindingWord_yields noLet).bind fun _ hword =>
      .pure ⟨.of_parts rfl hword.1 hword.2 (by simp), rfl⟩
  · refine advance_yields.bind fun _ _ => .ask fun _ _ _ => ?_
    refine (arrayElements_yields _ none soundAll_nil).bind fun elements helements => ?_
    refine (expect_yields _).bind fun _ _ => .ask fun _ _ _ => ?_
    refine .join (eat_yields _) (.pure trivial) fun optional _ => ?_
    exact .ask fun _ _ hd =>
      .pure ⟨.of_parts rfl hc.start hd.previousStop (by simpa using helements), rfl⟩
  · refine advance_yields.bind fun _ _ => ?_
    refine Yields.bind (V := fun found => SoundAll text found.1)
      (.within (.ask fun _ _ _ => patternProperties_yields _ none soundAll_nil))
      fun found hfound => ?_
    refine (checkPatternRest_yields _ _).bind fun _ _ => .ask fun _ _ _ => ?_
    refine .join (eat_yields _) (.pure trivial) fun optional _ => ?_
    exact .ask fun _ _ hd =>
      .pure ⟨.of_parts rfl hc.start hd.previousStop (by simpa using hfound), rfl⟩
  · exact .throw _
  · exact failUnexpected_yields _

/-! ## Parameters -/

theorem decoratorList_yields (fuel : Nat) {done : List Node}
    (hdone : SoundAll text done) :
    Yields text (decoratorList grammar fuel done) (SoundAll text) := by
  induction fuel generalizing done with
  | zero => exact exhausted_yields
  | succ fuel ih =>
    refine .ask fun _ _ _ => .ask fun _ _ _ => ?_
    refine .ite (hg.decorator.bind fun d hd => ih (by simp [hd, hdone])) ?_
    exact .pure (by simpa using hdone)

theorem decorators_yields : Yields text (decorators grammar) (SoundAll text) :=
  .ask fun _ _ _ => decoratorList_yields _ soundAll_nil

theorem denyExport_yields : Yields text denyExport fun _ => True := by
  refine .ask fun _ _ _ => .ask fun _ _ _ => ?_
  exact .ite (fail_yields _) (.pure trivial)

theorem parameterPattern_yields : Yields text (parameterPattern grammar) (Node.Sound text) := by
  refine .ask fun _ c hc => eatModifier_yields.bind fun modified _ => ?_
  refine (bindingTarget_yields false).bind fun target htarget => ?_
  refine (eat_yields _).bind fun optional _ => typeAnnotation_yields.bind fun type htype => ?_
  extract_lets annotated jp
  have hannotated : annotated.Sound text := by
    refine (annotate_sound ?_ htype).1
    split
    · exact markOptional_sound htarget
    · exact htarget
  refine (eat_yields _).bind fun _ _ => ?_
  have hjp (pattern : Node) (hpattern : pattern.Sound text) :
      Yields text (jp pattern) (Node.Sound text) :=
    .guard (complain_yields _ _) (.pure hpattern)
  refine .ite (.guard (complain_yields _ _) ?_) (hjp _ hannotated)
  refine hg.assignment.yields.within.bind fun value hvalue => .ask fun _ _ _ => ?_
  refine .guard (complain_yields _ _) ?_
  exact (finish_yields hc.start (by simp [hannotated, hvalue]) rfl).bind hjp

theorem restParameter_yields (ofConstructor : Bool) {offset : Nat}
    (hoffset : text.isBoundary offset = true) :
    Yields text (restParameter grammar ofConstructor offset) (Node.Sound text) := by
  refine (bindingTarget_yields false).bind fun target htarget => ?_
  refine (eat_yields _).bind fun _ _ => ?_
  extract_lets jp
  have hjp (r : Unit) : Yields text (jp r) (Node.Sound text) := by
    refine typeAnnotation_yields.bind fun type htype => ?_
    refine (finish_yields hoffset (by simp [htarget.1, htype]) rfl).bind fun rest hrest => ?_
    refine (eat_yields _).bind fun _ _ => .ite ?_ (.pure hrest)
    exact .ask fun _ _ _ => (complain_yields _ _).bind fun _ _ => .pure hrest
  refine .ite (hg.assignment.yields.discard.bind fun _ _ => ?_) (hjp ())
  exact (complain_yields _ _).bind fun _ _ => hjp ()

theorem propertyModifiers_yields : Yields text propertyModifiers fun _ => True :=
  (modifier_yields _ _).bind fun _ _ => (modifier_yields _ _).bind fun _ _ =>
    (modifier_yields _ _).bind fun _ _ => .pure trivial

theorem parameter_yields (ofConstructor : Bool) :
    Yields text (parameter grammar ofConstructor) (Node.Sound text) := by
  refine .ask fun _ c hc => ?_
  refine decorators_yields.bind fun decorated hdecorated => .guard denyExport_yields ?_
  refine .ask fun _ d hd => (eat_yields _).bind fun _ _ => ?_
  refine .ite ((restParameter_yields _ hd.start).bind fun rest hrest => ?_) ?_
  · exact finish_yields hc.start (by simp [hdecorated, hrest]) rfl
  refine .join propertyModifiers_yields (.pure trivial) fun words _ => ?_
  refine parameterPattern_yields.bind fun pattern hpattern => ?_
  extract_lets jp
  have hjp (r : Unit) : Yields text (jp r) (Node.Sound text) :=
    finish_yields hc.start (by simp [hdecorated, hpattern]) rfl
  refine .ite ?_ (hjp ())
  split
  · exact hjp ()
  · exact hjp ()
  · exact .stop (failAt_yields _ _)

theorem parameterList_yields (ofConstructor : Bool) (fuel : Nat)
    (rest : Option Nat) {done : List Node} (hdone : SoundAll text done) :
    Yields text (parameterList grammar ofConstructor fuel rest done) (SoundAll text) := by
  induction fuel generalizing rest done with
  | zero => exact exhausted_yields
  | succ fuel ih =>
    refine .ask fun _ _ _ => .ite (.pure (by simpa using hdone)) ?_
    extract_lets jp
    have hjp (r : Unit) : Yields text (jp r) (SoundAll text) := by
      refine (parameter_yields ofConstructor).bind fun p hp => .ask fun _ _ _ => ?_
      have hmore (rest : Option Nat) :
          Yields text (parameterList grammar ofConstructor fuel rest (p :: done)) (SoundAll text) :=
        ih _ (by simp [hp, hdone])
      refine .ite ((expect_yields _).bind fun _ _ => ?_) (hmore _)
      refine .ask fun _ _ _ => .ite ?_ (hmore _)
      exact .ask fun _ _ _ => (complain_yields _ _).bind fun _ _ => hmore _
    split
    · exact (complain_yields _ _).bind fun _ _ => hjp ()
    · exact hjp ()

theorem parameters_yields (ofConstructor : Bool) :
    Yields text (parameters grammar ofConstructor) (SoundAll text) := by
  refine (expect_yields _).bind fun _ _ => ?_
  refine Yields.bind (V := SoundAll text) (.within (.ask fun _ _ _ =>
    parameterList_yields ofConstructor _ none soundAll_nil)) fun ps hps => ?_
  exact (expect_yields _).bind fun _ _ => .pure hps

theorem signatureParameters_yields : Yields text (signatureParameters grammar) (SoundAll text) := by
  refine (expect_yields _).bind fun _ _ => ?_
  refine Yields.bind (V := SoundAll text) (.within (.ask fun _ _ _ =>
    parameterList_yields false _ none soundAll_nil)) fun ps hps => ?_
  refine .guard (failUnexpected_yields _) ?_
  exact (expect_yields _).bind fun _ _ => .pure hps

end Parser

end Retouch.Syntax
