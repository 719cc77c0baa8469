import Retouch.Proofs.Parsing.Expression
import Retouch.Syntax.Parser.Declaration

/-!
# Declarations keep to the text

- `declarators_yields`, `declaredVariables_yields`: variables with their types and values.
- `typeDeclaration?_yields`, `valueDeclaration?_yields`, `ambientDeclaration?_yields`: whatever can
  be declared.
-/

namespace Retouch.Syntax.Parser

variable {text : Text} {grammar : Grammar} [hg : grammar.Sound text] {x : Context} {c : Cursor}
  {o : Nat}

/-! ## Variables -/

/-- A variable starts with what it binds. -/
theorem declarator_opens (grammar : Grammar) [hg : grammar.Sound text] (kind : VarKind)
    (inLoopHead : Bool) (hc : c.In text) :
    ∃ rest, declarator grammar kind inLoopHead x c =
        (bindingTarget grammar (kind != .varWord) >>= rest) x c ∧
      ∀ target, SoundPattern text target → Yields text (rest target) (Node.Sound text) := by
  refine ⟨_, run_bind_ok rfl, fun target htarget => ?_⟩
  refine .join (eat_yields _) (.pure trivial) fun definite _ => ?_
  refine typeAnnotation_yields.bind fun type htype => ?_
  have hannotated := (annotate_sound htarget htype).1
  have hbare : Yields text
      (finish c.token.start (.declarator definite) [annotate target type, .absent])
      (Node.Sound text) :=
    finish_yields hc.start (by simpa using hannotated) rfl
  extract_lets annotated bare jp
  have hjp (owed : Bool) : Yields text (jp owed) (Node.Sound text) := by
    refine .ite ((eat_yields _).bind fun _ _ => .ite ?_ ?_) hbare
    · refine hg.assignment.yields.bind fun value hvalue => ?_
      exact finish_yields hc.start (by simp [annotated, hannotated, hvalue]) rfl
    · refine .ask fun _ _ _ => .ite (.ite ?_ ?_) hbare
      · exact (complain_yields _ _).bind fun _ _ => hbare
      · exact .guard (failAt_yields _ _) hbare
  refine .ite ?_ (hjp true)
  exact .ask fun _ _ _ => .ask fun _ _ _ => hjp _

theorem declarator_yields (kind : VarKind) (inLoopHead : Bool) :
    Yields text (declarator grammar kind inLoopHead) (Node.Sound text) := by
  intro x c hc
  obtain ⟨rest, heq, hrest⟩ := declarator_opens grammar kind inLoopHead hc
  exact .of_run heq c.le_refl ((bindingTarget_yields _).bind hrest x c hc)

theorem declarators_yields (kind : VarKind) (inLoopHead : Bool)
    (fuel : Nat) {done : List Node} (hdone : SoundAll text done) :
    Yields text (declarators grammar kind inLoopHead fuel done) (SoundAll text) := by
  induction fuel generalizing done with
  | zero => exact exhausted_yields
  | succ fuel ih =>
    refine .ask fun _ _ _ => .ite ?_ ?_
    · refine .ask fun _ _ _ => (complain_yields _ _).bind fun _ _ => ?_
      exact .pure (soundAll_reverse.mpr hdone)
    · refine (declarator_yields _ _).within.bind fun d hd => (eat_yields _).bind fun _ _ => ?_
      exact .ite (ih (by simp [hd, hdone])) (.pure (by simp [hd, hdone]))

theorem skipStatement_yields (fuel : Nat) : Yields text (skipStatement fuel) fun _ => True := by
  induction fuel with
  | zero => exact exhausted_yields
  | succ fuel ih =>
    refine eatSemicolon_yields.bind fun _ _ => .ite (.pure trivial) ?_
    refine advance_yields.bind fun _ _ => .ask fun _ _ _ => ?_
    split
    · exact .pure trivial
    · exact ih

/-- Behind the variables stands the end of the statement, or it is skipped. -/
theorem declaredVariables_opens (text : Text) (grammar : Grammar) [hg : grammar.Sound text]
    (kind : VarKind) (x : Context) (c : Cursor) :
    ∃ fuel rest, declaredVariables grammar kind x c =
        (declarators grammar kind false (fuel + 1) [] >>= rest) x c ∧
      ∀ all, SoundAll text all → Yields text (rest all) (SoundAll text) := by
  refine ⟨c.here.rest.length + 1, _, run_bind_ok rfl, fun all hall => ?_⟩
  refine eatSemicolon_yields.bind fun _ _ => .ite ?_ (.pure hall)
  refine tokenOffset_yields.bind fun _ _ => (complain_yields _ _).bind fun _ _ => ?_
  refine Yields.bind (V := fun _ => True)
    (.tryCatch hg.expression.yields.discard fun _ => .pure trivial) fun _ _ => ?_
  exact .ask fun _ _ _ => (skipStatement_yields _).bind fun _ _ => .pure hall

theorem declaredVariables_yields (kind : VarKind) :
    Yields text (declaredVariables grammar kind) (SoundAll text) := by
  intro x c hc
  obtain ⟨fuel, rest, heq, hrest⟩ := declaredVariables_opens text grammar kind x c
  exact .of_run heq c.le_refl ((declarators_yields _ _ _ soundAll_nil).bind hrest x c hc)

theorem asStatement_sound {n : Node} (hn : n.Sound text) : (asStatement n).Sound text := by
  unfold asStatement
  split
  · next d span parts =>
    have hfits : (Form.stmt (.declaration d)).Fits parts := by
      have hdecl : (Form.decl d).Fits parts := hn.fits
      cases d <;> exact hdecl
    exact .of_fits rfl hfits hn.start hn.stop hn.parts
  · exact hn

/-! ## Classes, functions and enumerations -/

theorem classDeclaration_yields (ho : text.isBoundary o = true)
    {decorated : List Node} (hdecorated : SoundAll text decorated) (isAbstract ambient : Bool) :
    Yields text (classDeclaration grammar o decorated isAbstract ambient) (Node.Sound text) := by
  refine (expectWord_yields _).bind fun _ _ => ?_
  refine (namedClass_yields ho hdecorated _ _).bind fun pair hpair => ?_
  exact finish_yields ho (by simp [hpair.1, hpair.2]) rfl

theorem functionDeclaration_yields (ho : text.isBoundary o = true)
    (isAsync ambient : Bool) :
    Yields text (functionDeclaration grammar o isAsync ambient) (Node.Sound text) := by
  refine (expectWord_yields _).bind fun _ _ => ?_
  refine (namedFunction_yields ho _ _ _).bind fun pair hpair => ?_
  exact finish_yields ho (by simp [hpair.1, hpair.2]) rfl

theorem enumKey_yields : Yields text (enumKey grammar) (Node.Sound text) := by
  refine .ask fun _ _ _ => ?_
  split
  · exact stringLiteral_yields
  · exact (complain_yields _ _).bind fun _ _ => propertyKey_yields
  · refine advance_yields.bind fun _ _ => hg.expression.yields.bind fun e he => ?_
    refine (expect_yields _).bind fun _ _ => ?_
    split
    · exact .pure he
    · have hquasi := (soundAll_cons.mp he.parts).1
      exact .pure (.of_parts rfl hquasi.start hquasi.stop soundAll_nil)
    · exact (complain_yields _ _).bind fun _ _ => .pure he
  · exact anyName_reads.yields

theorem enumMember_yields : Yields text (enumMember grammar) fun found => found.1.Sound text := by
  refine .ask fun _ c hc => enumKey_yields.bind fun key hkey => ?_
  refine (eat_yields _).bind fun _ _ => .ite ?_ ?_
  · refine hg.assignment.yields.bind fun value hvalue => ?_
    refine (finish_yields hc.start (by simp [hkey, hvalue]) rfl).bind fun member hmember => ?_
    exact (eat_yields _).bind fun _ _ => .pure hmember
  · refine (finish_yields hc.start (by simp [hkey]) rfl).bind fun member hmember => ?_
    refine .ask fun _ _ _ => .ite (.pure hmember) ?_
    refine .ask fun _ _ _ => ?_
    refine .guardWith tokenOffset_yields (fun _ => complain_yields _ _) ?_
    exact advance_yields.bind fun _ _ => .pure hmember

theorem enumMembers_yields (fuel : Nat) {done : List Node}
    (hdone : SoundAll text done) : Yields text (enumMembers grammar fuel done) (SoundAll text) := by
  induction fuel generalizing done with
  | zero => exact exhausted_yields
  | succ fuel ih =>
    refine .ask fun _ _ _ => ?_
    refine .ite (.pure (soundAll_reverse.mpr hdone)) ?_
    refine enumMember_yields.bind fun found hfound => .ask fun _ _ _ => ?_
    have hdone : SoundAll text (found.1 :: done) := soundAll_cons.mpr ⟨hfound, hdone⟩
    have hmore := ih hdone
    refine .ite ?_ hmore
    refine tokenOffset_yields.bind fun _ _ => describe_yields.bind fun _ _ => ?_
    exact (complain_yields _ _).bind fun _ _ => hmore

theorem enumDeclaration_yields (ho : text.isBoundary o = true)
    (isConst ambient : Bool) :
    Yields text (enumDeclaration grammar o isConst ambient) (Node.Sound text) := by
  refine (expectWord_yields _).bind fun _ _ => anyName_reads.yields.bind fun name hname => ?_
  refine (expect_yields _).bind fun _ _ => .ask fun _ _ _ => ?_
  refine (enumMembers_yields _ soundAll_nil).bind fun members hmembers => ?_
  exact (expect_yields _).bind fun _ _ => finish_yields ho (by simp [hname, hmembers]) rfl

/-! ## Interfaces, aliases and namespaces -/

theorem skipToBrace_yields (fuel : Nat) : Yields text (skipToBrace fuel) fun _ => True := by
  induction fuel with
  | zero => exact exhausted_yields
  | succ fuel ih =>
    refine .ask fun _ _ _ => .ask fun _ _ _ => ?_
    exact .ite (.pure trivial) (advance_yields.bind fun _ _ => ih)

theorem interfaceTail_yields (ho : text.isBoundary o = true)
    (ambient : Bool) : Yields text (interfaceTail grammar o ambient) (Node.Sound text) := by
  refine anyName_reads.yields.bind fun name hname => ?_
  extract_lets jp
  have hjp : Yields text (jp ()) (Node.Sound text) := by
    refine ((typeParameters?_yields _).gives typeParameters?_form).bind
      fun generics hgenerics => ?_
    refine (eatWord_yields _).bind fun _ _ => ?_
    extract_lets rest
    have hrest (extended : List Node) (hextended : SoundAll text extended) :
        Yields text (rest extended) (Node.Sound text) := by
      have hend : Yields text (do
          let elements ← typeElements grammar
          finish o (.decl (.interface ambient))
            [name, .ofOption generics, .group extended, .group elements]) (Node.Sound text) :=
        (typeElements_yields.gives typeElements_isElement).bind fun elements helements =>
          finish_fits rfl ⟨name, _, _, elements, rfl, hgenerics.2, helements.2⟩ ho
            (by simp [hname, hgenerics.1, hextended, helements.1])
      refine .ask fun _ _ _ => .ite ?_ hend
      refine .ask fun _ _ _ => (complain_yields _ _).bind fun _ _ => ?_
      exact .ask fun _ _ _ => (skipToBrace_yields _).bind fun _ _ => hend
    refine .ite ?_ ((Yields.pure soundAll_nil).bind hrest)
    exact .ask fun _ _ _ => (heritage_yields _ soundAll_nil).bind hrest
  split
  · exact .guard (complain_yields _ _) hjp
  · exact hjp

theorem interfaceTail_form {ambient : Bool} :
    Gives (interfaceTail grammar o ambient) (·.form = .decl (.interface ambient)) := by
  refine .after fun name => ?_
  extract_lets jp
  have hjp : Gives (jp ()) (·.form = .decl (.interface ambient)) := by
    refine .after fun _ => .after fun _ => ?_
    extract_lets rest
    have hrest (extended : List Node) :
        Gives (rest extended) (·.form = .decl (.interface ambient)) := by
      refine .after fun _ => .ite ?_ (.after fun _ => .finish fun _ => rfl)
      exact .after fun _ => .after fun _ => .after fun _ => .after fun _ => .after fun _ =>
        .finish fun _ => rfl
    exact .ite (.after fun _ => .after hrest) (.after hrest)
  split
  · exact .guard hjp
  · exact hjp

theorem aliasTail_yields (ho : text.isBoundary o = true)
    (ambient : Bool) : Yields text (aliasTail grammar o ambient) (Node.Sound text) := by
  refine anyName_reads.yields.bind fun name hname => ?_
  refine ((typeParameters?_yields _).gives typeParameters?_form).bind
    fun generics hgenerics => ?_
  refine (expect_yields _).bind fun _ _ => (hg.type.gives hg.isType).within.bind
    fun type htype => expectSemicolon_yields.bind fun _ _ => ?_
  exact finish_fits rfl ⟨name, _, type, rfl, hgenerics.2, htype.2⟩ ho
    (by simp [hname, hgenerics.1, htype.1])

theorem namespaceItems_yields (fuel : Nat) {done : List Node}
    (hdone : SoundAll text done) :
    Yields text (namespaceItems grammar fuel done) (SoundAll text) := by
  induction fuel generalizing done with
  | zero => exact exhausted_yields
  | succ fuel ih =>
    have hend : SoundAll text done.reverse := soundAll_reverse.mpr hdone
    refine (eat_yields _).bind fun _ _ => .ite (.pure hend) ?_
    refine .ask fun _ _ _ => .ite ?_ ?_
    · exact tokenOffset_yields.bind fun _ _ => (complain_yields _ _).bind fun _ _ => .pure hend
    · exact hg.moduleItem.bind fun item hitem => ih (by simp [hitem, hdone])

theorem namespaceBody_yields : Yields text (namespaceBody grammar) (Node.Sound text) := by
  refine .ask fun _ c hc => (expect_yields _).bind fun _ _ => ?_
  refine .ask fun _ _ _ => ?_
  exact (namespaceItems_yields _ soundAll_nil).bind fun _ hitems => finish_yields hc.start hitems rfl

theorem moduleBody_yields : Yields text (moduleBody? grammar) (Node.Sound text) := by
  refine .ask fun _ _ _ => .ite namespaceBody_yields ?_
  exact expectSemicolon_yields.bind fun _ _ => .pure sound_absent

theorem namespacePath_yields (ho : text.isBoundary o = true) (fuel : Nat) {left : Node}
    (hleft : left.Sound text) : Yields text (namespacePath o fuel left) (Node.Sound text) := by
  induction fuel generalizing left with
  | zero => exact exhausted_yields
  | succ fuel ih =>
    refine (eat_yields _).bind fun _ _ => .ite ?_ (.pure hleft)
    refine anyName_reads.yields.bind fun right hright => ?_
    exact (finish_yields ho (by simp [hleft, hright]) rfl).bind fun _ hjoined => ih hjoined

theorem namespaceTail_yields (ho : text.isBoundary o = true)
    (ambient : Bool) : Yields text (namespaceTail grammar o ambient) (Node.Sound text) := by
  refine anyName_reads.yields.bind fun first hfirst => .ask fun _ _ _ => ?_
  refine (namespacePath_yields hfirst.start _ hfirst).bind fun name hname => ?_
  exact namespaceBody_yields.bind fun body hbody => finish_yields ho (by simp [hname, hbody]) rfl

theorem moduleTail_yields (ho : text.isBoundary o = true)
    (ambient : Bool) : Yields text (moduleTail grammar o ambient) (Node.Sound text) := by
  refine .ask fun _ _ _ => ?_
  refine .join anyName_reads.yields stringLiteral_yields fun name hname => ?_
  exact moduleBody_yields.bind fun body hbody => finish_yields ho (by simp [hname, hbody]) rfl

/-! ## Whatever can be declared -/

theorem typeDeclaration?_yields (ho : text.isBoundary o = true)
    {decorated : List Node} (hdecorated : SoundAll text decorated) (ambient : Bool) :
    Yields text (typeDeclaration? grammar o decorated ambient) (SoundOption text) := by
  refine .ask fun _ _ _ => ?_
  split
  · exact advance_yields.bind fun _ _ => (classDeclaration_yields ho hdecorated _ _).some
  · exact (enumDeclaration_yields ho _ _).some
  · exact advance_yields.bind fun _ _ => (interfaceTail_yields ho _).some
  · exact advance_yields.bind fun _ _ => (aliasTail_yields ho _).some
  · exact advance_yields.bind fun _ _ => (namespaceTail_yields ho _).some
  · refine advance_yields.bind fun _ _ => .ask fun _ _ _ => ?_
    split
    · exact (moduleTail_yields ho _).some
    · exact (namespaceTail_yields ho _).some
  · exact .pure soundOption_none

theorem nextTypeDeclaration?_yields (ho : text.isBoundary o = true)
    {decorated : List Node} (hdecorated : SoundAll text decorated) (ambient : Bool) :
    Yields text (nextTypeDeclaration? grammar o decorated ambient) (SoundOption text) :=
  .ask fun _ _ _ => .ite (.pure soundOption_none) (typeDeclaration?_yields ho hdecorated ambient)

theorem variableDeclaration_yields (ho : text.isBoundary o = true)
    (kind : VarKind) (ambient : Bool) :
    Yields text (variableDeclaration grammar o kind ambient) (Node.Sound text) :=
  advance_yields.bind fun _ _ => (declaredVariables_yields _).bind fun _ hall =>
    finish_yields ho hall rfl

theorem constDeclaration_yields (ho : text.isBoundary o = true)
    (ambient : Bool) : Yields text (constDeclaration grammar o ambient) (Node.Sound text) := by
  refine .ask fun _ _ _ => .ite ?_ ?_
  · exact advance_yields.bind fun _ _ => enumDeclaration_yields ho _ _
  · exact variableDeclaration_yields ho _ _

theorem valueDeclaration?_yields (ho : text.isBoundary o = true)
    {decorated : List Node} (hdecorated : SoundAll text decorated) :
    Yields text (valueDeclaration? grammar o decorated) (SoundOption text) := by
  refine .ask fun _ _ _ => .ask fun _ _ _ => ?_
  split
  · exact (classDeclaration_yields ho hdecorated _ _).some
  · exact (functionDeclaration_yields ho _ _).some
  · refine .ite ?_ (.pure soundOption_none)
    exact advance_yields.bind fun _ _ => (functionDeclaration_yields ho _ _).some
  · exact (constDeclaration_yields ho _).some
  · exact (variableDeclaration_yields ho _ _).some
  · exact .ite (variableDeclaration_yields ho _ _).some (.pure soundOption_none)
  · exact .pure soundOption_none

theorem ambientDeclaration?_yields (ho : text.isBoundary o = true)
    {decorated : List Node} (hdecorated : SoundAll text decorated) :
    Yields text (ambientDeclaration? grammar o decorated) (SoundOption text) := by
  refine .ask fun _ _ _ => .guard (complain_yields _ _) (.within ?_)
  refine .ask fun _ _ _ => ?_
  split
  · exact (functionDeclaration_yields ho _ _).some
  · exact (classDeclaration_yields ho hdecorated _ _).some
  · exact (constDeclaration_yields ho _).some
  · exact (variableDeclaration_yields ho _ _).some
  · exact (variableDeclaration_yields ho _ _).some
  · exact (moduleTail_yields ho _).some
  · exact nextTypeDeclaration?_yields ho hdecorated _

end Retouch.Syntax.Parser
