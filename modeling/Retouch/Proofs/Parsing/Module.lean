import Retouch.Proofs.Parsing.Expression
import Retouch.Proofs.Parsing.Markup
import Retouch.Proofs.Parsing.Statement
import Retouch.Syntax.Parser.Module

/-!
# Syntax trees keep to the text

The grammar at a depth reads its constructs through the grammar one level below, so what the parsers
of all constructs keep goes through to every depth.

- `goal_sound`, `parseGoal_sound`: one level of the grammar, and all levels.
- `parse_sound`: every range of a syntax tree ends at cutting places of the text.
-/

namespace Retouch.Syntax

namespace Parser

variable {text : Text} {grammar : Grammar} [hg : grammar.Sound text] {o : Nat}

/-! ## Lists of names -/

theorem exportedName_yields : Yields text exportedName (Node.Sound text) := by
  refine .ask fun _ _ _ => ?_
  split
  · exact stringLiteral_yields
  · exact anyName_reads.yields

theorem listedName_yields (ho : text.isBoundary o = true) (isType : Bool) {name renamed : Node}
    (hname : name.Sound text) (hrenamed : renamed.Sound text) :
    Yields text (listedName o isType name renamed) (Node.Sound text) :=
  finish_yields ho (by simp [hname, hrenamed]) rfl

theorem typedName_yields {rules : ListRules} (hrules : Yields text rules.renamed (Node.Sound text))
    (ho : text.isBoundary o = true) {word : Node} (hword : word.Sound text) :
    Yields text (typedName rules o word) fun found => found.1.Sound text := by
  unfold typedName
  extract_lets refuse
  have hrefuse : Yields text refuse fun _ => True :=
    .ite (complain_yields _ _) (.pure trivial)
  clear_value refuse
  refine anyName_reads.yields.bind fun name hname => .ite ?_ ?_
  · exact hrefuse.bind fun _ _ => .pure hname
  refine atAnyWord_yields.bind fun _ _ => .ite ?_ ?_
  · exact hrefuse.bind fun _ _ =>
      (listedName_yields ho _ hname sound_absent).bind fun _ hlisted => .pure hlisted
  refine hrules.bind fun second hsecond => atAnyWord_yields.bind fun _ _ => ?_
  refine .ite ?_ ?_
  · refine hrules.bind fun renamed hrenamed => hrefuse.bind fun _ _ => ?_
    exact (listedName_yields ho _ hname hrenamed).bind fun _ hlisted => .pure hlisted
  · exact (listedName_yields ho _ hword hsecond).bind fun _ hlisted => .pure hlisted

theorem importedName_yields (typeOnly : Bool) :
    Yields text (importedName typeOnly) (Node.Sound text) := by
  refine .ask fun _ c hc => ?_
  extract_lets rules jp
  have hjp (found : Node × Bool × Bool) (hfound : found.1.Sound text) :
      Yields text (jp found) (Node.Sound text) := by
    obtain ⟨name, isType, more⟩ := found
    refine .ite (.pure hfound) ?_
    refine (eatWord_yields _).bind fun _ _ => .ite ?_ ?_
    · exact (declaredName_yields _).bind fun _ hrenamed =>
        listedName_yields hc.start _ hfound hrenamed
    extract_lets listed
    have hlisted : Yields text (listed ()) (Node.Sound text) :=
      listedName_yields hc.start _ hfound sound_absent
    split
    · split
      · exact .guard (failAt_yields _ _) hlisted
      · exact hlisted
    · exact (failAt_yields (V := fun _ => True) _ _).bind fun _ _ => hlisted
    · exact hlisted
  refine exportedName_yields.bind fun first hfirst => atAnyWord_yields.bind fun _ _ => ?_
  exact .join (typedName_yields (declaredName_yields _) hc.start hfirst) (.pure hfirst) hjp

theorem namedExport_yields (typeOnly : Bool) :
    Yields text (namedExport typeOnly) (Node.Sound text) := by
  refine .ask fun _ c hc => ?_
  extract_lets rules jp
  have hjp (found : Node × Bool × Bool) (hfound : found.1.Sound text) :
      Yields text (jp found) (Node.Sound text) := by
    obtain ⟨name, isType, more⟩ := found
    refine .ite (.pure hfound) ((eatWord_yields _).bind fun _ _ => ?_)
    exact .join exportedName_yields (.pure sound_absent) fun _ hrenamed =>
      listedName_yields hc.start _ hfound hrenamed
  refine exportedName_yields.bind fun first hfirst => atAnyWord_yields.bind fun _ _ => ?_
  exact .join (typedName_yields anyName_reads.yields hc.start hfirst) (.pure hfirst) hjp

theorem listedNames_yields {item : Parser Node} (hitem : Yields text item (Node.Sound text))
    (fuel : Nat) {done : List Node} (hdone : SoundAll text done) :
    Yields text (listedNames item fuel done) (SoundAll text) := by
  induction fuel generalizing done with
  | zero => exact exhausted_yields
  | succ fuel ih =>
    refine (eat_yields _).bind fun _ _ => .ite (.pure (by simpa using hdone)) ?_
    refine hitem.bind fun s hs => .ask fun _ _ _ => ?_
    exact .guard (expect_yields _) (ih (by simp [hs, hdone]))

/-! ## Imports -/

theorem fromClause_yields : Yields text fromClause (Node.Sound text) :=
  (expectWord_yields _).bind fun _ _ => stringLiteral_yields

theorem importAttributes_yields : Yields text (importAttributes grammar) (Node.Sound text) := by
  refine .ask fun _ _ _ => .ite (.pure sound_absent) ?_
  refine (eatWord_yields _).bind fun _ _ => (eatWord_yields _).bind fun _ _ => ?_
  exact .ite objectLiteral_reads.yields (.pure sound_absent)

theorem moduleReference_yields : Yields text moduleReference (Node.Sound text) := by
  refine .ask fun _ c hc => .ask fun _ _ _ => ?_
  refine .ask fun _ _ _ => .ite ?_ entityName_yields
  refine advance_yields.bind fun _ _ => (expect_yields _).bind fun _ _ => ?_
  refine stringLiteral_yields.bind fun source hsource => (expect_yields _).bind fun _ _ => ?_
  exact finish_yields hc.start (by simpa using hsource) rfl

theorem importEquals_yields (ho : text.isBoundary o = true) (exported typeOnly : Bool) {name : Node}
    (hname : name.Sound text) :
    Yields text (importEquals o exported typeOnly name) (Node.Sound text) := by
  refine (expect_yields _).bind fun _ _ => moduleReference_yields.bind
    fun reference hreference => ?_
  exact expectSemicolon_yields.bind fun _ _ => finish_yields ho (by simp [hname, hreference]) rfl

theorem importHead_yields : Yields text importHead fun head => SoundOption text head.default := by
  have hname (make : Node → ImportHead) (hmake : ∀ n, (make n).default = some n) :
      Yields text (declaredName false >>= fun name => pure (make name))
        fun head => SoundOption text head.default :=
    (declaredName_yields _).bind fun name hname => .pure (by simpa [hmake] using hname)
  refine .ask fun _ _ _ => .ask fun _ _ _ => ?_
  refine .ite (.pure soundOption_none) ?_
  refine (declaredName_yields _).bind fun first hfirst => ?_
  have hfirst : SoundOption text (some first) := soundOption_some.mpr hfirst
  refine .ask fun _ _ _ => .ask fun _ _ _ => ?_
  refine .ask fun _ _ _ => .ask fun _ _ _ => ?_
  refine .ask fun _ _ _ => .ask fun _ _ _ => ?_
  refine .ite ?_ (.ask fun _ _ _ => ?_)
  · refine .ite (.pure soundOption_none) ?_
    exact .ite (hname _ fun _ => rfl) (.pure hfirst)
  · refine .ite (.ite (.pure soundOption_none) ?_) (.pure hfirst)
    exact .ite (hname _ fun _ => rfl) (.pure hfirst)

theorem importList_yields (head : ImportHead) :
    Yields text (importList head) (SoundAll text) := by
  refine .ask fun _ c hc => (eat_yields _).bind fun _ _ => ?_
  refine .ite ?_ ((eat_yields _).bind fun _ _ => ?_)
  · refine (expectWord_yields _).bind fun _ _ => (declaredName_yields _).bind fun name hname => ?_
    refine (finish_yields hc.start (by simpa using hname) rfl).bind fun all hall => ?_
    exact .pure (by simpa using hall)
  · refine .ite ?_ (.pure soundAll_nil)
    exact .ask fun _ _ _ =>
      listedNames_yields (importedName_yields _) _ soundAll_nil

theorem importItem_yields : Yields text (importItem grammar) (Node.Sound text) := by
  refine .ask fun _ c hc => (expectWord_yields _).bind fun _ _ => ?_
  refine .ask fun _ _ _ => ?_
  split
  · refine stringLiteral_yields.bind fun source hsource => ?_
    refine importAttributes_yields.bind fun attributes hattributes => ?_
    refine eatSemicolon_yields.discard.bind fun _ _ => finish_yields hc.start ?_ rfl
    simp [hsource, hattributes]
  refine importHead_yields.bind fun head hhead => .ask fun _ _ _ => ?_
  split
  · next name hdefault _ =>
    exact importEquals_yields hc.start _ _ (hhead name hdefault)
  extract_lets jp
  have hjp (defaults : List Node) (hdefaults : SoundAll text defaults) :
      Yields text (jp defaults) (Node.Sound text) := by
    refine (importList_yields head).bind fun more hmore => ?_
    refine fromClause_yields.bind fun source hsource => ?_
    refine importAttributes_yields.bind fun attributes hattributes => ?_
    refine expectSemicolon_yields.bind fun _ _ => finish_yields hc.start ?_ rfl
    simp [hdefaults, hmore, hsource, hattributes]
  split
  · next name hdefault =>
    have hname : name.Sound text := hhead name hdefault
    refine .ask fun _ _ _ => .guard (expect_yields _) (hjp _ ?_)
    simpa using Node.Sound.of_parts rfl hname.start hname.stop (by simpa using hname)
  · exact hjp [] soundAll_nil

/-! ## Exports -/

theorem exportSource_yields : Yields text (exportSource grammar) (SoundPair text) :=
  fromClause_yields.bind fun _ hsource => importAttributes_yields.bind fun _ hattributes =>
    eatSemicolon_yields.discard.bind fun _ _ => .pure ⟨hsource, hattributes⟩

theorem checkExported_yields (names : List Node) :
    Yields text (checkExported names) fun _ => True := by
  refine Yields.bind (V := fun _ => True) (.forIn fun n _ => ?_) fun _ _ => .pure trivial
  split
  · split
    · exact .guard (complain_yields _ _) (.pure trivial)
    · exact .pure trivial
  · exact (complain_yields _ _).bind fun _ _ => .pure trivial
  · exact .pure trivial

theorem exportList_yields (ho : text.isBoundary o = true)
    (typeOnly : Bool) : Yields text (exportList grammar o typeOnly) (Node.Sound text) := by
  refine (expect_yields _).bind fun _ _ => .ask fun _ _ _ => ?_
  refine (listedNames_yields (namedExport_yields _) _ soundAll_nil).bind fun names hnames => ?_
  refine .ask fun _ _ _ => .ite ?_ ?_
  · refine exportSource_yields.bind fun found hfound => ?_
    exact finish_yields ho (by simp [hnames, hfound.1, hfound.2]) rfl
  · refine (checkExported_yields names).bind fun _ _ => ?_
    refine eatSemicolon_yields.discard.bind fun _ _ => finish_yields ho (by simp [hnames]) rfl

theorem exportStar_yields (ho : text.isBoundary o = true)
    (typeOnly : Bool) : Yields text (exportStar grammar o typeOnly) (Node.Sound text) := by
  refine .ask fun _ c hc => (expect_yields _).bind fun _ _ => ?_
  refine (eatWord_yields _).bind fun _ _ => .ite ?_ ?_
  · refine exportedName_yields.bind fun name hname => ?_
    refine (finish_yields hc.start (by simpa using hname) rfl).bind fun all hall => ?_
    refine exportSource_yields.bind fun found hfound => ?_
    exact finish_yields ho (by simp [hall, hfound.1, hfound.2]) rfl
  · refine exportSource_yields.bind fun found hfound => ?_
    exact finish_yields ho (by simp [hfound.1, hfound.2]) rfl

theorem decoratorsAfter_yields {before : List Node}
    (hbefore : SoundAll text before) :
    Yields text (decoratorsAfter grammar before) (SoundAll text) := by
  refine .ask fun _ _ _ => decorators_yields.bind fun after hafter => ?_
  refine .ite (.pure hbefore) ?_
  exact .guard (failAt_yields _ _) (.pure hafter)

theorem expressionExport_yields (ho : text.isBoundary o = true) :
    Yields text (exportDefault.expressionExport grammar o) (Node.Sound text) :=
  hg.assignment.yields.within.bind fun _ he => expectSemicolon_yields.bind fun _ _ =>
    finish_yields ho (by simpa using he) rfl

theorem exportDefault_yields (ho : text.isBoundary o = true)
    {before : List Node} (hbefore : SoundAll text before) :
    Yields text (exportDefault grammar o before) (Node.Sound text) := by
  refine (decoratorsAfter_yields hbefore).bind fun decorated hdecorated => ?_
  refine .ask fun _ c hc => .ask fun _ _ _ => ?_
  have hpair {found : Node × Node} (hfound : SoundPair text found) :
      Yields text (finish o (.moduleItem .exportDefaultDecl) [found.1, found.2])
        (Node.Sound text) :=
    finish_yields ho (by simp [hfound.1, hfound.2]) rfl
  refine .ask fun _ _ _ => ?_
  split
  · refine .ite ?_ (expressionExport_yields ho)
    refine advance_yields.bind fun _ _ => advance_yields.bind fun _ _ => ?_
    exact (namedClass_yields hc.start hdecorated _ _).bind fun _ hfound => hpair hfound
  · refine advance_yields.bind fun _ _ => ?_
    refine ((interfaceTail_yields hc.start _).gives interfaceTail_form).bind
      fun declared hdeclared => ?_
    split
    · next name generics extended elements hparts =>
      have hall := hdeclared.1.parts
      have hfits := hdeclared.1.fits
      rw [hparts] at hall hfits
      rw [hdeclared.2] at hfits
      simp only [soundAll_cons] at hall
      obtain ⟨hname, hgenerics, hextended, helements, -⟩ := hall
      obtain ⟨_, _, _, all, hboth, hlist, hall⟩ := hfits
      cases hboth
      refine .pure (.of_fits rfl ⟨name, all, generics, extended, rfl, hlist, hall⟩ ho
        hdeclared.1.stop ?_)
      simp [hname, hgenerics, hextended, helements]
    · exact fail_yields _
  · refine advance_yields.bind fun _ _ => ?_
    exact (namedClass_yields hc.start hdecorated _ _).bind fun _ hfound => hpair hfound
  · refine .ite ?_ (expressionExport_yields ho)
    refine advance_yields.bind fun _ _ => advance_yields.bind fun _ _ => ?_
    exact (namedFunction_yields hc.start _ _ _).bind fun _ hfound => hpair hfound
  · refine advance_yields.bind fun _ _ => ?_
    exact (namedFunction_yields hc.start _ _ _).bind fun _ hfound => hpair hfound
  · exact expressionExport_yields ho

theorem typeExport_yields (ho : text.isBoundary o = true)
    {decorated : List Node} (hdecorated : SoundAll text decorated) :
    Yields text (typeExport? grammar o decorated) (SoundOption text) := by
  refine .ask fun _ c hc => (eatWord_yields _).bind fun _ _ => ?_
  refine .join (ambientDeclaration?_yields hc.start hdecorated) (.pure soundOption_none)
    fun ambient hambient => ?_
  extract_lets jp
  have hjp (found : Option Node) (hfound : SoundOption text found) :
      Yields text (jp found) (SoundOption text) := by
    cases found with
    | some d => exact (finish_yields ho (by simpa using hfound) rfl).some
    | none =>
      refine (eatWord_yields _).bind fun _ _ => .ite ?_ ?_
      · refine .ask fun _ _ _ => .ask fun _ _ _ => ?_
        refine .ask fun _ _ _ => .guard advance_yields ?_
        exact anyName_reads.yields.bind fun name hname => (importEquals_yields ho _ _ hname).some
      refine (eat_yields _).bind fun _ _ => .ite ?_ ?_
      · refine hg.expression.yields.bind fun e he => expectSemicolon_yields.bind fun _ _ => ?_
        exact (finish_yields ho (by simpa using he) rfl).some
      refine (eatWord_yields _).bind fun _ _ => .ite ?_ (.pure soundOption_none)
      refine (expectWord_yields _).bind fun _ _ => identifier_reads.yields.bind fun name hname => ?_
      exact expectSemicolon_yields.bind fun _ _ => (finish_yields ho (by simpa using hname) rfl).some
  cases ambient with
  | some d => exact hjp (some d) hambient
  | none =>
    refine Yields.bind (V := SoundOption text) (.attempt ?_) hjp
    exact .ask fun _ d hd =>
      nextTypeDeclaration?_yields hd.start hdecorated _

theorem exportNames_yields (ho : text.isBoundary o = true)
    (typeOnly : Bool) : Yields text (exportNames grammar o typeOnly) (Node.Sound text) :=
  .ask fun _ _ _ => .ite (exportStar_yields ho _) (exportList_yields ho _)

theorem exportItem_yields {before : List Node}
    (hbefore : SoundAll text before) :
    Yields text (exportItem grammar before) (Node.Sound text) := by
  refine .ask fun _ c hc => (expectWord_yields _).bind fun _ _ => ?_
  refine (typeExport_yields hc.start hbefore).bind fun found hfound => ?_
  split
  · exact .pure (soundOption_some.mp hfound)
  refine (eatWord_yields _).bind fun _ _ => (eatWord_yields _).bind fun _ _ => ?_
  refine .ite (exportDefault_yields hc.start hbefore) ?_
  refine (decoratorsAfter_yields hbefore).bind fun decorated hdecorated => ?_
  refine .ask fun _ d hd => ?_
  refine .join (.pure soundOption_none) (valueDeclaration?_yields hd.start hdecorated)
    fun found hfound => ?_
  cases found with
  | some d => exact finish_yields hc.start (by simpa using hfound) rfl
  | none => exact exportNames_yields hc.start _

theorem moduleItem_yields : Yields text (moduleItem grammar) (Node.Sound text) := by
  refine .ask fun _ c hc => decorators_yields.bind
    fun decorated hdecorated => ?_
  refine .ask fun _ _ _ => ?_
  split
  · refine .ask fun _ _ _ => ?_
    exact .ite importStatement_yields importItem_yields
  · exact exportItem_yields hdecorated
  · exact plainStatement_yields _ hc.start hdecorated

/-! ## The whole grammar -/

/-- One level of the grammar keeps to the text if the levels below it do. -/
theorem goal_sound : Grammar.Sound text (goal grammar) where
  expression := expression_reads
  assignment := assignment_reads
  binary := binary_reads
  binaryAfter := by
    intro left o x c hleft hsince hc
    obtain ⟨hle, hordered, hbefore, hread⟩ := hsince
    exact .query rfl (binaryRest_leads _ 0 hc hleft hle hordered hbefore (.inl hread))
  unary := unary_reads
  leftHand := leftHand_reads
  newOrMember := newOrMember_reads
  statement := statement_yields
  moduleItem := moduleItem_yields
  binding := (bindingTarget_yields false).mono fun _ hn => hn.1
  type := typeExpr_yields
  isType := typeExpr_isType
  decorator := decorator_yields
  heritage := heritageItem_yields
  jsx := fun hc => element_leads hc _

instance parseGoal_sound (text : Text) (depth : Nat) : (parseGoal depth).Sound text := by
  induction depth with
  | zero =>
    have hnone : ∀ {V : Node → Prop} (g : Goal), Yields text (parseGoal 0 g) V :=
      fun _ => exhausted_yields
    have hreads (g : Goal) : Reads text (parseGoal 0 g) := fun _ _ hc => (hnone g).absurd hc
    exact {
      expression := hreads _
      assignment := hreads _
      binary := hreads _
      binaryAfter := fun _ _ hc => (hnone _).absurd hc
      unary := hreads _
      leftHand := hreads _
      newOrMember := hreads _
      statement := fun _ => hnone _
      moduleItem := hnone _
      binding := hnone _
      type := hnone _
      isType := .exhausted
      decorator := hnone _
      heritage := hnone _
      jsx := fun hc => (hnone _).absurd hc }
  | succ depth ih => exact goal_sound

theorem items_yields (fuel : Nat) {done : List Node}
    (hdone : SoundAll text done) : Yields text (items grammar fuel done) (SoundAll text) := by
  induction fuel generalizing done with
  | zero => exact exhausted_yields
  | succ fuel ih =>
    refine .ask fun _ _ _ => .ite (.pure (by simpa using hdone)) ?_
    exact hg.moduleItem.bind fun item hitem => ih (by simp [hitem, hdone])

theorem program_yields (text : Text) : Yields text (program text.size) (Node.Sound text) := by
  have hsize : text.isBoundary text.size = true := by
    simpa using Text.isBoundary_size_append text []
  exact (items_yields _ soundAll_nil).bind fun _ hfound =>
    .pure (.of_parts rfl isBoundary_zero hsize hfound)

theorem firstPlace_in (text : Text) : (firstPlace text).In text := by
  unfold firstPlace
  split
  · exact skipLine_reaches _ _
  · exact .refl _

end Parser

/-- Every range of a syntax tree ends at cutting places of its text, the operands of every binary
operator stand in order, and every declaration of a type has its parts in their places. -/
theorem parse_sound {dialect : Dialect} {text : Text} {tree : Node}
    (h : parse dialect text = .ok tree) : tree.Sound text := by
  unfold parse at h
  extract_lets place empty cursor whole at h
  have hplace : place.In text := Parser.firstPlace_in text
  have hcursor : cursor.In text := {
    here := hplace
    ahead := .refl _
    start_eq := rfl
    stop_eq := rfl
    short := nofun
    previousStart := hplace.isBoundary
    previousStop := hplace.isBoundary
    previous_le := Nat.le_refl _ }
  have hwhole : Parser.Leads text { dialect := dialect } cursor whole fun n _ => n.Sound text :=
    (Parser.load_leads hplace hcursor.start hcursor.stop (Nat.le_refl _) (Nat.le_refl _)
      (Nat.le_refl _)).bind fun _ d hd _ _ => Parser.program_yields text _ d hd
  unfold Parser.Leads at hwhole
  split at h
  · cases h
  · next n d hrun =>
    split at h
    · cases h
    · cases h
      rw [show whole { dialect := dialect } cursor = (.ok tree, d) from hrun] at hwhole
      exact hwhole.2.2

end Retouch.Syntax
