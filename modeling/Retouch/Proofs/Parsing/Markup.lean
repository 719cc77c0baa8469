import Retouch.Proofs.Parsing.Primary
import Retouch.Syntax.Parser.Markup

/-!
# Markup keeps to the text

Between tags the parser looks for characters and not for tokens, and it goes on at the place that
it finds. All of these characters have one byte.

- `skipUntil_reaches`, `startsShort_of_skipUntil`: the place that is found.
- `openTag_leads`, `narrow_leads`: angle brackets that stand alone.
- `children_leads`: what stands between the tags of an element.
- `element_leads`: an element or fragment.
-/

namespace Retouch.Syntax.Parser

variable {text : Text} {grammar : Grammar} [hg : grammar.Sound text] {x : Context} {c : Cursor}

/-! ## Looking for a character -/

theorem skipUntil_reaches (test : Char → Bool) (rest : Text) (n : Nat) :
    (Place.mk rest n).Reaches (skipUntil test rest n) := by
  induction rest generalizing n with
  | nil => exact .refl _
  | cons ch rest ih =>
    rw [skipUntil]
    split
    · exact .refl _
    · exact .cons (ih _)

theorem test_of_skipUntil {test : Char → Bool} {rest more : Text} {n : Nat} {ch : Char}
    (h : (skipUntil test rest n).rest = ch :: more) : test ch = true := by
  induction rest generalizing n with
  | nil => cases h
  | cons first rest ih =>
    rw [skipUntil] at h
    split at h
    · next htest =>
      cases h
      exact htest
    · exact ih h

/-- The character that is found has one byte if all characters with the property do. -/
theorem startsShort_of_skipUntil {test : Char → Bool}
    (htest : ∀ ch, test ch = true → ch.utf8Size = 1) {rest : Text} {n : Nat}
    (h : (skipUntil test rest n).rest ≠ []) :
    StartsShort (skipUntil test rest n).rest := by
  obtain ⟨ch, more, heq⟩ := List.exists_cons_of_ne_nil h
  exact ⟨ch, more, heq, htest ch (test_of_skipUntil heq)⟩

/-! ## Angle brackets -/

theorem narrow_leads (hc : c.In text) {sign other : Punct} (hsign : c.token.kind = .punct sign) :
    Leads text x c (narrow other) fun _ _ => True := by
  have hshort := hc.short sign hsign
  refine ⟨{ hc with ahead := hshort.reaches, stop_eq := rfl, short := fun _ _ => hshort },
    .of_eq rfl rfl rfl, trivial⟩

theorem endTag_yields : Yields text endTag fun _ => True := by
  intro x c hc
  refine (atCloseAngle_leads hc).bind fun b d hd _ h => ?_
  obtain ⟨rfl, hangle⟩ := h
  refine .byCases (fun hb => ?_) fun _ => (failExpected_yields _).absurd hd
  obtain ⟨sign, hsign⟩ := hangle hb
  exact narrow_leads hd hsign

theorem openTag_leads (hc : c.In text) {place : Place} (hplace : place.In text)
    (hshort : StartsShort place.rest) (hle : c.token.start ≤ place.offset) :
    Leads text x c (openTag place) fun _ _ => True := by
  refine ⟨?_, ⟨hle, Nat.le_trans hc.previous_le hle, List.suffix_refl _⟩, trivial⟩
  exact {
    here := hplace
    ahead := hshort.reaches
    start_eq := rfl
    stop_eq := rfl
    short := fun _ _ => hshort
    previousStart := hc.start
    previousStop := hplace.isBoundary
    previous_le := Nat.le_refl _ }

/-! ## Tags -/

theorem tagWord_yields : Yields text tagWord (Node.Sound text) := by
  intro x c hc
  obtain ⟨hafter, hbehind⟩ := after_in hc
  refine .query rfl ?_
  split
  · extract_lets more added offset
    have hreaches : c.after.Reaches more := by
      dsimp only [more]
      split
      · exact skipUntil_reaches _ _ _
      · exact .refl _
    have hle : c.token.start ≤ more.offset := Nat.le_trans hbehind hreaches.offset_le
    refine (resume_leads hc (hafter.reaches hreaches) hle).bind fun _ d hd _ _ => ?_
    exact finish_yields hc.start soundAll_nil rfl x d hd
  · exact (failUnexpected_yields _).absurd hc

theorem tagOrAttributeName_yields : Yields text tagOrAttributeName (Node.Sound text) := by
  refine .ask fun _ c hc => tagWord_yields.bind fun first hfirst => ?_
  refine (eat_yields _).bind fun _ _ => .ite ?_ (.pure hfirst)
  exact tagWord_yields.bind fun second hsecond => finish_yields hc.start (by simp [hfirst, hsecond]) rfl

theorem tagNameRest_yields {o : Nat} (ho : text.isBoundary o = true) (fuel : Nat) {left : Node}
    (hleft : left.Sound text) : Yields text (tagNameRest o fuel left) (Node.Sound text) := by
  induction fuel generalizing left with
  | zero => exact exhausted_yields
  | succ fuel ih =>
    refine (eat_yields _).bind fun _ _ => .ite ?_ (.pure hleft)
    refine tagWord_yields.bind fun right hright => ?_
    exact (finish_yields ho (by simp [hleft, hright]) rfl).bind fun _ hjoined => ih hjoined

theorem tagName_yields : Yields text tagName (Node.Sound text) :=
  .ask fun _ _ hc => tagOrAttributeName_yields.bind fun _ hfirst =>
    .ask fun _ _ _ => tagNameRest_yields hc.start _ hfirst

/-- An element as it is used by the rules around it. -/
theorem jsx_yields (nested : Bool) :
    Yields text (grammar (.jsx nested)) (Node.Sound text) :=
  fun _ _ hc => (hg.jsx hc).mono fun _ _ _ _ h => h.1

theorem attributeValue_yields : Yields text (attributeValue grammar) (Node.Sound text) := by
  intro x c hc
  obtain ⟨hafter, hbehind⟩ := after_in hc
  refine .query rfl ?_
  extract_lets place
  have hreaches : c.after.Reaches place := skipTrivia_reaches _
  have hplace : place.In text := hafter.reaches hreaches
  split
  · next quote rest hrest =>
    refine .byCases (fun hquote => ?_) fun _ => ?_
    · -- the value stands between two equal quotes
      have hsize : quote.utf8Size = 1 := by
        rcases (by simpa using hquote : quote = '"' ∨ quote = '\x27') with rfl | rfl
        · rfl
        · rfl
      have htest (ch : Char) (h : (ch == quote) = true) : ch.utf8Size = 1 := by
        rw [eq_of_beq h, hsize]
      extract_lets close value
      refine .byCases (fun _ => (failAt_yields _ _).stop.absurd hc) fun hopen => ?_
      have hclose : place.Reaches close := by
        have h := skipUntil_reaches (· == quote) rest (place.offset + 1)
        show (Place.mk place.rest place.offset).Reaches close
        rw [hrest]
        exact .short hsize h
      have hend := (startsShort_of_skipUntil htest (by simpa using hopen)).reaches
      have hle : c.token.start ≤ close.offset + 1 := by
        have h := hreaches.offset_le
        have h' := hclose.offset_le
        omega
      refine (resume_leads hc ((hplace.reaches hclose).reaches hend) hle).bind fun _ d hd _ _ => ?_
      exact finish_yields hplace.isBoundary soundAll_nil rfl x d hd
    · refine (advance_yields x c hc).bind fun _ d hd _ _ => ?_
      suffices h : Yields text _ (Node.Sound text) from h x d hd
      refine .ask fun _ e he => (eat_yields _).bind fun _ _ => ?_
      refine .ite ((eat_yields _).bind fun _ _ => ?_) ?_
      · refine .guard (failAt_yields _ _) (hg.expression.yields.within.bind fun inner hinner => ?_)
        exact (expect_yields _).bind fun _ _ => finish_yields he.start (by simpa using hinner) rfl
      · refine .ask fun _ _ _ => .ite ?_ (fail_yields _)
        exact (jsx_yields _).bind fun inner hinner => advance_yields.bind fun _ _ => .pure hinner
  · exact (advance_yields.bind fun _ _ => fail_yields _).absurd hc

theorem attributes_yields (fuel : Nat) {done : List Node}
    (hdone : SoundAll text done) : Yields text (attributes grammar fuel done) (SoundAll text) := by
  induction fuel generalizing done with
  | zero => exact exhausted_yields
  | succ fuel ih =>
    refine .ask fun _ c hc => .ask fun _ _ _ => ?_
    refine atCloseAngle_yields.bind fun _ _ => ?_
    refine .ite (.pure (soundAll_reverse.mpr hdone)) ?_
    refine (eat_yields _).bind fun _ _ => .ite ?_ ?_
    · refine (expect_yields _).bind fun _ _ => hg.assignment.yields.within.bind fun e he => ?_
      refine (expect_yields _).bind fun _ _ => ?_
      exact (finish_yields hc.start (by simpa using he) rfl).bind fun n hn => ih (by simp [hn, hdone])
    · refine tagOrAttributeName_yields.bind fun name hname => .ask fun _ _ _ => ?_
      refine .join attributeValue_yields (.pure sound_absent) fun value hvalue => ?_
      exact (finish_yields hc.start (by simp [hname, hvalue]) rfl).bind fun n hn =>
        ih (by simp [hn, hdone])

/-! ## Elements -/

theorem children_leads (fuel : Nat) {place : Place} {done : List Node}
    (hc : c.In text) (hplace : place.In text) (hle : c.token.start ≤ place.offset)
    (hdone : SoundAll text done) :
    Leads text x c (children grammar fuel place done) fun found _ => SoundAll text found.1 := by
  induction fuel generalizing c place done with
  | zero => exact exhausted_yields.absurd hc
  | succ fuel ih =>
    -- text ends at a character of one byte
    obtain ⟨stop, hstop, hreaches, hshort⟩ : ∃ stop,
        skipUntil (fun c => c == '<' || c == '\x7b' || c == '>' || c == '\x7d') place.rest
          place.offset = stop ∧ place.Reaches stop ∧ (stop.rest ≠ [] → StartsShort stop.rest) := by
      refine ⟨_, rfl, skipUntil_reaches _ _ _, startsShort_of_skipUntil fun ch h => ?_⟩
      simp only [Bool.or_eq_true, beq_iff_eq] at h
      rcases h with ((rfl | rfl) | rfl) | rfl
      all_goals rfl
    have hin : stop.In text := hplace.reaches hreaches
    have hbehind : c.token.start ≤ stop.offset := Nat.le_trans hle hreaches.offset_le
    have hall (raw : Text) : SoundAll text (if raw.isEmpty then done else
        .mk (.other ("text " ++ String.ofList raw)) ⟨place.offset, stop.offset⟩ [] :: done) := by
      split
      · exact hdone
      · refine soundAll_cons.mpr ⟨?_, hdone⟩
        exact .of_parts rfl hplace.isBoundary hin.isBoundary soundAll_nil
    -- a bracket that cannot stand in text is passed over
    have hskip {ch : Char} {rest : Text} {message : String} {all : List Node}
        (hrest : stop.rest = ch :: rest) (hall : SoundAll text all) :
        Leads text x c (do
          complain stop.offset message
          children grammar fuel ⟨rest, stop.offset + 1⟩ all)
          fun found _ => SoundAll text found.1 := by
      have hshort := (hshort (by simp [hrest])).reaches
      rw [hrest] at hshort
      exact .remark (complain_remarks _ _) fun notes =>
        ih (c := { c with notes := notes }) { hc with } (hin.reaches hshort)
          (Nat.le_succ_of_le hbehind) hall
    rw [children, hstop]
    split
    · exact (resume_leads hc hin hbehind).bind fun _ d hd _ _ => (failAt_yields _ _).absurd hd
    · next hrest =>
      refine (openTag_leads hc hin (hshort (by simp [hrest])) hbehind).bind fun _ d hd _ _ => ?_
      suffices h : Yields text _ fun found : List Node × Closing => SoundAll text found.1 from
        h x d hd
      refine advance_yields.bind fun _ _ => (expect_yields _).bind fun _ _ => ?_
      refine atCloseAngle_yields.bind fun _ _ => ?_
      refine .join (.pure sound_absent) tagName_yields fun name _ => ?_
      exact endTag_yields.bind fun _ _ => .pure (soundAll_reverse.mpr (hall _))
    · next hrest =>
      refine (openTag_leads hc hin (hshort (by simp [hrest])) hbehind).bind fun _ d hd _ _ => ?_
      refine (jsx_yields _ x d hd).bind fun e f hf _ he => .query rfl ?_
      obtain ⟨hafter, hfurther⟩ := after_in hf
      exact ih hf hafter hfurther (soundAll_cons.mpr ⟨he, hall _⟩)
    · refine (resume_leads hc hin hbehind).bind fun _ d hd _ _ => ?_
      refine (advance_yields x d hd).bind fun _ e he _ _ => .query rfl ?_
      refine .ite (.query rfl ?_) ?_
      · obtain ⟨hafter, hfurther⟩ := after_in he
        have hempty : (Node.mk (.other "container") ⟨stop.offset, stop.offset⟩ []).Sound text :=
          .of_parts rfl hin.isBoundary hin.isBoundary soundAll_nil
        exact ih he hafter hfurther (soundAll_cons.mpr ⟨hempty, hall _⟩)
      · refine (eat_yields _ x e he).bind fun _ f hf _ _ => ?_
        refine (hg.expression.yields.within x f hf).bind fun inner i hi _ hinner => .query rfl ?_
        refine .unless hi (failExpected_yields _) (.query rfl ?_)
        obtain ⟨hafter, hfurther⟩ := after_in hi
        refine ih hi hafter hfurther (soundAll_cons.mpr ⟨?_, hall _⟩)
        exact .of_parts rfl hinner.start hinner.stop (by simpa using hinner)
    · next hrest => exact hskip hrest (hall _)
    · next hrest => exact hskip hrest (hall _)

theorem failClosing_yields {α : Type} {V : α → Prop} (nested : Bool) (closing : Closing)
    (name : String) : Yields text (failClosing nested closing name) V := by
  have hpassed : Yields text
      (modify fun c => { c with token := { c.token with kind := .string [] } }) fun _ => True :=
    yields_modify fun c hc => ⟨{ hc with short := fun _ h => nomatch h }, .of_eq rfl rfl rfl⟩
  refine .ite ?_ (advance_yields.bind fun _ _ => failAt_yields _ _)
  exact hpassed.bind fun _ _ => failAt_yields _ _

/-- An element ends with its last token, which is still current. -/
theorem throughToken_leads (hc : c.In text) {o : Nat} {form : Form} {parts : List Node}
    (ho : text.isBoundary o = true) (hle : o ≤ c.previous.stop) (hparts : SoundAll text parts)
    (hform : form.isLoose = true) :
    Leads text x c (throughToken o >>= fun span => pure (Node.mk form span parts)) fun n d =>
      n.Sound text ∧ o ≤ n.span.start ∧ n.span.start ≤ d.previous.stop ∧
        n.span.stop = d.token.stop :=
  .query rfl (.pure hc ⟨.of_parts hform ho hc.stop hparts, Nat.le_refl _, hle, rfl⟩)

theorem element_leads (hc : c.In text) (nested : Bool) :
    Leads text x c (element grammar nested) fun n d =>
      n.Sound text ∧ c.token.start ≤ n.span.start ∧ n.span.start ≤ d.previous.stop ∧
        n.span.stop = d.token.stop := by
  refine .query rfl ((expect_leads _ hc).bind fun _ d hd hcd hpassed => ?_)
  refine (atCloseAngle_leads hd).bind fun b e he hde h => ?_
  obtain ⟨rfl, hangle⟩ := h
  refine .byCases (fun hb => ?_) fun _ => ?_
  · obtain ⟨sign, hsign⟩ := hangle hb
    refine (narrow_leads he hsign).bind fun _ f hf hef _ => .query rfl (.query rfl ?_)
    obtain ⟨hafter, hfurther⟩ := after_in hf
    refine (children_leads _ hf hafter hfurther soundAll_nil).bind
      fun found i hi hfi hfound => ?_
    refine .unless hi (failClosing_yields _ _ _) ?_
    refine throughToken_leads hi hc.start ?_ (by simpa using hfound) rfl
    exact Nat.le_trans hpassed (hef.trans hfi).2
  · refine (tagName_yields x e he).bind fun name f hf hef hname => .query rfl ?_
    have hpassed : c.token.start ≤ f.previous.stop := Nat.le_trans hpassed hef.2
    extract_lets jp
    have hjp (arguments : Option Node) (harguments : SoundOption text arguments) (d : Cursor)
        (hd : d.In text) (hle : f.le d) : Leads text x d (jp arguments) fun n e =>
          n.Sound text ∧ c.token.start ≤ n.span.start ∧ n.span.start ≤ e.previous.stop ∧
            n.span.stop = e.token.stop := by
      refine .query rfl ?_
      refine (attributes_yields _ soundAll_nil x d hd).bind
        fun attributes i hi hdi hattributes => ?_
      refine (eat_yields _ x i hi).bind fun _ j hj hij _ => .ite ?_ ?_
      · refine (endTag_yields x j hj).bind fun _ k hk hjk _ => ?_
        refine throughToken_leads hk hc.start ?_ (by simp [hname, harguments, hattributes]) rfl
        exact Nat.le_trans hpassed (((hle.trans hdi).trans hij).trans hjk).2
      · refine (endTag_yields x j hj).bind fun _ k hk hjk _ => .query rfl (.query rfl ?_)
        obtain ⟨hafter, hfurther⟩ := after_in hk
        refine (children_leads _ hk hafter hfurther soundAll_nil).bind
          fun found l hl hkl hfound => ?_
        refine .unless hl (failClosing_yields _ _ _) ?_
        refine throughToken_leads hl hc.start ?_ (by simp [hname, harguments, hattributes, hfound]) rfl
        exact Nat.le_trans hpassed ((((hle.trans hdi).trans hij).trans hjk).trans hkl).2
    refine .ite ?_ (.query rfl (hjp none soundOption_none f hf f.le_refl))
    exact (typeArguments_yields.some x f hf).bind fun arguments i hi hfi harguments =>
      hjp arguments harguments i hi hfi

end Retouch.Syntax.Parser
