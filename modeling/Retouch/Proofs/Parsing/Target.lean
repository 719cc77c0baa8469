import Retouch.Proofs.Parsing.Pattern
import Retouch.Syntax.Parser.Target

/-!
# Targets of assignments keep to the text

An expression is read again as a pattern without moving the cursor: the ranges of the pattern are
those of the expression and its parts.

- `rereadPattern_yields`: an expression as a pattern.
- `finishAssignment_leads`: the operator and the value after a target.
-/

namespace Retouch.Syntax.Parser

variable {text : Text} {grammar : Grammar} [hg : grammar.Sound text] {n : Node}

theorem checkTarget_remarks (target : Node) (denyCall : Bool) :
    Remarks (checkTarget target denyCall) :=
  .ite (complain_remarks _ _) (.ite (complain_remarks _ _) .nothing)

theorem noteTrailingComma_yields (literalStart : Nat) :
    Yields text (noteTrailingComma literalStart) fun _ => True := by
  refine .ask fun _ _ _ => ?_
  split
  · exact complain_yields _ _
  · exact .pure trivial

theorem keptExpression_yields (mode : PatternMode) {form : ExprForm} {span : Span}
    {parts : List Node} (h : (Node.mk (.expr form) span parts).Sound text) :
    Yields text (keptExpression mode form span parts) (SoundPattern text) := by
  have hkept : Yields text (pure (Node.mk (.pattern .expr) span [Node.mk (.expr form) span parts]))
      (SoundPattern text) :=
    .pure ⟨.of_parts rfl h.start h.stop (by simpa using h), rfl⟩
  unfold keptExpression
  cases mode with
  | target => exact hkept
  | element =>
    refine .ite (.ite ?_ ?_) hkept
    · exact (complain_yields _ _).bind fun _ _ => hkept
    · exact .guard (complain_yields _ _) hkept
  | binding => exact .guard (complain_yields _ _) hkept

/-- A tree that can be read again as a pattern under every mode. -/
def Rereads (text : Text) (n : Node) : Prop :=
  n.Sound text → ∀ mode, Yields text (asPattern mode n) (SoundPattern text)

/-- Elements of an array, whose spreads are read again as well. -/
theorem asElements_yields (mode : PatternMode) (literalStart : Nat) {nodes : List Node}
    (hnodes : SoundAll text nodes)
    (h : ∀ n ∈ nodes, Rereads text n ∧ ∀ m ∈ n.parts, Rereads text m) :
    Yields text (asElements mode literalStart nodes) (SoundAll text) := by
  induction nodes with
  | nil => exact .pure soundAll_nil
  | cons n rest ih =>
    obtain ⟨⟨hself, hparts⟩, hrest⟩ := List.forall_mem_cons.mp h
    obtain ⟨hn, hnodes⟩ := soundAll_cons.mp hnodes
    have hmore := ih hnodes hrest
    rw [asElements.eq_def]
    split
    · exact .pure soundAll_nil
    · next heq =>
      cases heq
      refine .ite (.pure soundAll_nil) (hmore.bind fun elements helements => ?_)
      exact .pure (by simp [hn, helements])
    · next span inner _ heq =>
      cases heq
      have hinner : inner.Sound text := by simpa [Node.parts] using hn.parts
      refine .ite (.guard (complain_yields _ _) ?_) ?_
      · refine (noteTrailingComma_yields _).bind fun _ _ => ?_
        refine (hparts inner (by simp [Node.parts]) hinner mode).bind fun target htarget => ?_
        exact .pure (by simpa using .of_parts rfl hn.start hn.stop (by simpa using htarget.1))
      · exact (complain_yields _ _).bind fun _ _ => hmore
    · next heq =>
      cases heq
      refine (hself hn mode).bind fun element helement => hmore.bind fun elements helements => ?_
      exact .pure (by simp [helement.1, helements])

theorem asProperties_yields (mode : PatternMode) (literalStart : Nat) {nodes : List Node}
    (hnodes : SoundAll text nodes) (h : ∀ n ∈ nodes, ∀ m ∈ n.parts, Rereads text m) :
    Yields text (asProperties mode literalStart nodes) (SoundAll text) := by
  induction nodes with
  | nil => exact .pure soundAll_nil
  | cons n rest ih =>
    obtain ⟨hparts, hrest⟩ := List.forall_mem_cons.mp h
    obtain ⟨hn, hnodes⟩ := soundAll_cons.mp hnodes
    have hmore := ih hnodes hrest
    rw [asProperties.eq_def]
    split
    · exact .pure soundAll_nil
    · next span inner _ heq =>
      cases heq
      have hinner : inner.Sound text := by simpa [Node.parts] using hn.parts
      extract_lets isName target jp
      have htarget (r : Unit) : Yields text (target r) (SoundAll text) := by
        refine (hparts inner (by simp [Node.parts]) hinner mode).bind fun target htarget => ?_
        refine hmore.bind fun properties hproperties => .pure ?_
        simp only [soundAll_cons]
        exact ⟨.of_parts rfl hn.start hn.stop (by simpa using htarget.1), hproperties⟩
      have hjp (r : Unit) : Yields text (jp r) (SoundAll text) :=
        .ite ((complain_yields _ _).bind fun _ _ => htarget ())
          (.guard (complain_yields _ _) (htarget ()))
      refine .ite ((noteTrailingComma_yields _).bind fun _ _ => hjp ()) ?_
      exact (complain_yields _ _).bind fun _ _ => hjp ()
    · next heq =>
      cases heq
      refine hmore.bind fun properties hproperties => .pure ?_
      simp only [soundAll_cons]
      exact ⟨.of_parts rfl hn.start hn.stop (by simp), hproperties⟩
    · next heq =>
      cases heq
      have hvalue := hn.parts
      simp only [Node.parts, soundAll_cons] at hvalue
      refine hmore.bind fun properties hproperties => .pure ?_
      simp only [soundAll_cons]
      exact ⟨.of_parts rfl hn.start hn.stop (by simp [hvalue.2.1]), hproperties⟩
    · next key value _ heq =>
      cases heq
      have hboth := hn.parts
      simp only [Node.parts, soundAll_cons] at hboth
      refine (hparts value (by simp [Node.parts]) hboth.2.1 mode).bind fun target htarget => ?_
      refine hmore.bind fun properties hproperties => .pure ?_
      simp only [soundAll_cons]
      exact ⟨.of_parts rfl hn.start hn.stop (by simp [hboth.1, htarget.1]), hproperties⟩
    · next heq =>
      cases heq
      split
      · exact failAt_yields _ _
      · refine hmore.bind fun properties hproperties => .pure ?_
        simp [hn, hproperties]

/-- Every tree can be read again, and so can its parts: spreads hand on what they hold. -/
theorem rereads : ∀ n : Node, Rereads text n ∧ ∀ m ∈ n.parts, Rereads text m
  | .mk form span parts => by
    have ih (m : Node) (hm : m ∈ parts) : Rereads text m ∧ ∀ k ∈ m.parts, Rereads text k :=
      rereads m
    refine ⟨fun h mode => ?_, fun m hm => (ih m hm).1⟩
    rw [asPattern.eq_def]
    split
    · next heq =>
      cases heq
      exact .guard (complain_yields _ _) (.pure ⟨.of_parts rfl h.start h.stop (by simp), rfl⟩)
    · next heq =>
      cases heq
      exact (asElements_yields _ _ h.parts ih).bind fun elements helements =>
        .pure ⟨.of_parts rfl h.start h.stop (by simpa using helements), rfl⟩
    · next heq =>
      cases heq
      exact (asProperties_yields _ _ h.parts fun n hn => (ih n hn).2).bind
        fun properties hproperties =>
          .pure ⟨.of_parts rfl h.start h.stop (by simpa using hproperties), rfl⟩
    · next heq =>
      cases heq
      refine .ite (.pure ⟨.of_parts rfl h.start h.stop h.parts, rfl⟩) ?_
      exact (complain_yields _ _).bind fun _ _ =>
        .pure ⟨.of_parts rfl h.start h.stop (by simpa using h), rfl⟩
    · next heq =>
      cases heq
      exact keptExpression_yields mode h
    · next hexpr heq =>
      cases heq
      refine .pure ⟨h, ?_⟩
      cases form with
      | expr e => exact absurd rfl (hexpr e)
      | _ => rfl

theorem rereadPattern_yields (mode : PatternMode) (hn : n.Sound text) :
    Yields text (rereadPattern mode n) (SoundPattern text) := by
  have hpattern := (rereads n).1 hn mode
  refine .ite ?_ hpattern
  split
  · exact hpattern
  · exact hpattern
  · exact hpattern
  · exact (checkTarget_remarks _ _).yields.bind fun _ _ => hpattern

theorem noteRestrictedIn_remarks_of {nodes : List Node}
    (h : ∀ n ∈ nodes, Remarks (noteRestrictedNames n)) : Remarks (noteRestrictedIn nodes) := by
  induction nodes with
  | nil => exact .nothing
  | cons n rest ih =>
    obtain ⟨hn, hrest⟩ := List.forall_mem_cons.mp h
    exact hn.bind (ih hrest)

theorem noteRestrictedNames_remarks : ∀ n : Node, Remarks (noteRestrictedNames n)
  | .mk form span parts => by
    have ih (m : Node) (hm : m ∈ parts) := noteRestrictedNames_remarks m
    rw [noteRestrictedNames.eq_def]
    split
    · next heq =>
      cases heq
      exact noteRestricted_remarks _ _
    · next heq =>
      cases heq
      exact noteRestricted_remarks _ _
    · next heq =>
      cases heq
      exact ih _ (by simp)
    · next heq =>
      cases heq
      exact ih _ (by simp)
    · exact .nothing
    · next heq =>
      cases heq
      exact noteRestrictedIn_remarks_of ih
    · next heq =>
      cases heq
      exact noteRestrictedIn_remarks_of ih
    · exact .nothing

theorem noteRestrictedIn_remarks (nodes : List Node) : Remarks (noteRestrictedIn nodes) :=
  noteRestrictedIn_remarks_of fun n _ => noteRestrictedNames_remarks n

/-! ## Assignments -/

theorem atAssignOp_yields : Yields text atAssignOp? fun _ => True := by
  refine .ask fun _ _ _ => ?_
  split
  · exact .pure trivial
  · exact .pure trivial

/-- A target is kept as it is, or becomes the left side of an assignment that starts with it. -/
theorem finishAssignment_leads {x : Context} {c : Cursor} {o : Nat} {target : Node}
    (hc : c.In text) (ho : text.isBoundary o = true)
    (htarget : target.Sound text) (hsince : target.Since o c) :
    Leads text x c (finishAssignment grammar o target) fun n d => n.Sound text ∧ n.Since o d := by
  refine (atAssignOp_yields x c hc).bind fun op d hd hle _ => ?_
  split
  · exact .pure hd ⟨htarget, hsince.le hle⟩
  · have hbehind : o ≤ d.previous.stop := by
      have h := hsince.le hle
      simp only [Node.Since] at h
      omega
    suffices h : Completes text o _ from h x d hd hbehind
    extract_lets assigned plain
    have hassigned (left : Node) (hleft : left.Sound text) :
        Completes text o (assigned left) := by
      refine .guard (failAt_yields _ _) (.bind advance_yields fun _ _ => ?_)
      refine .bind hg.assignment.yields fun value hvalue => ?_
      exact .finish ho (by simp [hleft, hvalue]) rfl
    have hplain (r : Unit) : Completes text o (plain r) := by
      unfold plain
      split
      · exact .bind (.pure (.of_parts rfl htarget.start htarget.stop (by simp))) hassigned
      · exact .bind (.pure (.of_parts rfl htarget.start htarget.stop (by simpa using htarget)))
          hassigned
    refine .ite ?_ ?_
    · exact .bind (rereadPattern_yields _ htarget) fun left hleft => hassigned left hleft.1
    · exact .guard (complain_yields _ _) (.guard (complain_yields _ _) (hplain ()))

end Retouch.Syntax.Parser
