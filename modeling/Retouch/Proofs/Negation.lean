import Retouch.Proofs.Lexing
import Retouch.Proofs.Slices
import Retouch.Proofs.Words

/-!
# The negation of a test

The negation of a test is written from the text of the test. A negation is taken away, other
expressions get one, and an equality gets the opposite operator. The operator is searched for in
the text between the operands, where it is also found in a comment that stands before it.

- `Valuation.holds`: whether a test holds, given what its subexpressions are worth.
- `Spells`: the texts of expressions that are put together from those of a document.
- `Comparison`: where the operator of an equality stands. It is given, not read off the tree, which
  has no tokens.
- `Operands`: the text of an equality, cut at its operands.
- `negate_exchanges_iff`: when the text of the negation means the negation.
-/

namespace Retouch

namespace Syntax

/-! ## The end of white space and comments -/

/-- White space and comments end with white space or with the last sign of a comment. -/
theorem triviaFrom_endsBlank {text : Text} {n : Nat} {b : Bool} {notes : List SyntaxError}
    {mode : TriviaMode} (hrest : (triviaFrom text n b notes mode).place.rest ≠ []) :
    ∃ read, text = read ++ (triviaFrom text n b notes mode).place.rest ∧
      (mode = .blank ∧ read = [] ∨ ∃ c, [c] <:+ read ∧ (isGap c = true ∨ c = '/')) := by
  -- from the rest of the comment or blank on
  have hlater (piece : Text) {rest text' : Text} {mode' : TriviaMode}
      (h : ∃ read, text' = read ++ rest ∧
        (mode' = .blank ∧ read = [] ∨ ∃ c, [c] <:+ read ∧ (isGap c = true ∨ c = '/')))
      (hpiece : mode' = .blank → ∃ c, [c] <:+ piece ∧ (isGap c = true ∨ c = '/')) :
      ∃ read, piece ++ text' = read ++ rest ∧
        ∃ c, [c] <:+ read ∧ (isGap c = true ∨ c = '/') := by
    obtain ⟨read, rfl, ⟨hmode, rfl⟩ | ⟨c, hlast, hc⟩⟩ := h
    · exact ⟨piece, rfl, hpiece hmode⟩
    · exact ⟨piece ++ read, (List.append_assoc ..).symm, c, hlast.trans (List.suffix_append ..), hc⟩
  have hright {text rest : Text} {mode : TriviaMode}
      (h : ∃ read, text = read ++ rest ∧ ∃ c, [c] <:+ read ∧ (isGap c = true ∨ c = '/')) :
      ∃ read, text = read ++ rest ∧
        (mode = .blank ∧ read = [] ∨ ∃ c, [c] <:+ read ∧ (isGap c = true ∨ c = '/')) :=
    h.imp fun read hread => ⟨hread.1, .inr hread.2⟩
  fun_induction triviaFrom text n b notes mode with
  | case1 | case2 => exact absurd rfl hrest
  | case3 c rest n b notes hc ih =>
    exact hright (hlater [c] (ih hrest) fun _ =>
      ⟨c, List.suffix_refl _, .inl (by rw [isGap, hc, Bool.true_or])⟩)
  | case4 c rest n b notes hc ih => exact hright (hlater [c] (ih hrest) (by rintro ⟨⟩))
  | case5 rest n b notes start ih =>
    exact hright (hlater ['*', '/'] (ih hrest) fun _ => ⟨'/', List.suffix_cons .., .inr rfl⟩)
  | case6 c rest n b notes start _ ih => exact hright (hlater [c] (ih hrest) (by rintro ⟨⟩))
  | case7 rest n b notes ih => exact hright (hlater ['/', '/'] (ih hrest) (by rintro ⟨⟩))
  | case8 rest n b notes ih => exact hright (hlater ['/', '*'] (ih hrest) (by rintro ⟨⟩))
  | case9 rest n b notes ih => exact hright (hlater ['<', '!', '-', '-'] (ih hrest) (by rintro ⟨⟩))
  | case10 rest n notes ih => exact hright (hlater ['-', '-', '>'] (ih hrest) (by rintro ⟨⟩))
  | case11 c rest n b notes _ _ _ _ hc ih =>
    exact hright (hlater [c] (ih hrest) fun _ =>
      ⟨c, List.suffix_refl _, .inl (by rw [isGap, hc, Bool.true_or])⟩)
  | case12 c rest n b notes _ _ _ _ _ hc ih =>
    exact hright (hlater [c] (ih hrest) fun _ =>
      ⟨c, List.suffix_refl _, .inl (by rw [isGap, hc, Bool.or_true])⟩)
  | case13 c rest n b notes _ _ _ _ _ _ _ ih => exact hright (hlater [c] (ih hrest) (by rintro ⟨⟩))
  | case14 => exact ⟨[], rfl, .inl ⟨rfl, rfl⟩⟩

end Syntax

namespace Ternary

open Syntax (Node Form BinaryOp skipTrivia isGap)

/-! ## What tests mean -/

/-- What an equality operator asks: whether it is strict, and whether it is negated. -/
def equality? : BinaryOp → Option (Bool × Bool)
  | .eqEqEq => some (true, false)
  | .notEqEq => some (true, true)
  | .eqEq => some (false, false)
  | .notEq => some (false, true)
  | _ => none

/-- What expressions are worth: which of them count as true, and which two are equal, strictly or
not. -/
structure Valuation where
  truth : Node → Bool
  equal : Bool → Node → Node → Bool

/-- Whether a test holds. Parentheses do not matter, and `!` and the negated operators negate. -/
def Valuation.holds (v : Valuation) : Node → Bool
  | .mk (.expr .paren) _ [inner] => v.holds inner
  | .mk (.expr (.unary .bang)) _ [operand] => !v.holds operand
  | .mk (.expr (.binary op)) span [left, right] =>
    match equality? op with
    | some (strict, negated) => v.equal strict left right != negated
    | none => v.truth (.mk (.expr (.binary op)) span [left, right])
  | n => v.truth n

/-- The opposite operator asks for the opposite. -/
theorem equality?_opposite {op other : BinaryOp} (h : opposite? op = some other) :
    ∃ strict negated, equality? op = some (strict, negated) ∧
      equality? other = some (strict, !negated) := by
  cases op <;> cases h
  all_goals exact ⟨_, _, rfl, rfl⟩

/-- An equality is written with a comparison operator between its operands. This says where: behind
the left operand, white space and comments come first, and then the scanner finds the operator. -/
structure Comparison (d : Document) (test : Node) where
  op : BinaryOp
  other : BinaryOp
  span : Span
  left : Node
  right : Node
  /-- the text up to the end of the left operand -/
  front : Text
  /-- the white space and comments before the operator -/
  before : Text
  /-- the text behind the operator -/
  behind : Text
  test_eq : test = .mk (.expr (.binary op)) span [left, right]
  opposite : opposite? op = some other
  text_eq : d.text = front ++ (before ++ (op.text.toList ++ behind))
  left_stop : (d.range left.span).stop = Text.size front
  finds : (skipTrivia ⟨before ++ (op.text.toList ++ behind), Text.size front⟩).place.rest =
    op.text.toList ++ behind
  right_start : Text.size (front ++ before ++ op.text.toList) ≤ (d.range right.span).start

/-- Expressions that a negation in front of them negates as a whole. -/
def bindsTightly (n : Node) : Bool :=
  match n.form with
  | .expr (.binary _) | .expr .conditional | .expr (.assign _) | .expr .sequence
  | .expr (.arrow _) | .expr (.yieldExpr _) | .expr .asType | .expr .asConst | .expr .satisfies
  | .expr .invalid => false
  | .expr _ => true
  | _ => false

/-- A text of an expression: that of a construct in the document, one with another operator in the
place of the operator of an equality, or one with parentheses or a negation around it. -/
inductive Spells (d : Document) : Text → Node → Prop where
  | source {n : Node} {text : Text} (hheld : d.program.Holds n)
      (htext : d.slice (d.range n.span) = .ok text) : Spells d text n
  | exchange {test : Node} {head tail : Text} (hheld : d.program.Holds test)
      (c : Comparison d test)
      (htext : d.slice (d.range test.span) = .ok (head ++ c.op.text.toList ++ tail))
      (hhead : (d.range test.span).start + Text.size head = Text.size (c.front ++ c.before))
      {op : BinaryOp} (hop : (equality? op).isSome = true) :
      Spells d (head ++ op.text.toList ++ tail) (.mk (.expr (.binary op)) c.span [c.left, c.right])
  | paren {n : Node} {text : Text} (h : Spells d text n) :
      Spells d ("(".toList ++ text ++ ")".toList) (.mk (.expr .paren) ⟨0, 0⟩ [n])
  | bang {n : Node} {text : Text} (h : Spells d text n) (htight : bindsTightly n = true) :
      Spells d ('!' :: text) (.mk (.expr (.unary .bang)) ⟨0, 0⟩ [n])

/-- A text of an expression that holds exactly when the test does not. -/
def Negates (d : Document) (out : Text) (test : Node) : Prop :=
  ∃ n, Spells d out n ∧ ∀ v : Valuation, v.holds n = !v.holds test

variable {d : Document} {test : Node}

/-! ## Tests other than equalities -/

theorem bindsTightly_of_takesNegation {n : Node} (h : takesNegation n = true) :
    bindsTightly n = true := by
  unfold takesNegation at h
  unfold bindsTightly
  split at h
  case h_14 => cases h
  all_goals
    next hform =>
      rw [hform]

/-- The text of a construct of a sound document. -/
theorem exists_source (hsound : d.IsSound) {n : Node} (hheld : d.program.Holds n) :
    ∃ text, d.slice (d.range n.span) = .ok text :=
  d.exists_slice (Document.IsSound.cutsAt (Syntax.Node.Sound.of_holds hsound hheld))
    (d.range_ordered n.span)

/-- A construct with a negation and parentheses around it. -/
theorem Spells.wrapped {n : Node} {text : Text} (h : Spells d text n) :
    Spells d ("!(".toList ++ text ++ ")".toList)
      (.mk (.expr (.unary .bang)) ⟨0, 0⟩ [.mk (.expr .paren) ⟨0, 0⟩ [n]]) :=
  h.paren.bang rfl

theorem negated_holds {operand : Node} (hheld : d.program.Holds operand) :
    d.program.Holds (negated operand) ∧ ∀ v : Valuation, v.holds (negated operand) = v.holds operand := by
  unfold negated
  split
  · next span inner =>
    split
    · exact ⟨hheld, fun _ => rfl⟩
    · exact ⟨hheld.trans (.part List.mem_cons_self (.root inner)), fun v => by rw [Valuation.holds]⟩
  · exact ⟨hheld, fun _ => rfl⟩

/-- The negation of a test that is no equality is written, and means the negation. -/
theorem exists_negation (hsound : d.IsSound) (hheld : d.program.Holds test)
    (hother : ∀ op span left right, test = .mk (.expr (.binary op)) span [left, right] →
      opposite? op = none) :
    ∃ out, negate d test = .ok out ∧ Negates d out test := by
  obtain ⟨text, htext⟩ := exists_source hsound hheld
  have hsource : Spells d text test := .source hheld htext
  have hwrapped (v : Valuation) : v.holds (.mk (.expr (.unary .bang)) ⟨0, 0⟩
      [.mk (.expr .paren) ⟨0, 0⟩ [test]]) = !v.holds test := by
    rw [Valuation.holds, Valuation.holds]
  unfold negate
  rw [htext]
  simp only [bind, Except.bind]
  split
  · next span operand =>
    have hoperand : d.program.Holds operand :=
      hheld.trans (.part List.mem_cons_self (.root operand))
    obtain ⟨hinner, hsame⟩ := negated_holds hoperand
    obtain ⟨out, hout⟩ := exists_source hsound hinner
    refine ⟨out, hout, negated operand, .source hinner hout, fun v => ?_⟩
    rw [hsame, Valuation.holds, Bool.not_not]
  · next op span left right =>
    rw [hother op span left right rfl]
    exact ⟨_, rfl, _, hsource.wrapped, hwrapped⟩
  · split
    · next htight =>
      refine ⟨_, rfl, _, hsource.bang (bindsTightly_of_takesNegation htight), fun v => ?_⟩
      rw [Valuation.holds]
    · exact ⟨_, rfl, _, hsource.wrapped, hwrapped⟩

/-! ## Equalities -/

/-- The text of a document, cut at the operands of an expression with two of them. -/
structure Operands (d : Document) (span : Span) (left right : Node) where
  /-- the text up to the expression -/
  pre : Text
  /-- the left operand, with what stands before it in the expression -/
  first : Text
  /-- what stands between the operands -/
  between : Text
  /-- the right operand, with what stands behind it in the expression -/
  second : Text
  /-- the text from the end of the expression on -/
  post : Text
  text_eq : d.text = pre ++ (first ++ (between ++ (second ++ post)))
  start : (d.range span).start = Text.size pre
  left_stop : (d.range left.span).stop = Text.size (pre ++ first)
  right_start : (d.range right.span).start = Text.size (pre ++ first ++ between)
  stop : (d.range span).stop = Text.size (pre ++ first ++ between ++ second)

theorem exists_operands {op : BinaryOp} {span : Span} {left right : Node}
    (hsound : (Node.mk (.expr (.binary op)) span [left, right]).Sound d.text) :
    Nonempty (Operands d span left right) := by
  have hspan : d.range span = ⟨span.start, max span.start span.stop⟩ :=
    Document.IsSound.range hsound
  cases hsound with
  | mk hstart hstop hparts hbinary _ =>
    obtain ⟨left, right, hboth, hfrom, hleft, hbetween, hright, hto⟩ := hbinary rfl
    cases hboth
    have hleftSound : left.Sound d.text := hparts _ (by simp)
    have hrightSound : right.Sound d.text := hparts _ (by simp)
    obtain ⟨pre, later, hpre, hpreSize⟩ := Text.isBoundary_iff.mp hstart
    obtain ⟨upLeft, fromLeft, hupLeft, hupLeftSize⟩ := Text.isBoundary_iff.mp hleftSound.stop
    obtain ⟨upRight, fromRight, hupRight, hupRightSize⟩ := Text.isBoundary_iff.mp hrightSound.start
    obtain ⟨whole, post, hwhole, hwholeSize⟩ := Text.isBoundary_iff.mp hstop
    -- each of the four places lies behind the one before it
    obtain ⟨first, rfl, -⟩ := Text.exists_middle (hpre.symm.trans hupLeft) (by omega)
    obtain ⟨between, rfl, -⟩ := Text.exists_middle (hupLeft.symm.trans hupRight) (by omega)
    obtain ⟨second, rfl, -⟩ := Text.exists_middle (hupRight.symm.trans hwhole) (by omega)
    exact ⟨{
      pre, first, between, second, post
      text_eq := by simp [hwhole]
      start := by rw [hspan, hpreSize]
      left_stop := by
        rw [Document.IsSound.range hleftSound, hupLeftSize]
        exact Nat.max_eq_right hleft
      right_start := by rw [Document.IsSound.range hrightSound, hupRightSize]
      stop := by
        rw [hspan, hwholeSize]
        exact Nat.max_eq_right (by omega) }⟩

namespace Operands

variable {span : Span} {left right : Node} (o : Operands d span left right)

theorem slice_eq : d.slice (d.range span) = .ok (o.first ++ o.between ++ o.second) := by
  refine Document.slice_eq_ok.mpr (Text.slice?_eq_some_iff.mpr ⟨o.pre, o.post, ?_⟩)
  simp [o.text_eq, o.start, o.stop]

/-- The first operator text between the operands is exchanged. -/
theorem flipEquality_eq {old : String} (new : String) {before after : Text}
    (hfound : Text.splitFirst? old.toList o.between = some (before, after)) :
    flipEquality d span left.span right.span old new =
      .ok (o.first ++ before ++ new.toList ++ (after ++ o.second)) := by
  have hbetween := Text.eq_append_of_splitFirst? hfound
  have hgap : d.slice ⟨(d.range left.span).stop, (d.range right.span).start⟩ = .ok o.between := by
    refine Document.slice_eq_ok.mpr (Text.slice?_eq_some_iff.mpr
      ⟨o.pre ++ o.first, o.second ++ o.post, ?_⟩)
    simp [o.text_eq, o.left_stop, o.right_start, Nat.add_assoc]
  have hhead : d.slice ⟨(d.range span).start, (d.range left.span).stop + Text.size before⟩ =
      .ok (o.first ++ before) := by
    refine Document.slice_eq_ok.mpr (Text.slice?_eq_some_iff.mpr
      ⟨o.pre, old.toList ++ after ++ (o.second ++ o.post), ?_⟩)
    simp [o.text_eq, o.start, o.left_stop, hbetween, Nat.add_assoc]
  have htail : d.slice ⟨(d.range left.span).stop + Text.size before + Text.size old.toList,
      (d.range span).stop⟩ = .ok (after ++ o.second) := by
    refine Document.slice_eq_ok.mpr (Text.slice?_eq_some_iff.mpr
      ⟨o.pre ++ o.first ++ before ++ old.toList, o.post, ?_⟩)
    simp [o.text_eq, o.left_stop, o.stop, hbetween, Nat.add_assoc]
  simp only [flipEquality, bind, Except.bind, hgap, hfound, hhead, htail]
  rfl

/-- The negation of an equality keeps both operands, and exchanges the first operator text between
them. -/
theorem negate_eq {op other : BinaryOp} (hopposite : opposite? op = some other)
    {before after : Text}
    (hfound : Text.splitFirst? op.text.toList o.between = some (before, after)) :
    negate d (.mk (.expr (.binary op)) span [left, right]) =
      .ok (o.first ++ before ++ other.text.toList ++ (after ++ o.second)) := by
  simp only [negate, Node.span, o.slice_eq, hopposite]
  exact o.flipEquality_eq other.text hfound

end Operands

namespace Comparison

variable (c : Comparison d test)

/-- The operator and the other one are different texts of one length, of two signs. -/
theorem texts_differ : c.op.text.toList ≠ c.other.text.toList ∧
    c.op.text.toList.length = c.other.text.toList.length ∧
    c.op.text.toList ⊆ ['=', '!'] := by
  have h := c.opposite
  generalize c.op = op, c.other = other at h
  cases op <;> cases h
  all_goals decide

theorem text_ne_nil : c.op.text.toList ≠ [] := by
  obtain ⟨hne, hlength, -⟩ := c.texts_differ
  intro hnil
  rw [hnil] at hne hlength
  exact hne (List.length_eq_zero_iff.mp hlength.symm).symm

/-- What stands before the operator does not end with a sign of the operator. -/
theorem before_endsBlank (sign : Char) (hlast : [sign] <:+ c.before) :
    sign ∉ c.op.text.toList := by
  have hfinds := c.finds
  unfold skipTrivia at hfinds
  obtain ⟨read, hread, hend⟩ := Syntax.triviaFrom_endsBlank (by
    rw [hfinds]
    exact fun h => c.text_ne_nil (List.append_eq_nil_iff.mp h).1)
  rw [hfinds] at hread
  obtain rfl := List.append_cancel_right hread
  obtain ⟨-, hnil⟩ | ⟨last, hlast', hblank⟩ := hend
  · rw [hnil] at hlast
    cases List.suffix_nil.mp hlast
  · obtain rfl : sign = last := by
      obtain ⟨_, h⟩ := hlast
      obtain ⟨_, h'⟩ := hlast'
      exact (List.cons_eq_cons.mp (List.append_inj' (h.trans h'.symm) rfl).2).1
    intro hmem
    rcases List.mem_pair.mp (c.texts_differ.2.2 hmem) with rfl | rfl
    · exact absurd hblank (by decide)
    · exact absurd hblank (by decide)

/-- The operator stands between the operands. -/
theorem exists_gap (o : Operands d c.span c.left c.right) :
    c.front = o.pre ++ o.first ∧ ∃ gap, o.between = c.before ++ c.op.text.toList ++ gap := by
  have htext : c.front ++ (c.before ++ (c.op.text.toList ++ c.behind)) =
      (o.pre ++ o.first) ++ (o.between ++ (o.second ++ o.post)) := by
    rw [← c.text_eq, o.text_eq, List.append_assoc]
  obtain ⟨hfront, hrest⟩ := Text.append_inj_of_size htext (c.left_stop.symm.trans o.left_stop)
  rw [← List.append_assoc] at hrest
  have hsize := c.right_start
  rw [o.right_start, hfront] at hsize
  obtain ⟨gap, hgap, -⟩ := Text.exists_middle hrest (by simp at hsize ⊢; omega)
  exact ⟨hfront, gap, hgap⟩

theorem holds_exchanged (v : Valuation) :
    v.holds (.mk (.expr (.binary c.other)) c.span [c.left, c.right]) = !v.holds test := by
  obtain ⟨strict, negated, hop, hother⟩ := equality?_opposite c.opposite
  have htest : v.holds test = (v.equal strict c.left c.right != negated) := by
    refine (congrArg v.holds c.test_eq).trans ?_
    rw [Valuation.holds, hop]
  rw [htest, Valuation.holds, hother]
  cases negated <;> simp

/-- Where the first operator text between the operands is, with the operator itself as the last
place it can be at. -/
theorem splitFirst?_between {between gap : Text}
    (hbetween : between = c.before ++ c.op.text.toList ++ gap) :
    (¬c.op.text.toList <:+: c.before ∧
      Text.splitFirst? c.op.text.toList between = some (c.before, gap)) ∨
    ∃ first second, c.before = first ++ c.op.text.toList ++ second ∧
      Text.splitFirst? c.op.text.toList between =
        some (first, second ++ (c.op.text.toList ++ gap)) := by
  rw [hbetween]
  by_cases hoccurs : c.op.text.toList <:+: c.before
  · obtain ⟨first, second, hfound, hbefore⟩ := Text.exists_splitFirst? hoccurs
    refine .inr ⟨first, second, hbefore, ?_⟩
    rw [List.append_assoc]
    exact Text.splitFirst?_append hfound _
  · exact .inl ⟨hoccurs,
      Text.splitFirst?_of_not_infix c.text_ne_nil c.before_endsBlank hoccurs gap⟩

end Comparison

/-! ## The tests of conditional expressions -/

theorem holds_test {n : Node} {target : Target} (hheld : d.program.Holds n)
    (htarget : targetIn? n = some target) : d.program.Holds target.test := by
  unfold targetIn? at htarget
  split at htarget
  · next test yes no _ hparts =>
    cases htarget
    exact hheld.trans (.part (hparts ▸ List.mem_cons_self) (.root test))
  · cases htarget

/-- The negation of a test that is no equality is written, and means the negation. That of an
equality keeps both operands, and exchanges the first operator text between them. That is exactly
the operator, and the text then means the negation, if and only if no comment before the operator
has the text of the operator in it. Otherwise a comment is changed, and the operator is kept. -/
theorem negate_exchanges_iff {dialect : Syntax.Dialect} {text : Text}
    (hparse : Document.parse dialect text = .ok d) (hmark : Document.withoutMark text = text)
    {n : Node} {target : Target} (hheld : d.program.Holds n)
    (htarget : targetIn? n = some target) :
    ((∀ op span left right, target.test = .mk (.expr (.binary op)) span [left, right] →
        opposite? op = none) →
      ∃ out, negate d target.test = .ok out ∧ Negates d out target.test) ∧
    (∀ op other span left right, target.test = .mk (.expr (.binary op)) span [left, right] →
      opposite? op = some other → ∃ o : Operands d span left right,
        d.slice (d.range span) = .ok (o.first ++ o.between ++ o.second) ∧
        ∀ before after, Text.splitFirst? op.text.toList o.between = some (before, after) →
          negate d target.test =
            .ok (o.first ++ before ++ other.text.toList ++ (after ++ o.second))) ∧
    ∀ c : Comparison d target.test, ∃ head tail out,
      d.slice (d.range target.test.span) = .ok (head ++ c.op.text.toList ++ tail) ∧
      (d.range target.test.span).start + Text.size head = Text.size (c.front ++ c.before) ∧
      negate d target.test = .ok out ∧
      (out = head ++ c.other.text.toList ++ tail ↔ ¬c.op.text.toList <:+: c.before) ∧
      (¬c.op.text.toList <:+: c.before → Negates d out target.test) ∧
      (c.op.text.toList <:+: c.before → ∃ first second,
        head = first ++ c.op.text.toList ++ second ∧
        out = first ++ c.other.text.toList ++ second ++ c.op.text.toList ++ tail) := by
  obtain ⟨htext, hprogram⟩ := Document.parse_eq_ok hparse
  have hsound : d.IsSound := by
    rwa [hmark, ← htext] at hprogram
  have htest := holds_test hheld htarget
  have htestSound := hsound.of_holds htest
  refine ⟨exists_negation hsound htest, fun op other span left right heq hopposite => ?_,
    fun c => ?_⟩
  · rw [heq] at htestSound ⊢
    obtain ⟨o⟩ := exists_operands htestSound
    exact ⟨o, o.slice_eq, fun before after => o.negate_eq hopposite⟩
  · obtain ⟨o⟩ := exists_operands (c.test_eq ▸ htestSound)
    obtain ⟨hfront, gap, hbetween⟩ := c.exists_gap o
    have hspan : target.test.span = c.span := congrArg Node.span c.test_eq
    have hslice : d.slice (d.range target.test.span) =
        .ok (o.first ++ c.before ++ c.op.text.toList ++ (gap ++ o.second)) := by
      rw [hspan, o.slice_eq, hbetween]
      simp
    have hhead : (d.range target.test.span).start + Text.size (o.first ++ c.before) =
        Text.size (c.front ++ c.before) := by
      rw [hspan, o.start, hfront]
      simp
    have hnegate {before after : Text}
        (hfound : Text.splitFirst? c.op.text.toList o.between = some (before, after)) :=
      (congrArg (negate d) c.test_eq).trans (o.negate_eq c.opposite hfound)
    refine ⟨o.first ++ c.before, gap ++ o.second, ?_⟩
    obtain ⟨hoccurs, hfound⟩ | ⟨first, second, hbefore, hfound⟩ := c.splitFirst?_between hbetween
    · have hspells : Spells d (o.first ++ c.before ++ c.other.text.toList ++ (gap ++ o.second))
          (.mk (.expr (.binary c.other)) c.span [c.left, c.right]) := by
        refine .exchange htest c hslice hhead ?_
        obtain ⟨strict, negated, -, hother⟩ := equality?_opposite c.opposite
        rw [hother]
        rfl
      exact ⟨_, hslice, hhead, hnegate hfound, iff_of_true rfl hoccurs,
        fun _ => ⟨_, hspells, c.holds_exchanged⟩, fun h => absurd h hoccurs⟩
    · have hoccurs : c.op.text.toList <:+: c.before := ⟨first, second, hbefore.symm⟩
      have hout : o.first ++ first ++ c.other.text.toList ++
            (second ++ (c.op.text.toList ++ gap) ++ o.second) =
          o.first ++ first ++ c.other.text.toList ++ second ++ c.op.text.toList ++
            (gap ++ o.second) := by
        simp
      refine ⟨_, hslice, hhead, hnegate hfound, iff_of_false (fun h => ?_) (not_not_intro hoccurs),
        absurd hoccurs, fun _ => ⟨o.first ++ first, second, by rw [hbefore]; simp, hout⟩⟩
      -- the operator is kept, so it is not the other one
      have hkept := (List.append_inj' (hout.symm.trans h) rfl).1
      exact c.texts_differ.1 (List.append_inj' hkept c.texts_differ.2.1).2

/-- The operator of a test, and where its left operand ends and its right operand starts. -/
def operandsIn? (d : Document) (test : Node) : Option (BinaryOp × Nat × Nat) :=
  match test with
  | .mk (.expr (.binary op)) _ [left, right] =>
    some (op, (d.range left.span).stop, (d.range right.span).start)
  | _ => none

/-- A comment that does not have the operator in it stays, and the test gets the opposite operator. -/
theorem negate_exchanges_commented :
    ∃ d target out, Document.parse {} "a /* is */ == b ? c : d".toList = .ok d ∧
      target? (Tree.ofDocument d) (.cursor ⟨0, 0⟩) = some target ∧
      negate d target.test = .ok out ∧ out = "a /* is */ != b".toList ∧
      Negates d out target.test := by
  obtain ⟨d, hd, htext, htest⟩ :
      ∃ d, Document.parse {} "a /* is */ == b ? c : d".toList = .ok d ∧
        d.text = "a /* is */ == b ? c : d".toList ∧
        ((target? (Tree.ofDocument d) (.cursor ⟨0, 0⟩)).bind fun target =>
          (operandsIn? d target.test).map fun x =>
            (x, (negate d target.test).toOption.getD [])) =
          some ((.eqEq, 1, 14), "a /* is */ != b".toList) :=
    Document.exists_parse (by decide +kernel)
  obtain ⟨target, htarget, hoperands⟩ := Option.bind_eq_some_iff.mp htest
  obtain ⟨x, hoperands, hx⟩ := Option.map_eq_some_iff.mp hoperands
  simp only [Prod.mk.injEq] at hx
  obtain ⟨rfl, hout⟩ := hx
  unfold operandsIn? at hoperands
  split at hoperands
  · next op span left right heq =>
    simp only [Option.some.injEq, Prod.mk.injEq] at hoperands
    obtain ⟨rfl, hleft, hright⟩ := hoperands
    let c : Comparison d target.test :=
      { op := .eqEq
        other := .notEq
        span, left, right
        front := ['a']
        before := " /* is */ ".toList
        behind := " b ? c : d".toList
        test_eq := heq
        opposite := rfl
        text_eq := htext
        left_stop := hleft
        finds := by decide +kernel
        right_start := by rw [hright]; decide }
    obtain ⟨id, e, -, he, -, hin⟩ := Tree.findInnermost?_eq_some htarget
    rw [he, Option.bind_some] at hin
    obtain ⟨-, -, hequality⟩ := negate_exchanges_iff hd (by decide) (Tree.holds_of_get? he) hin
    obtain ⟨head, tail, out, -, -, hnegate, -, hmeans, -⟩ := hequality c
    refine ⟨d, target, out, hd, htarget, hnegate, ?_, hmeans ?_⟩
    · rw [hnegate] at hout
      exact hout
    · show ¬"==".toList <:+: " /* is */ ".toList
      decide
  · cases hoperands

/-- The text of an operator in a comment is exchanged, and the operator is kept. -/
theorem negate_changes_comment :
    ∃ d target, Document.parse {} "a /* == */ == b ? c : d".toList = .ok d ∧
      target? (Tree.ofDocument d) (.cursor ⟨0, 0⟩) = some target ∧
      negate d target.test = .ok "a /* != */ == b".toList ∧
      (d.slice (d.range target.test.span)) = .ok "a /* == */ == b".toList := by
  obtain ⟨d, hd, htest⟩ :
      ∃ d, Document.parse {} "a /* == */ == b ? c : d".toList = .ok d ∧
        ((target? (Tree.ofDocument d) (.cursor ⟨0, 0⟩)).bind fun target =>
          (negate d target.test).toOption.bind fun out =>
            (d.slice (d.range target.test.span)).toOption.map (out, ·)) =
          some ("a /* != */ == b".toList, "a /* == */ == b".toList) :=
    Document.exists_parse (by decide +kernel)
  obtain ⟨target, htarget, hfound⟩ := Option.bind_eq_some_iff.mp htest
  obtain ⟨out, hout, hslice⟩ := Option.bind_eq_some_iff.mp hfound
  obtain ⟨source, hsource, hboth⟩ := Option.map_eq_some_iff.mp hslice
  cases hboth
  exact ⟨d, target, hd, htarget, Outcome.eq_ok_of_toOption hout, Outcome.eq_ok_of_toOption hsource⟩

end Ternary

end Retouch
