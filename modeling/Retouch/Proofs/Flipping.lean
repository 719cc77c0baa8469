import Retouch.Proofs.Frame
import Retouch.Proofs.Stretches

/-!
# The lexemes of a flipped conditional expression

-/

namespace Retouch

open Syntax Syntax.Stretch

namespace Ternary

/-- A document with a conditional expression as a sequence of lexemes: what stands before the test,
the test, the question mark, the first result, the colon, the second result, and what stands behind
it. The three parts start and end with a lexeme. -/
structure Reading (d : Document) (target : Target) where
  before : Stretch
  test : Stretch
  question : Stretch
  yes : Stretch
  colon : Stretch
  no : Stretch
  behind : Stretch
  text_eq : d.text = texts [before, test, question, yes, colon, no, behind]
  test_span : d.range target.test.span = spanAfter [before] test
  yes_span : d.range target.yes.span = spanAfter [before, test, question] yes
  no_span : d.range target.no.span = spanAfter [before, test, question, yes, colon] no
  chain : Chain (.first d.text) [before, test, question, yes, colon, no, behind]
  phrases : ∀ s ∈ [test, yes, no], s.IsPhrase
  opens : ∀ s ∈ [before, question, colon], s.edge.isOpen = true
  marks : ∀ s ∈ [question, colon], s.text ≠ []

variable {d : Document} {s : Selection} {target : Target}

namespace Reading

/-- The stretches of the flipped document, given the negated test. -/
def flipped (r : Reading d target) (negation : Stretch) : List Stretch :=
  [r.before, negation, r.question, r.no, r.colon, r.yes,
    { r.behind with edge := if r.behind.text = [] then r.yes.edge else r.behind.edge }]

end Reading

/-- The three edits that flip a conditional expression, and where their texts come from. -/
theorem exists_edits {batch : Batch} (h : edits d target = .ok batch) :
    ∃ test yes no, negate d target.test = .ok test ∧ d.slice (d.range target.yes.span) = .ok yes ∧
      d.slice (d.range target.no.span) = .ok no ∧
      batch = [⟨d.range target.test.span, test⟩, ⟨d.range target.yes.span, no⟩,
        ⟨d.range target.no.span, yes⟩] := by
  obtain ⟨test, htest, hrest⟩ := Outcome.bind_eq_ok h
  obtain ⟨no, hno, hrest⟩ := Outcome.bind_eq_ok hrest
  obtain ⟨yes, hyes, hrest⟩ := Outcome.bind_eq_ok hrest
  cases hrest
  exact ⟨test, yes, no, htest, hyes, hno, rfl⟩

/-- What flipping makes of a document. -/
theorem exists_flip {x : Transformation} (htarget : target? (Tree.ofDocument d) s = some target)
    (h : transform (Tree.ofDocument d) s = .ok x) :
    ∃ batch text selection, edits d target = .ok batch ∧ batch.apply d.text = .ok text ∧
      x = .document text selection := by
  unfold transform at h
  rw [htarget] at h
  obtain ⟨batch, hbatch, hx⟩ := Outcome.bind_eq_ok h
  obtain ⟨text, selection, happly, rfl⟩ := Transformation.exists_document hx
  exact ⟨batch, text, selection, hbatch, happly, rfl⟩

namespace Reading

variable (r : Reading d target)

/-- The text of the flipped document. -/
theorem text_flipped {batch : Batch} {text : Text} {negation : Stretch}
    (hbatch : edits d target = .ok batch) (happly : batch.apply d.text = .ok text)
    (hnegation : negate d target.test = .ok negation.text) :
    text = texts (r.flipped negation) := by
  obtain ⟨test, yes, no, htest, hyes, hno, rfl⟩ := exists_edits hbatch
  obtain rfl : test = negation.text := Except.ok.inj (htest.symm.trans hnegation)
  have hslices := r.text_eq
  rw [r.yes_span, slice_spanAfter hslices] at hyes
  rw [r.no_span, slice_spanAfter hslices] at hno
  obtain rfl := Except.ok.inj hyes
  obtain rfl := Except.ok.inj hno
  let pieces : List Batch.Piece :=
    [⟨r.before.text, r.test.text, negation.text⟩, ⟨r.question.text, r.yes.text, r.no.text⟩,
      ⟨r.colon.text, r.no.text, r.yes.text⟩]
  have hsource : d.text = Batch.Piece.source pieces r.behind.text := by
    simp [r.text_eq, pieces, Batch.Piece.source]
  rw [hsource] at happly
  rw [Batch.Piece.result_of_apply happly ?_]
  · simp [flipped, pieces, Batch.Piece.result]
  · rw [r.test_span, r.yes_span, r.no_span]
    simp [pieces, Batch.Piece.edits, spanAfter, Nat.add_assoc]

/-- Each stretch of the flipped document can be read where the one before it ends. -/
theorem linked_flipped {negation : Stretch} (hphrase : negation.IsPhrase)
    (hreads : Lexes [] (.blank true) negation.text negation.lexemes negation.edge) :
    Linked (.first d.text) (r.flipped negation) := by
  have hchain := r.chain
  have hphrases := r.phrases
  have hopens := r.opens
  have hmarks := r.marks
  simp only [chain_cons] at hchain
  simp only [List.forall_mem_cons, List.not_mem_nil, IsEmpty.forall_iff, implies_true,
    and_true] at hphrases hopens hmarks
  obtain ⟨hbefore, htest, hquestion, hyes, hcolon, hno, hbehind, -⟩ := hchain
  obtain ⟨testEnd, htestEnd, -⟩ := hphrases.1.ends
  obtain ⟨yesEnd, hyesEnd, -⟩ := hphrases.2.1.ends
  obtain ⟨noEnd, hnoEnd, -⟩ := hphrases.2.2.ends
  obtain ⟨end', hend', -⟩ := hphrase.ends
  rw [htestEnd] at hquestion
  rw [hyesEnd] at hcolon
  rw [hnoEnd] at hbehind
  refine .cons _ hbefore ?_
  refine .cons _ (hphrase.lexes hreads rfl hopens.1) ?_
  refine .cons _ (hend' ▸ hquestion.relexeme hmarks.1 end') ?_
  refine .cons _ (hphrases.2.2.lexes hno hopens.2.2 hopens.2.1) ?_
  refine .cons _ (hnoEnd ▸ hcolon.relexeme hmarks.2 noEnd) ?_
  refine .cons _ (hphrases.2.1.lexes hyes hopens.2.1 hopens.2.2) ?_
  refine .cons [] ?_ (.nil _)
  by_cases hempty : r.behind.text = []
  · simp only [hempty, if_true, (hbehind.eq_of_nil hempty).1]
    exact .nil _
  · simp only [hempty, if_false]
    exact hyesEnd ▸ hbehind.relexeme hempty yesEnd

end Reading

/-- **Flipping a conditional expression keeps the lexemes around its parts, where no two of them run
into one.** Let a document with a conditional expression be a sequence of lexemes of which the test
and both results are stretches, and let the negated test be one, too. The flipped document has the
negated test in the place of the test and the results in each other's place, and nothing else is
different. If each stretch stays as it is before what follows it now, the new document is read as
just these lexemes; and it is read so only if no word at the end of a stretch is followed by what a
name goes on with. -/
theorem flip_keeps_lexemes {text : Text} {selection : Selection} {negation : Stretch}
    (htarget : target? (Tree.ofDocument d) s = some target)
    (hflip : transform (Tree.ofDocument d) s = .ok (.document text selection))
    (r : Reading d target) (hnegation : negate d target.test = .ok negation.text)
    (hphrase : negation.IsPhrase)
    (hreads : Lexes [] (.blank true) negation.text negation.lexemes negation.edge) :
    text = texts (r.flipped negation) ∧
    (Edge.first text = .first d.text → Meeting (r.flipped negation) →
      Chain (.first text) (r.flipped negation)) ∧
    (Chain (.first text) (r.flipped negation) →
      WordsApart (r.flipped negation) ∧
      ∃ e, Lexes [] (.first text) text
        (r.before.lexemes ++ negation.lexemes ++ r.question.lexemes ++ r.no.lexemes ++
          r.colon.lexemes ++ r.yes.lexemes ++ r.behind.lexemes) e) := by
  obtain ⟨batch, text', selection', hbatch, happly, hx⟩ := exists_flip htarget hflip
  cases hx
  have htext := r.text_flipped hbatch happly hnegation
  refine ⟨htext, fun hfirst hmeeting => ?_, fun hchain => ⟨hchain.wordsApart, ?_⟩⟩
  · rw [hfirst]
    exact (r.linked_flipped hphrase hreads).chain hmeeting
  · obtain ⟨e, he⟩ := hchain.exists_lexes
    rw [← htext] at he
    refine ⟨e, ?_⟩
    simpa [Reading.flipped] using he

/-- A conditional expression without any white space, which is read as it should be when it is
flipped. -/
theorem flip_keeps_lexemes_tight :
    ∃ d target text selection, Document.parse {} "a?b:c".toList = .ok d ∧
      target? (Tree.ofDocument d) (.cursor ⟨0, 0⟩) = some target ∧
      transform (Tree.ofDocument d) (.cursor ⟨0, 0⟩) = .ok (.document text selection) ∧
      text = "!a?c:b".toList ∧
      ∃ e, Lexes [] (.first text) text
        [⟨.plain, ['!']⟩, ⟨.plain, ['a']⟩, ⟨.plain, ['?']⟩, ⟨.plain, ['c']⟩, ⟨.plain, [':']⟩,
          ⟨.plain, ['b']⟩] e := by
  obtain ⟨d, hd, htext, hparts, hflip⟩ :
      ∃ d, Document.parse {} "a?b:c".toList = .ok d ∧ d.text = "a?b:c".toList ∧
        ((target? (Tree.ofDocument d) (.cursor ⟨0, 0⟩)).map fun t =>
          (d.range t.test.span, d.range t.yes.span, d.range t.no.span,
            (negate d t.test).toOption)) =
          some (⟨0, 1⟩, ⟨2, 3⟩, ⟨4, 5⟩, some ['!', 'a']) ∧
        ((transform (Tree.ofDocument d) (.cursor ⟨0, 0⟩)).toOption.bind fun x =>
          (x.output d.text (.cursor ⟨0, 0⟩)).toOption) = some "!a?c:b".toList :=
    Document.exists_parse (by decide +kernel)
  obtain ⟨target, htarget, hspans⟩ := Option.map_eq_some_iff.mp hparts
  simp only [Prod.mk.injEq] at hspans
  obtain ⟨htest, hyes, hno, hnegate⟩ := hspans
  obtain ⟨x, hx, hout⟩ := Option.bind_eq_some_iff.mp hflip
  replace hx := Outcome.eq_ok_of_toOption hx
  obtain ⟨-, text, selection, -, -, rfl⟩ := exists_flip htarget hx
  let word (c : Char) : Stretch := .lone ⟨.plain, [c]⟩
  have hlone {c : Char} {e : Edge} {after : Text} (hopen : e.isOpen = true)
      (hink : opensTrivia e.broken (c :: after) = false)
      (htakes : Lexeme.Takes ⟨.plain, [c]⟩ after) :
      Lexes after e (word c).text (word c).lexemes (word c).edge :=
    lexes_lone hopen nofun hink htakes
  have hphrase {c : Char} (hink : opensTrivia true [c] = false) : (word c).IsPhrase :=
    ⟨hink, ⟨_, rfl, nofun⟩, _, rfl, nofun⟩
  let r : Reading d target :=
    { before := ⟨[], [], .blank true⟩
      test := word 'a'
      question := word '?'
      yes := word 'b'
      colon := word ':'
      no := word 'c'
      behind := ⟨[], [], .lexeme ⟨.plain, ['c']⟩⟩
      text_eq := htext
      test_span := htest
      yes_span := hyes
      no_span := hno
      chain := by
        rw [htext]
        refine .cons (.nil _) (.cons (hlone rfl ?_ ?_) (.cons (hlone rfl ?_ ?_) (.cons (hlone rfl ?_ ?_)
          (.cons (hlone rfl ?_ ?_) (.cons (hlone rfl ?_ ?_) (.cons (.nil _) (.nil _)))))))
        all_goals decide +kernel
      phrases := by
        simp only [List.forall_mem_cons, List.not_mem_nil, IsEmpty.forall_iff, implies_true, and_true]
        exact ⟨hphrase (by decide), hphrase (by decide), hphrase (by decide)⟩
      opens := by decide
      marks := by decide }
  let negation : Stretch :=
    ⟨['!', 'a'], [⟨.plain, ['!']⟩, ⟨.plain, ['a']⟩], .lexeme ⟨.plain, ['a']⟩⟩
  have hreads : Lexes [] (.blank true) negation.text negation.lexemes negation.edge :=
    .append (hlone rfl (by decide +kernel) (by decide +kernel))
      (hlone rfl (by decide +kernel) (by decide +kernel))
  obtain ⟨htext', hmeeting, hchain⟩ := flip_keeps_lexemes htarget hx r
    (Outcome.eq_ok_of_toOption hnegate) ⟨by decide, ⟨⟨.plain, ['!']⟩, rfl, nofun⟩,
      ⟨.plain, ['a']⟩, rfl, nofun⟩ hreads
  have hflipped : r.flipped negation =
      [⟨[], [], .blank true⟩, negation, word '?', word 'c', word ':', word 'b',
        ⟨[], [], .lexeme ⟨.plain, ['b']⟩⟩] := rfl
  replace htext' : text = "!a?c:b".toList := htext'
  refine ⟨d, target, text, selection, hd, htarget, hx, htext', ?_⟩
  refine (hchain (hmeeting ?_ ?_)).2
  · rw [htext', htext]
    decide
  · rw [hflipped]
    decide +kernel

/-- Without the negation that stood between them, `return` and the test are one name, and `return`
is no lexeme of the flipped document. -/
theorem flip_joins_return :
    ∃ d text selection, Document.parse {} "function f(x) \x7b return!x ? 1 : 2; \x7d".toList = .ok d ∧
      transform (Tree.ofDocument d) (.cursor ⟨0, 26⟩) = .ok (.document text selection) ∧
      text = "function f(x) \x7b returnx ? 2 : 1; \x7d".toList ∧
      ∀ ls e, Lexes [] (.first text) text ls e → ⟨.plain, "return".toList⟩ ∉ ls := by
  obtain ⟨d, hd, happlies, hflip⟩ :
      ∃ d, Document.parse {} "function f(x) \x7b return!x ? 1 : 2; \x7d".toList = .ok d ∧
        (target? (Tree.ofDocument d) (.cursor ⟨0, 26⟩)).isSome = true ∧
        ((transform (Tree.ofDocument d) (.cursor ⟨0, 26⟩)).toOption.bind fun x =>
          (x.output d.text (.cursor ⟨0, 26⟩)).toOption) =
            some "function f(x) \x7b returnx ? 2 : 1; \x7d".toList :=
    Document.exists_parse (by decide +kernel)
  obtain ⟨target, htarget⟩ := Option.isSome_iff_exists.mp happlies
  obtain ⟨x, hx, hout⟩ := Option.bind_eq_some_iff.mp hflip
  replace hx := Outcome.eq_ok_of_toOption hx
  obtain ⟨-, text, selection, -, -, rfl⟩ := exists_flip htarget hx
  obtain rfl : text = _ := Option.some.inj hout
  refine ⟨d, _, selection, hd, hx, rfl, fun ls e hreads => ?_⟩
  exact hreads.not_mem_of_continues (by decide +kernel) (by decide +kernel)

end Ternary

end Retouch
