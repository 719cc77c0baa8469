import Retouch.Proofs.Frame
import Retouch.Proofs.Stretches

/-!
# The lexemes around an extracted expression

-/

namespace Retouch

open Syntax Syntax.Stretch

namespace Variable

variable {d : Document} {s : Selection} {target : Target}
  {outer e : Entry} {name indent : Text}

/-- A document with an expression in a statement as a sequence of lexemes: what stands before the
statement, the statement up to the expression, the expression, and the rest. Statement and
expression start with a lexeme, and the expression ends with one. -/
structure Reading (d : Document) (outer e : Entry) where
  before : Stretch
  inner : Stretch
  value : Stretch
  behind : Stretch
  text_eq : d.text = texts [before, inner, value, behind]
  outer_start : outer.range.start = Text.size before.text
  value_range : e.range = spanAfter [before, inner] value
  chain : Chain (.first d.text) [before, inner, value, behind]
  phrase : value.IsPhrase
  starts : inner.text ≠ [] →
    opensTrivia true inner.text = false ∧ ∃ l ∈ inner.lexemes.head?, l.manner ≠ .markup
  opens : ∀ s ∈ [before, inner], s.edge.isOpen = true
  stops : value.text.getLast? ≠ some '\r'

/-- A name as a lexeme. -/
def nameLexeme (name : Text) : Lexeme := ⟨.plain, name⟩

/-- Whether a text is one name. -/
def IsName (name : Text) : Prop := (nameLexeme name).isWord = true ∧ (nameLexeme name).Takes []

instance (name : Text) : Decidable (IsName name) :=
  inferInstanceAs (Decidable (_ ∧ _))

/-- What a declaration has before its value. -/
def declarationHead (name : Text) : Stretch :=
  ⟨"const ".toList ++ name ++ " = ".toList,
    [⟨.plain, "const".toList⟩, nameLexeme name, ⟨.plain, ['=']⟩], .blank false⟩

/-- What a declaration has behind its value. -/
def declarationEnd (indent : Text) : Stretch :=
  ⟨";\n".toList ++ indent, [⟨.plain, [';']⟩], .blank true⟩

theorem declaration_eq (name value indent : Text) : declaration name value indent =
    (declarationHead name).text ++ value ++ (declarationEnd indent).text := by
  unfold declaration declarationHead declarationEnd
  dsimp only
  rw [List.append_assoc _ _ indent]

namespace Reading

/-- The stretches of the document with the declaration and the name. -/
def extracted (r : Reading d outer e) (name indent : Text) : List Stretch :=
  [r.before, declarationHead name, r.value, declarationEnd indent,
    { r.inner with edge := if r.inner.text = [] then .blank true else r.inner.edge },
    .lone (nameLexeme name),
    { r.behind with
      edge := if r.behind.text = [] then .lexeme (nameLexeme name) else r.behind.edge }]

theorem allLexemes_extracted (r : Reading d outer e) (name indent : Text) :
    allLexemes (r.extracted name indent) =
      r.before.lexemes ++ [⟨.plain, "const".toList⟩, nameLexeme name, ⟨.plain, ['=']⟩] ++
        r.value.lexemes ++ [⟨.plain, [';']⟩] ++ r.inner.lexemes ++ [nameLexeme name] ++
        r.behind.lexemes := by
  simp only [extracted, allLexemes_cons, allLexemes_nil, List.append_nil, List.append_assoc]
  rfl

end Reading

/-- The selection lies in the text if an expression is found there. -/
theorem exists_span? (h : target? (Tree.ofDocument d) s = some target) :
    ∃ span, d.text.span? s = some span := by
  unfold target? at h
  split at h
  · cases h
  · next expression hfound =>
    obtain ⟨-, e, he, hs⟩ := Tree.exists_of_innermost? hfound
    exact Tree.exists_span?_of_isInside he hs

namespace Reading

variable (r : Reading d outer e)

theorem head_ne_feed {x : Text} (h : opensTrivia true x = false) : x.head? ≠ some '\n' := by
  intro hhead
  obtain ⟨rest, rfl⟩ := List.head?_eq_some_iff.mp hhead
  cases h.symm.trans (opensTrivia_cons (by decide) true rest)

theorem value_ne_nil : r.value.text ≠ [] := by
  have hchain := r.chain
  simp only [chain_cons] at hchain
  obtain ⟨l, hl, -⟩ := r.phrase.starts
  intro h
  rw [(hchain.2.2.1.eq_of_nil h).1] at hl
  cases hl

/-- The two patches are applied where the statement starts and where the expression stands. -/
theorem toBatch_eq (houter : (Tree.ofDocument d).get? target.statement = some outer)
    (he : (Tree.ofDocument d).get? target.expression = some e) (code : Text) :
    Patch.toBatch d.text [⟨code, outer.selection.collapse⟩, ⟨name, e.selection⟩] =
      .ok [⟨⟨Text.size r.before.text, Text.size r.before.text⟩, code⟩,
        ⟨spanAfter [r.before, r.inner] r.value, name⟩] := by
  have hvalueHead := head_ne_feed r.phrase.ink
  have hvalue := r.value_ne_nil
  have hstatement : d.text.offset? (d.text.position outer.range.start) =
      some (Text.size r.before.text) := by
    have htext : d.text = r.before.text ++ texts [r.inner, r.value, r.behind] := r.text_eq
    rw [htext, r.outer_start]
    refine Text.offset?_position ?_
    rintro ⟨-, hnil | hfeed⟩
    · simp [hvalue] at hnil
    · by_cases hinner : r.inner.text = []
      · simp only [texts_cons, hinner, List.nil_append, List.head?_append_of_ne_nil _ hvalue]
          at hfeed
        exact hvalueHead hfeed
      · simp only [texts_cons, List.head?_append_of_ne_nil _ hinner] at hfeed
        exact head_ne_feed (r.starts hinner).1 hfeed
  have hstart : d.text.offset? (d.text.position e.range.start) =
      some (Text.size (texts [r.before, r.inner])) := by
    have htext : d.text = texts [r.before, r.inner] ++ texts [r.value, r.behind] := by
      simp [r.text_eq]
    rw [r.value_range, spanAfter]
    conv_lhs => rw [htext]
    refine Text.offset?_position ?_
    rintro ⟨-, hnil | hfeed⟩
    · simp [hvalue] at hnil
    · simp only [texts_cons, List.head?_append_of_ne_nil _ hvalue] at hfeed
      exact hvalueHead hfeed
  have hstop : d.text.offset? (d.text.position e.range.stop) =
      some (Text.size (texts [r.before, r.inner]) + Text.size r.value.text) := by
    have htext : d.text = (texts [r.before, r.inner] ++ r.value.text) ++ r.behind.text := by
      simp [r.text_eq]
    rw [r.value_range, spanAfter, ← Text.size_append]
    conv_lhs => rw [htext]
    refine Text.offset?_position ?_
    rintro ⟨hreturn, -⟩
    rw [List.getLast?_append_of_ne_nil _ hvalue] at hreturn
    exact r.stops hreturn
  rw [Tree.selection_eq houter, Tree.selection_eq he,
    d.text.selection_of_le (Tree.range_ordered houter).1,
    d.text.selection_of_le (Tree.range_ordered he).1]
  simp only [Patch.toBatch, Patch.toEdit, Text.span?, Selection.collapse, Selection.cursor,
    hstatement, hstart, hstop]
  rfl

/-- The two patches of the extraction. -/
theorem transform_eq (htarget : target? (Tree.ofDocument d) s = some target)
    (houter : (Tree.ofDocument d).get? target.statement = some outer)
    (he : (Tree.ofDocument d).get? target.expression = some e) (settings : Settings) :
    transform (Tree.ofDocument d) s settings = .ok (.patches
      [⟨declaration settings.extractedName r.value.text (d.text.indentation outer.range.start),
        outer.selection.collapse⟩, ⟨settings.extractedName, e.selection⟩]
      (some .renameSymbol)) := by
  have hvalue : (Tree.ofDocument d).text target.expression = .ok r.value.text := by
    have hslice : d.slice (spanAfter [r.before, r.inner] r.value) = .ok r.value.text :=
      slice_spanAfter r.text_eq
    rw [← r.value_range] at hslice
    rw [Tree.text, he]
    exact hslice
  unfold transform
  simp only [htarget, houter, he, hvalue]
  rfl

/-- The text that the patches make. -/
theorem exists_applyPatches (hspan : ∃ span, d.text.span? s = some span)
    (houter : (Tree.ofDocument d).get? target.statement = some outer)
    (he : (Tree.ofDocument d).get? target.expression = some e) (name indent : Text) :
    ∃ selection, applyPatches d.text s
      [⟨declaration name r.value.text indent, outer.selection.collapse⟩, ⟨name, e.selection⟩] =
        .ok (texts (r.extracted name indent), selection) := by
  let pieces : List Batch.Piece :=
    [⟨r.before.text, [], declaration name r.value.text indent⟩,
      ⟨r.inner.text, r.value.text, name⟩]
  have hsource : d.text = Batch.Piece.source pieces r.behind.text := by
    simp [r.text_eq, pieces, Batch.Piece.source]
  have hbatch : Patch.toBatch d.text
      [⟨declaration name r.value.text indent, outer.selection.collapse⟩, ⟨name, e.selection⟩] =
        .ok (Batch.Piece.edits 0 pieces) := by
    rw [r.toBatch_eq houter he]
    simp [pieces, Batch.Piece.edits, spanAfter, Nat.add_assoc]
  have hfits := Batch.Piece.fits_edits pieces r.behind.text
  rw [← hsource] at hfits
  obtain ⟨text, selection, happly⟩ := hfits.exists_result hspan
  have htext := (Batch.applyWithSelection_ok happly).1
  rw [hsource] at htext
  refine ⟨selection, ?_⟩
  rw [applyPatches, hbatch]
  refine happly.trans ?_
  rw [Batch.Piece.result_of_apply htext rfl]
  simp only [pieces, Batch.Piece.result, declaration_eq, extracted, texts_cons, texts_nil, lone,
    nameLexeme, List.append_assoc, List.append_nil]

/-- The reading of the new document starts as before. -/
theorem first_extracted (y : Text) : Edge.first (r.before.text ++ 'c' :: y) = .first d.text := by
  have htext : d.text = r.before.text ++ texts [r.inner, r.value, r.behind] := r.text_eq
  have hbefore := (chain_cons.mp r.chain).1
  have hopen := r.opens r.before List.mem_cons_self
  by_cases hlong : 2 ≤ r.before.text.length
  · rw [htext]
    exact Edge.first_append (List.ne_nil_of_length_pos (by omega)) (.inr hlong) _ _
  · have hshort : r.before.text = [] ∨ ∃ c, r.before.text = [c] := by
      rcases hone : r.before.text with - | ⟨c, - | ⟨c', x⟩⟩
      · exact .inl rfl
      · exact .inr ⟨c, rfl⟩
      · rw [hone] at hlong
        exact absurd (Nat.le_add_left 2 x.length) hlong
    have hfirst : ¬['#', '!'].isPrefixOf d.text = true := by
      -- the line comment would not be over where the statement starts
      intro hprefix
      have hmark : ∀ c ∈ r.before.text, isLineBreak c = false := by
        rcases hshort with hone | ⟨c, hone⟩
        · simp [hone]
        · rw [htext, hone] at hprefix
          obtain ⟨rest, hrest⟩ := List.isPrefixOf_iff_prefix.mp hprefix
          obtain rfl : '#' = c := (List.cons.inj hrest).1
          rw [hone]
          exact List.forall_mem_singleton.mpr rfl
      rw [Edge.first, if_pos hprefix] at hbefore
      rw [hbefore.comment_goesOn rfl hmark] at hopen
      cases hopen
    rw [Edge.first.eq_def d.text, if_neg hfirst]
    rcases hshort with hone | ⟨c, hone⟩
    · rw [hone]
      rfl
    · simp [hone, Edge.first]

/-- What a declaration has before its value. -/
theorem lexes_declarationHead {f : Edge} (hf : f.isOpen = true) (hname : IsName name)
    (after : Text) :
    Lexes after f (declarationHead name).text (declarationHead name).lexemes (.blank false) := by
  have hspace (w y : Text) (h : Lexeme.Takes ⟨.plain, w⟩ []) :
      Lexeme.Takes ⟨.plain, w⟩ (' ' :: y) :=
    h.apart nofun (.inl rfl) y
  have hsign : Lexes after (.blank false) "= ".toList [⟨.plain, ['=']⟩] (.blank false) :=
    .lexeme (l := ⟨.plain, ['=']⟩) rfl nofun rfl
      (hspace _ _ (by decide)) (.separator rfl (by decide) (.nil _))
  have hword : Lexes after (.blank false) (name ++ " = ".toList)
      [nameLexeme name, ⟨.plain, ['=']⟩] (.blank false) :=
    .lexeme (l := nameLexeme name) rfl nofun (opensTrivia_word hname.1 _ _)
      (hspace _ _ hname.2) (.separator rfl (by decide) hsign)
  have hconst : Lexeme.isWord ⟨.plain, "const".toList⟩ = true := by decide
  have h : Lexes after f ("const".toList ++ ' ' :: (name ++ " = ".toList))
      [⟨.plain, "const".toList⟩, nameLexeme name, ⟨.plain, ['=']⟩] (.blank false) :=
    .lexeme (l := ⟨.plain, "const".toList⟩) hf nofun (opensTrivia_word hconst _ _)
      (hspace _ _ (by decide)) (.separator rfl (by decide) hword)
  exact h

theorem lexes_declarationEnd (hindent : ∀ c ∈ indent, isSeparator c = true) (l : Lexeme)
    (after : Text) :
    Lexes after (.lexeme l) (declarationEnd indent).text (declarationEnd indent).lexemes
      (.blank true) := by
  have hink (y : Text) : opensTrivia false (';' :: y) = false :=
    opensTrivia_cons_eq_false (by decide) (by decide) false y
  have htakes (y : Text) : Lexeme.Takes ⟨.plain, [';']⟩ ('\n' :: y) :=
    Lexeme.Takes.apart (y := []) (by decide) (by decide) (.inr (.inl rfl)) y
  exact .lexeme (l := ⟨.plain, [';']⟩) rfl nofun (hink _) (htakes _)
    (.lineBreak (by decide) (.separators hindent))

/-- Each stretch of the new document can be read where the one before it ends. -/
theorem linked_extracted (hname : IsName name) (hindent : ∀ c ∈ indent, isSeparator c = true) :
    Linked (.first d.text) (r.extracted name indent) := by
  have hchain := r.chain
  have hopens := r.opens
  simp only [chain_cons] at hchain
  simp only [List.forall_mem_cons, List.not_mem_nil, IsEmpty.forall_iff, implies_true,
    and_true] at hopens
  obtain ⟨hbefore, hinner, hvalue, hbehind, -⟩ := hchain
  obtain ⟨l, hl, -⟩ := r.phrase.ends
  rw [hl] at hbehind
  refine .cons _ hbefore ?_
  refine .cons [] (lexes_declarationHead hopens.1 hname []) ?_
  refine .cons _ (r.phrase.lexes hvalue hopens.2 rfl) ?_
  refine .cons [] (hl ▸ lexes_declarationEnd hindent l []) ?_
  refine .cons [] ?_ (.cons [] ?_ (.cons [] ?_ (.nil _)))
  · by_cases hempty : r.inner.text = []
    · simp only [hempty, if_true, (hinner.eq_of_nil hempty).1]
      exact .nil _
    · obtain ⟨hink, hstarts⟩ := r.starts hempty
      simp only [hempty, if_false]
      have halone : Lexes [] r.before.edge r.inner.text r.inner.lexemes r.inner.edge :=
        hinner.retarget (r.inner.edge.meets_nil r.inner.text)
      exact halone.restart hstarts hopens.1 rfl (.inr (by rw [List.append_nil]; exact hink))
  · refine lexes_lone ?_ nofun (opensTrivia_word hname.1 _ _) hname.2
    dsimp only
    split
    · rfl
    · exact hopens.2
  · by_cases hempty : r.behind.text = []
    · simp only [hempty, if_true, (hbehind.eq_of_nil hempty).1]
      exact .nil _
    · simp only [hempty, if_false]
      have hlexeme := hbehind.relexeme hempty (nameLexeme name)
      exact hlexeme.retarget (r.behind.edge.meets_nil r.behind.text)

end Reading

/-- **Extracting an expression keeps the lexemes around it, where no two of them run into one.** Let
a document be a sequence of lexemes in which an expression is a stretch of a statement, and let the
new name be one name. The new document has the declaration before the statement and the name in the
place of the expression, and nothing else is different. If each stretch stays as it is before what
follows it now, the new document is read as just these lexemes; and it is read so only if no word at
the end of a stretch is followed by what a name goes on with. -/
theorem extract_keeps_lexemes (htarget : target? (Tree.ofDocument d) s = some target)
    (houter : (Tree.ofDocument d).get? target.statement = some outer)
    (he : (Tree.ofDocument d).get? target.expression = some e)
    (settings : Settings) (hname : IsName settings.extractedName)
    (hindent : indent = d.text.indentation outer.range.start) (r : Reading d outer e) :
    ∃ x text, transform (Tree.ofDocument d) s settings = .ok x ∧ x.output d.text s = .ok text ∧
    text = texts (r.extracted settings.extractedName indent) ∧
    (Meeting (r.extracted settings.extractedName indent) →
      Chain (.first text) (r.extracted settings.extractedName indent)) ∧
    (Chain (.first text) (r.extracted settings.extractedName indent) →
      WordsApart (r.extracted settings.extractedName indent) ∧
      ∃ f, Lexes [] (.first text) text
        (r.before.lexemes ++ [⟨.plain, "const".toList⟩, nameLexeme settings.extractedName,
          ⟨.plain, ['=']⟩] ++ r.value.lexemes ++ [⟨.plain, [';']⟩] ++ r.inner.lexemes ++
          [nameLexeme settings.extractedName] ++ r.behind.lexemes) f) := by
  have hseparators : ∀ c ∈ indent, isSeparator c = true := fun c hc =>
    isSeparator_of_mem_indentation (hindent ▸ hc)
  obtain ⟨selection, happly⟩ :=
    r.exists_applyPatches (exists_span? htarget) houter he settings.extractedName indent
  refine ⟨_, _, r.transform_eq htarget houter he settings, ?_, rfl, fun hmeeting => ?_,
    fun hchain => ⟨hchain.wordsApart, ?_⟩⟩
  · rw [Transformation.output, ← hindent, happly]
  · have hfirst : Edge.first (texts (r.extracted settings.extractedName indent)) =
        .first d.text := r.first_extracted _
    rw [hfirst]
    exact (r.linked_extracted hname hseparators).chain hmeeting
  · obtain ⟨f, hf⟩ := hchain.exists_lexes
    rw [r.allLexemes_extracted] at hf
    exact ⟨f, hf⟩

/-- An argument without any white space around it. -/
theorem extract_keeps_lexemes_tight :
    ∃ d x text, Document.parse {} "f(1);".toList = .ok d ∧
      transform (Tree.ofDocument d) (.cursor ⟨0, 2⟩) {} = .ok x ∧
      x.output d.text (.cursor ⟨0, 2⟩) = .ok text ∧
      text = "const extracted = 1;\nf(extracted);".toList ∧
      ∃ f, Lexes [] (.first text) text
        [⟨.plain, "const".toList⟩, ⟨.plain, "extracted".toList⟩, ⟨.plain, ['=']⟩, ⟨.plain, ['1']⟩,
          ⟨.plain, [';']⟩, ⟨.plain, ['f']⟩, ⟨.plain, ['(']⟩, ⟨.plain, "extracted".toList⟩,
          ⟨.plain, [')']⟩, ⟨.plain, [';']⟩] f := by
  obtain ⟨d, hd, htext, hparts⟩ :
      ∃ d, Document.parse {} "f(1);".toList = .ok d ∧ d.text = "f(1);".toList ∧
        ((target? (Tree.ofDocument d) (.cursor ⟨0, 2⟩)).bind fun t =>
          ((Tree.ofDocument d).get? t.statement).bind fun outer =>
            ((Tree.ofDocument d).get? t.expression).map fun e => (outer.range, e.range)) =
          some (⟨0, 5⟩, ⟨2, 3⟩) :=
    Document.exists_parse (by decide +kernel)
  obtain ⟨target, htarget, hparts⟩ := Option.bind_eq_some_iff.mp hparts
  obtain ⟨outer, houter, hparts⟩ := Option.bind_eq_some_iff.mp hparts
  obtain ⟨e, he, hparts⟩ := Option.map_eq_some_iff.mp hparts
  obtain ⟨houterRange, heRange⟩ := Prod.mk.inj hparts
  let r : Reading d outer e :=
    { before := ⟨[], [], .blank true⟩
      inner := ⟨"f(".toList, [⟨.plain, ['f']⟩, ⟨.plain, ['(']⟩], .lexeme ⟨.plain, ['(']⟩⟩
      value := .lone ⟨.plain, ['1']⟩
      behind := ⟨");".toList, [⟨.plain, [')']⟩, ⟨.plain, [';']⟩], .lexeme ⟨.plain, [';']⟩⟩
      text_eq := htext
      outer_start := by
        rw [houterRange]
        rfl
      value_range := heRange
      chain := by
        rw [htext]
        refine .cons (.nil _) (.cons ?_ (.cons (lexes_lone rfl nofun ?_ ?_) (.cons ?_ (.nil _))))
        · refine .lexeme (l := ⟨.plain, ['f']⟩) rfl nofun ?_ ?_
            (.lexeme (l := ⟨.plain, ['(']⟩) rfl nofun ?_ ?_ (.nil _))
          all_goals decide +kernel
        · decide +kernel
        · decide +kernel
        · refine .lexeme (l := ⟨.plain, [')']⟩) rfl nofun ?_ ?_
            (.lexeme (l := ⟨.plain, [';']⟩) rfl nofun ?_ ?_ (.nil _))
          all_goals decide +kernel
      phrase := ⟨by decide, ⟨⟨.plain, ['1']⟩, rfl, nofun⟩, ⟨.plain, ['1']⟩, rfl, nofun⟩
      starts := fun _ => ⟨by decide, ⟨.plain, ['f']⟩, rfl, nofun⟩
      opens := by decide
      stops := by decide }
  have hindent : ([] : Text) = d.text.indentation outer.range.start := by
    rw [htext, houterRange]
    decide +kernel
  obtain ⟨x, text, hx, hout, htext', hmeeting, hchain⟩ := extract_keeps_lexemes htarget houter he {}
    (by decide +kernel) hindent r
  have hextracted : r.extracted "extracted".toList [] =
      [⟨[], [], .blank true⟩, declarationHead "extracted".toList, .lone ⟨.plain, ['1']⟩,
        declarationEnd [],
        ⟨"f(".toList, [⟨.plain, ['f']⟩, ⟨.plain, ['(']⟩], .lexeme ⟨.plain, ['(']⟩⟩,
        .lone (nameLexeme "extracted".toList),
        ⟨");".toList, [⟨.plain, [')']⟩, ⟨.plain, [';']⟩], .lexeme ⟨.plain, [';']⟩⟩] := rfl
  refine ⟨d, x, text, hd, hx, hout, htext', (hchain (hmeeting ?_)).2⟩
  rw [show ({} : Settings).extractedName = "extracted".toList from rfl, hextracted]
  decide +kernel

/-- Without the quotation mark that kept them apart, `typeof` and the name are one name, and
`typeof` is no lexeme of the new document. -/
theorem extract_joins_typeof :
    ∃ d x text, Document.parse {} "const t = typeof\"a\";".toList = .ok d ∧
      transform (Tree.ofDocument d) (.cursor ⟨0, 17⟩) {} = .ok x ∧
      x.output d.text (.cursor ⟨0, 17⟩) = .ok text ∧
      text = "const extracted = \"a\";\nconst t = typeofextracted;".toList ∧
      ∀ ls f, Lexes [] (.first text) text ls f → ⟨.plain, "typeof".toList⟩ ∉ ls := by
  obtain ⟨d, hd, hextract⟩ :
      ∃ d, Document.parse {} "const t = typeof\"a\";".toList = .ok d ∧
        ((transform (Tree.ofDocument d) (.cursor ⟨0, 17⟩) {}).toOption.bind fun x =>
          (x.output d.text (.cursor ⟨0, 17⟩)).toOption) =
            some "const extracted = \"a\";\nconst t = typeofextracted;".toList :=
    Document.exists_parse (by decide +kernel)
  obtain ⟨x, hx, hout⟩ := Option.bind_eq_some_iff.mp hextract
  refine ⟨d, x, _, hd, Outcome.eq_ok_of_toOption hx, Outcome.eq_ok_of_toOption hout, rfl,
    fun ls f hreads => ?_⟩
  exact hreads.not_mem_of_continues (by decide +kernel) (by decide +kernel)

end Variable

end Retouch
