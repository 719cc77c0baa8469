import Retouch.Proofs.Hoisting
import Retouch.Proofs.Anchoring

/-!
# The patches of an extraction

An extraction is planned on byte ranges and handed over as two patches, which are given by lines and
columns. Here the patches are followed back to bytes, and from one selection to another.

- `Tree.OffReturns`: constructs whose ends keep clear of carriage returns that end a line. These are
  the places that lines and columns cannot tell from their neighbours.
- `Variable.target?_selection`, `Variable.exists_transform`: what is found is found again, and there
  are patches for it.
- `Variable.applyPatches_extraction`: the text that the patches make.
- `Variable.transform_selection`: the patches are those of the selected expression.
-/

namespace Retouch

/-! ## Ends of constructs as positions -/

/-- Whether an offset stands behind a carriage return that ends a line. -/
def Text.endsReturn (text : Text) (n : Nat) : Bool :=
  (text.cut? n).any fun parts => decide (IsBehindReturn parts.1 parts.2)

/-- Positions lead back to the offsets of characters, but not behind a carriage return. -/
theorem Text.offset?_position_of_endsReturn {text : Text} {n : Nat}
    (hcut : text.isBoundary n = true) (h : text.endsReturn n = false) :
    text.offset? (text.position n) = some n := by
  obtain ⟨⟨before, after⟩, hparts⟩ := Option.isSome_iff_exists.mp hcut
  rw [endsReturn, hparts, Option.any_some, decide_eq_false_iff_not] at h
  rw [offset?_position_of_cut? hparts, if_neg h]

namespace Tree

/-- No construct but the whole document starts or ends between the two characters of a line break,
or behind a carriage return at the end of the text. -/
abbrev OffReturns (t : Tree) : Prop :=
  ∀ e ∈ t.entries, e.parent.isSome = true →
    t.document.text.endsReturn e.range.start = false ∧
      t.document.text.endsReturn e.range.stop = false

variable {d : Document} {id p : Nat} {e : Entry}

/-- The ends of a construct that has a parent are found again from their positions. -/
theorem OffReturns.offset?_position (h : (ofDocument d).OffReturns) (hcut : (ofDocument d).Cut)
    (he : (ofDocument d).get? id = some e) (hlink : (ofDocument d).IsChildOf id p) :
    d.text.offset? (d.text.position e.range.start) = some e.range.start ∧
      d.text.offset? (d.text.position e.range.stop) = some e.range.stop := by
  have hparent : e.parent = some p := by
    rw [IsChildOf, parent?, he] at hlink
    exact hlink
  obtain ⟨hstart, hstop⟩ := h e (mem_entries_of_get? he) (by rw [hparent]; rfl)
  have hrange := hcut.hasRange he
  exact ⟨Text.offset?_position_of_endsReturn hrange.start_cut hstart,
    Text.offset?_position_of_endsReturn hrange.stop_cut hstop⟩

end Tree

namespace Variable

open Retouch.Tree

variable {d : Document} {s : Selection} {target : Target} {e outer : Entry}

/-! ## What is found -/

/-- What is found is found again if exactly that is selected. -/
theorem target?_selection (hcut : (ofDocument d).Cut)
    (h : target? (ofDocument d) s = some target)
    (he : (ofDocument d).get? target.expression = some e) :
    target? (ofDocument d) e.selection = some target := by
  unfold target? at h ⊢
  split at h
  · cases h
  · next expression hfound =>
    obtain ⟨statement, hstatement, rfl⟩ := Option.map_eq_some_iff.mp h
    rw [hcut.innermost?_selection hfound he]
    simp only [hstatement, Option.map_some]

/-- There are patches for what is found. -/
theorem exists_transform (hcut : (ofDocument d).Cut)
    (h : target? (ofDocument d) s = some target)
    (he : (ofDocument d).get? target.expression = some e)
    (houter : (ofDocument d).get? target.statement = some outer) :
    ∃ value, d.slice e.range = .ok value ∧ ∀ settings : Settings,
      transform (ofDocument d) s settings = .ok (.patches
        [⟨declaration settings.extractedName value (d.text.indentation outer.range.start),
          outer.selection.collapse⟩, ⟨settings.extractedName, e.selection⟩]
        (some .renameSymbol)) := by
  obtain ⟨value, hvalue⟩ :=
    d.exists_slice (hcut e (mem_entries_of_get? he)) (range_ordered he).1
  refine ⟨value, hvalue, fun settings => ?_⟩
  unfold transform
  simp only [h, he, houter, Tree.text]
  rw [show (ofDocument d).document = d from rfl, hvalue]
  rfl

/-- The edits that the patches stand for: the ends of the expression and the start of the statement
keep their places, because neither is the whole document. -/
theorem toBatch_extraction (hcut : (ofDocument d).Cut) (hreturns : (ofDocument d).OffReturns)
    (h : target? (ofDocument d) s = some target)
    (he : (ofDocument d).get? target.expression = some e)
    (houter : (ofDocument d).get? target.statement = some outer) (code name : Text) :
    Patch.toBatch d.text [⟨code, outer.selection.collapse⟩, ⟨name, e.selection⟩] =
      .ok [⟨⟨outer.range.start, outer.range.start⟩, code⟩, ⟨e.range, name⟩] := by
  have hmeets := (meetsFirst_of_target? h).meets
  obtain ⟨p, hlink⟩ := hmeets.under.exists_isChildOf
  obtain ⟨q, hlist⟩ := exists_isChildOf_of_isListed hmeets.listed
  obtain ⟨hstart, hstop⟩ := hreturns.offset?_position hcut he hlink
  obtain ⟨hplace, -⟩ := hreturns.offset?_position hcut houter hlist
  exact toBatch_of_offset? houter he hplace hstart hstop code name

/-- The text of an extraction, with the declaration spelt out. -/
theorem append_declaration (before name value indent : Text) :
    before ++ declaration name value indent =
      before ++ "const ".toList ++ name ++ " = ".toList ++ value ++ ";\n".toList ++ indent := by
  unfold declaration
  -- named, so that the literals are not unfolded when the two sides are compared
  generalize "const ".toList = opening, " = ".toList = equals, ";\n".toList = ending
  simp only [List.append_assoc]

/-- Two patches that declare a value and put a name in its place make the text in which this is
done. -/
theorem exists_applyPatches {text before inner value behind declared name : Text} {start : Nat}
    {range : Span} {carried : Selection} {patches : List Patch}
    (htext : text = before ++ inner ++ value ++ behind) (hbefore : Text.size before = start)
    (hinner : Text.size (before ++ inner) = range.start)
    (hbehind : Text.size (before ++ inner ++ value) = range.stop)
    (hbatch : Patch.toBatch text patches = .ok [⟨⟨start, start⟩, declared⟩, ⟨range, name⟩])
    (hcarried : ∃ span, text.span? carried = some span) :
    ∃ selection, applyPatches text carried patches =
      .ok (before ++ declared ++ inner ++ name ++ behind, selection) := by
  obtain ⟨span, hspan⟩ := hcarried
  have happly := apply_extraction before inner value behind declared name
  rw [← htext, hbefore, hinner, hbehind] at happly
  rw [applyPatches, hbatch]
  simp only [Batch.applyWithSelection, happly, hspan]
  exact ⟨_, rfl⟩

/-- **The patches of an extraction are the edit of the bytes.** Let constructs lie in those around
them and end between characters, and let none but the whole document end behind a carriage return
that ends a line. Where an extraction applies, the statement starts no later than the expression, so
that the text falls into what is before the statement, what is between the two starts, the
expression, and the rest; the second part may be empty. Applying the two patches, with any selection
of the text and so with the one they were planned for, puts the declaration, a line feed and the
indentation of the statement before the second part, and the name in the place of the expression. -/
theorem applyPatches_extraction (settings : Settings) (hnested : (ofDocument d).Nested)
    (hcut : (ofDocument d).Cut) (hreturns : (ofDocument d).OffReturns)
    (h : target? (ofDocument d) s = some target) :
    ∃ e outer before inner value behind patches,
      (ofDocument d).get? target.expression = some e ∧
      (ofDocument d).get? target.statement = some outer ∧
      outer.range.start ≤ e.range.start ∧
      d.text = before ++ inner ++ value ++ behind ∧
      outer.range.start = Text.size before ∧ e.range.start = Text.size (before ++ inner) ∧
      e.range.stop = Text.size (before ++ inner ++ value) ∧
      transform (ofDocument d) s settings = .ok (.patches patches (some .renameSymbol)) ∧
      patches.length = 2 ∧ (∃ span, d.text.span? s = some span) ∧
      ∀ carried, (∃ span, d.text.span? carried = some span) →
        ∃ selection, applyPatches d.text carried patches =
          .ok (before ++ "const ".toList ++ settings.extractedName ++ " = ".toList ++ value ++
            ";\n".toList ++ d.text.indentation outer.range.start ++ inner ++
            settings.extractedName ++ behind, selection) := by
  obtain ⟨e, outer, hworks, -, he, -, hinside⟩ := exists_site hnested h
  have houter := hworks.entry
  obtain ⟨value, hvalue, htransform⟩ := exists_transform hcut h he houter
  obtain ⟨before, inner, value', behind, htext, hbefore, hinner, hbehind⟩ :=
    exists_parts (hcut.hasRange houter).start_cut (hcut.hasRange he).start_cut
      (hcut.hasRange he).stop_cut hinside.1 (hcut.hasRange he).start_le_stop
  -- what is cut out of the text is what stands there
  obtain rfl : value' = value := by
    have hslice : d.text.slice? e.range.start e.range.stop = some value' :=
      Text.slice?_eq_some_iff.mpr ⟨before ++ inner, behind, htext, hinner, by
        rw [← Text.size_append, hbehind]⟩
    exact Option.some.inj (hslice.symm.trans (Document.slice_eq_ok.mp hvalue))
  refine ⟨e, outer, before, inner, value', behind, _, he, houter, hinside.1, htext, hbefore.symm,
    hinner.symm, hbehind.symm, htransform settings, rfl, hworks.exists_span?,
    fun carried hcarried => ?_⟩
  have hbatch := toBatch_extraction hcut hreturns h he houter
    (declaration settings.extractedName value' (d.text.indentation outer.range.start))
    settings.extractedName
  obtain ⟨selection, happly⟩ :=
    exists_applyPatches htext hbefore hinner hbehind hbatch hcarried
  rw [append_declaration] at happly
  exact ⟨selection, happly⟩

/-- Two-character line breaks, letters of two bytes, and a statement that starts with the
expression: nothing stands between the declaration and the name. -/
theorem applyPatches_extraction_returns :
    ∃ d, Document.parse {} "\x7b\r\n  \"ü\" + é;\r\n\x7d".toList = .ok d ∧
      (ofDocument d).Nested ∧ (ofDocument d).Cut ∧ (ofDocument d).OffReturns ∧
      target? (ofDocument d) (.cursor ⟨1, 3⟩) = some ⟨4, 2⟩ ∧
      ∃ patches selection,
        transform (ofDocument d) (.cursor ⟨1, 3⟩) {} = .ok (.patches patches (some .renameSymbol)) ∧
        applyPatches d.text (.cursor ⟨1, 3⟩) patches =
          .ok ("\x7b\r\n  const extracted = \"ü\";\n  extracted + é;\r\n\x7d".toList, selection) := by
  obtain ⟨d, hd, hnested, hcut, hreturns, htarget, hout⟩ :
      ∃ d, Document.parse {} "\x7b\r\n  \"ü\" + é;\r\n\x7d".toList = .ok d ∧
        (ofDocument d).Nested ∧ (ofDocument d).Cut ∧ (ofDocument d).OffReturns ∧
        target? (ofDocument d) (.cursor ⟨1, 3⟩) = some ⟨4, 2⟩ ∧
        ((transform (ofDocument d) (.cursor ⟨1, 3⟩) {}).toOption.bind fun x =>
          (x.output d.text (.cursor ⟨1, 3⟩)).toOption) =
            some "\x7b\r\n  const extracted = \"ü\";\n  extracted + é;\r\n\x7d".toList :=
    Document.exists_parse (by decide +kernel)
  obtain ⟨e, outer, before, inner, value, behind, patches, -, -, -, -, -, -, -, htransform, -,
    hspan, happly⟩ := applyPatches_extraction {} hnested hcut hreturns htarget
  obtain ⟨selection, happly⟩ := happly _ hspan
  obtain ⟨x, hx, houtput⟩ := Option.bind_eq_some_iff.mp hout
  obtain rfl := Except.ok.inj (htransform.symm.trans (Outcome.eq_ok_of_toOption hx))
  rw [Transformation.output, happly] at houtput
  obtain houtput := Option.some.inj houtput
  exact ⟨d, hd, hnested, hcut, hreturns, htarget, patches, selection, htransform,
    houtput ▸ happly⟩

/-- **Selecting the extracted expression extracts it again.** Let constructs end between characters.
Where an extraction applies, with a cursor or with a range selected, it applies as well if exactly
the expression that it found is selected; it then finds the same expression and the same statement,
and has the same patches. -/
theorem transform_selection (hcut : (ofDocument d).Cut)
    (h : target? (ofDocument d) s = some target) :
    ∃ e, (ofDocument d).get? target.expression = some e ∧
      target? (ofDocument d) e.selection = some target ∧
      ∀ settings : Settings, ∃ patches,
        transform (ofDocument d) s settings = .ok (.patches patches (some .renameSymbol)) ∧
        transform (ofDocument d) e.selection settings =
          .ok (.patches patches (some .renameSymbol)) := by
  obtain ⟨outer, houter⟩ := (meetsFirst_of_target? h).meets.under.exists_get?
  obtain ⟨-, form, hform, -⟩ := isExtractable_of_target? h
  obtain ⟨e, he, -⟩ := Option.map_eq_some_iff.mp hform
  have hselected := target?_selection hcut h he
  refine ⟨e, he, hselected, fun settings => ?_⟩
  obtain ⟨value, hvalue, htransform⟩ := exists_transform hcut h he houter
  obtain ⟨value', hvalue', htransform'⟩ := exists_transform hcut hselected he houter
  obtain rfl : value = value' := Except.ok.inj (hvalue.symm.trans hvalue')
  exact ⟨_, htransform settings, htransform' settings⟩

/-- A cursor in a literal, and the whole literal selected. -/
theorem transform_selection_literal :
    ∃ d, Document.parse {} "f(\"abc\");".toList = .ok d ∧ (ofDocument d).Cut ∧
      target? (ofDocument d) (.cursor ⟨0, 4⟩) = some ⟨4, 1⟩ ∧
      target? (ofDocument d) (.between ⟨0, 2⟩ ⟨0, 7⟩) = some ⟨4, 1⟩ ∧
      transform (ofDocument d) (.between ⟨0, 2⟩ ⟨0, 7⟩) {} =
        transform (ofDocument d) (.cursor ⟨0, 4⟩) {} := by
  obtain ⟨d, hd, hcut, htarget, hselection⟩ :
      ∃ d, Document.parse {} "f(\"abc\");".toList = .ok d ∧ (ofDocument d).Cut ∧
        target? (ofDocument d) (.cursor ⟨0, 4⟩) = some ⟨4, 1⟩ ∧
        ((ofDocument d).get? 4).map Entry.selection = some (.between ⟨0, 2⟩ ⟨0, 7⟩) :=
    Document.exists_parse (by decide +kernel)
  obtain ⟨e, he, hagain, hpatches⟩ := transform_selection hcut htarget
  rw [he, Option.map_some] at hselection
  rw [Option.some.inj hselection] at hagain hpatches
  obtain ⟨patches, hcursor, hrange⟩ := hpatches {}
  exact ⟨d, hd, hcut, htarget, hagain, hrange.trans hcursor.symm⟩

end Variable

end Retouch
