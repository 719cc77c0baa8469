import Retouch.Proofs.Offers

/-!
# What refactorings leave alone

Every edit of a refactoring lies in the construct that it works in, so the text before and behind
that construct comes out as it went in. Where an edit takes white space away, or goes by way of
lines and columns, this holds because constructs neither start nor end with white space.

- `Text.ChangesOnly`: two texts that differ in one range only.
- `Batch.apply_changesOnly`: edits in a range change nothing outside of it.
- `Tree.Solid.ink`: what a construct without white space at its ends has there.
- `Braces.edits_within`, `Switch.edit_within`, `Variable.patches_within`,
  `GenericType.edits_within`, `Ternary.edits_within`: where the edits of each refactoring lie.
- `Refactoring.transform_changesOnly`: the new document differs from the old one in the range of the
  chosen construct only.
-/

namespace Retouch

open Syntax (Node Form)

/-- Two texts that differ in a byte range of the first one only. -/
def Text.ChangesOnly (old new : Text) (range : Span) : Prop :=
  ∃ before inner inner' after, old = before ++ inner ++ after ∧ new = before ++ inner' ++ after ∧
    Text.size before = range.start ∧ Text.size before + Text.size inner = range.stop

/-! ## Edits in a range -/

namespace Batch

/-- Edits that all lie in a range. -/
def Within (batch : Batch) (range : Span) : Prop :=
  ∀ e ∈ batch, e.span.IsInside range

/-- A layout leaves alone what stands behind the ends of all its edits. -/
theorem Laid.exists_end {offset : Nat} {edits : List Edit} {rest output : Text}
    (h : Laid offset edits rest output) {middle after : Text} (hrest : rest = middle ++ after)
    (hstop : ∀ e ∈ edits, e.span.stop ≤ offset + middle.size) : ∃ new, output = new ++ after := by
  induction h generalizing middle with
  | nil rest => exact ⟨middle, hrest⟩
  | @cons offset e edits gap replaced rest output hgap hreplaced _ ih =>
    have he := hstop e List.mem_cons_self
    have hsize : Text.size (gap ++ replaced) ≤ middle.size := by
      rw [Text.size_append]
      omega
    obtain ⟨middle', rfl, rfl⟩ := Text.exists_middle hrest hsize
    obtain ⟨new, rfl⟩ := ih rfl fun f hf => by
      have hf := hstop f (List.mem_cons_of_mem e hf)
      rw [Text.size_append, Text.size_append] at hf
      omega
    exact ⟨gap ++ e.text ++ new, (List.append_assoc ..).symm⟩

/-- Edits in a range change nothing outside of it. -/
theorem apply_changesOnly {batch : Batch} {source output : Text} {range : Span}
    (h : batch.apply source = .ok output) (hcut : source.cutsAt range = true)
    (hle : range.start ≤ range.stop) (hwithin : batch.Within range) :
    source.ChangesOnly output range := by
  obtain ⟨hfits, -⟩ := laid_of_apply h
  obtain ⟨hstart, hstop⟩ := Text.cutsAt_iff.mp hcut
  obtain ⟨inner, hinner⟩ := Text.exists_slice? hstart hstop hle
  obtain ⟨before, after, hsource, hbefore, hsize⟩ := Text.slice?_eq_some_iff.mp hinner
  -- the edits work on what stands behind `before`
  obtain ⟨rest, hlaid, hfold⟩ := exists_laid batch.ordered before (inner ++ after)
    (by rw [hsource, List.append_assoc]) (fun e he => hfits.each e (mem_ordered.mp he)) hfits.apart
    (fun e he => hbefore ▸ (hwithin e (mem_ordered.mp (List.mem_of_mem_head? he))).1)
  obtain ⟨inner', rfl⟩ := hlaid.exists_end rfl fun e he => by
    have hend := (hwithin e (mem_ordered.mp he)).2
    omega
  refine ⟨before, inner, inner', after, hsource, ?_, hbefore, hsize⟩
  rw [apply, check_eq_none_iff.mpr hfits, ascending_eq_ordered, hfold] at h
  rw [← Except.ok.inj h, List.append_assoc]

end Batch

/-! ## Constructs without white space at their ends -/

namespace Tree

variable {d : Document} {n : Node} {id : Nat} {e : Entry}

/-- A solid construct starts and ends beside a character that is no white space. -/
theorem Solid.ink (hsolid : (ofDocument d).Solid) (he : (ofDocument d).get? id = some e)
    (hparent : e.parent ≠ none) :
    d.text.InkAt e.range.start ∧ d.text.InkBefore e.range.stop ∧ e.range.start < e.range.stop := by
  obtain ⟨part, hpart, hends⟩ :=
    (Option.any_eq_true _ _).mp (hsolid e (mem_entries_of_get? he) hparent)
  obtain ⟨before, after, htext, hstart, hstop⟩ := Text.slice?_eq_some_iff.mp hpart
  change d.text = before ++ part ++ after at htext
  rw [Text.isSolid, Bool.and_eq_true] at hends
  obtain ⟨⟨first, hfirst, hfirstInk⟩, last, hlast, hlastInk⟩ :=
    And.imp (Option.any_eq_true _ _).mp (Option.any_eq_true _ _).mp hends
  rw [Bool.not_eq_true'] at hfirstInk hlastInk
  obtain ⟨rest, rfl⟩ := List.head?_eq_some_iff.mp hfirst
  obtain ⟨init, hinit⟩ := List.getLast?_eq_some_iff.mp hlast
  have hpos := first.utf8Size_pos
  refine ⟨⟨before, first, rest ++ after, by simp [htext], hstart, hfirstInk⟩,
    ⟨before ++ init, last, after, ?_, ?_, hlastInk⟩, ?_⟩
  · rw [htext, hinit]
    simp
  · rw [List.append_assoc, ← hinit, Text.size_append, hstop]
  · rw [Text.size_cons] at hstop
    omega

theorem Solid.ink_of_shows (hsolid : (ofDocument d).Solid) (hn : d.Shows n) :
    d.text.InkAt (d.range n.span).start ∧ d.text.InkBefore (d.range n.span).stop ∧
      (d.range n.span).start < (d.range n.span).stop := by
  obtain ⟨id, e, he, hparent, rfl⟩ := hn
  exact range_of_parent he hparent ▸ hsolid.ink he hparent

end Tree

variable {d : Document} {s : Selection} {settings : Settings}

/-! ## Every refactoring -/

/-- Both sides lie in their `if`, behind the first character of it; and if the second side is there,
then the first one ends before a character that is no white space. -/
theorem Braces.sides_inside (h : (Tree.ofDocument d).WellSpanned)
    (hsolid : (Tree.ofDocument d).Solid) {n test yes no : Node} (hn : d.Shows n)
    (hform : n.form = .stmt .ifElse) (hparts : n.parts = [test, yes, no]) :
    ((d.range yes.span).IsInside (d.range n.span) ∧
        (d.range n.span).start < (d.range yes.span).start) ∧
      (no.isPresent = true →
        ((d.range no.span).IsInside (d.range n.span) ∧
          (d.range n.span).start < (d.range no.span).start) ∧
        d.text.InkAt (d.range no.span).start ∧
          (d.range yes.span).stop ≤ (d.range no.span).start) := by
  obtain ⟨⟨htest, htestIn, -⟩, ⟨-, hyesIn⟩, hno⟩ := h.shows_ifElse hn hform hparts
  obtain ⟨htestYes, hyesNo⟩ := h.ifElse_inOrder hn hform hparts
  obtain ⟨-, -, htestPos⟩ := hsolid.ink_of_shows htest
  -- the test stands between the start of the `if` and both sides
  have hyesStart : (d.range n.span).start < (d.range yes.span).start :=
    calc (d.range n.span).start
      _ ≤ (d.range test.span).start := htestIn
      _ < (d.range test.span).stop := htestPos
      _ ≤ (d.range yes.span).start := htestYes
  refine ⟨⟨hyesIn, hyesStart⟩, fun hpresent => ?_⟩
  obtain ⟨hshown, hnoIn⟩ := hno hpresent
  have hnoStart : (d.range n.span).start < (d.range no.span).start :=
    calc (d.range n.span).start
      _ < (d.range yes.span).start := hyesStart
      _ ≤ (d.range yes.span).stop := d.range_ordered yes.span
      _ ≤ (d.range no.span).start := hyesNo hpresent
  exact ⟨⟨hnoIn, hnoStart⟩, (hsolid.ink_of_shows hshown).1, hyesNo hpresent⟩

/-- Braces stay in the `if` that gets them: the white space before the body does not reach back over
its first character, and that behind the body does not reach beyond the `else` side. -/
theorem Braces.edits_within (h : (Tree.ofDocument d).WellSpanned)
    (hsolid : (Tree.ofDocument d).Solid) {target : Target}
    (htarget : target? (Tree.ofDocument d) s = some target) {batch : Batch}
    (hbatch : edits d settings target = .ok batch) :
    ∃ id e, Refactoring.addBraces.WorksAt (Tree.ofDocument d) s id e ∧ batch.Within e.range := by
  obtain ⟨id, e, test, yes, no, hworks, -, hform, hparts, halternate, hside⟩ := exists_site htarget
  refine ⟨id, e, hworks, ?_⟩
  obtain ⟨hshown, hrange⟩ := h.shows_node hworks.entry (by rw [hform]; exact nofun)
  obtain ⟨hyes, hno⟩ := sides_inside h hsolid hshown hform hparts
  obtain ⟨start, stop, opening, closing, hstart, rfl, hclosing⟩ := edits_ok hbatch
  rw [← hrange] at hyes hno
  have hbody : (d.range target.body.span).IsInside e.range ∧
      e.range.start < (d.range target.body.span).start := by
    rcases hside with ⟨-, hbody⟩ | ⟨-, hbody, hpresent⟩
    · exact hbody ▸ hyes
    · exact hbody ▸ (hno hpresent).1
  have hordered := d.range_ordered target.body.span
  have hstartIn : e.range.start ≤ start :=
    (hrange ▸ (hsolid.ink_of_shows hshown).1 : d.text.InkAt e.range.start).le_blankStart
      hbody.2 hstart
  have hstopIn : stop ≤ e.range.stop := by
    rcases hclosing with ⟨hconsequent, hmore, hstop⟩ | rfl
    · rcases hside with ⟨-, hbody⟩ | ⟨hother, -⟩
      · obtain ⟨⟨hnoIn, -⟩, hink, hapart⟩ := hno (halternate ▸ hmore)
        have hle := hink.blankEnd_le (hbody ▸ hapart) hstop
        exact Nat.le_trans hle (Nat.le_trans (d.range_ordered no.span) hnoIn.2)
      · rw [hconsequent] at hother
        cases hother
    · exact hbody.1.2
  obtain ⟨⟨hbodyStart, hbodyStop⟩, -⟩ := hbody
  intro edit hedit
  simp only [List.mem_cons, List.not_mem_nil, or_false] at hedit
  rcases hedit with rfl | rfl
  · exact ⟨hstartIn, Nat.le_trans hordered hbodyStop⟩
  · exact ⟨Nat.le_trans hbodyStart hordered, hstopIn⟩

/-- A switch takes the place of the whole chain. -/
theorem Switch.edit_within (h : (Tree.ofDocument d).WellSpanned) {target : Target}
    (htarget : target? (Tree.ofDocument d) s = some target) (text : Text) :
    ∃ id e, Refactoring.convertToSwitch.WorksAt (Tree.ofDocument d) s id e ∧
      Batch.Within [⟨d.range target.head.span, text⟩] e.range := by
  obtain ⟨id, e, hworks, hhead, hform, -⟩ := exists_site htarget
  obtain ⟨-, hrange⟩ := h.shows_node hworks.entry (by rw [hform]; exact nofun)
  refine ⟨id, e, hworks, ?_⟩
  rw [hhead, ← hrange]
  simp [Batch.Within, Span.IsInside]

/-- A flip stays in the conditional expression. -/
theorem Ternary.edits_within (h : (Tree.ofDocument d).WellSpanned) {target : Target}
    (htarget : target? (Tree.ofDocument d) s = some target) {batch : Batch}
    (hbatch : edits d target = .ok batch) :
    ∃ id e, Refactoring.flipTernary.WorksAt (Tree.ofDocument d) s id e ∧ batch.Within e.range := by
  obtain ⟨id, e, hworks, hform, hparts⟩ := exists_site htarget
  refine ⟨id, e, hworks, ?_⟩
  obtain ⟨hshown, hrange⟩ := h.shows_node hworks.entry (by rw [hform]; exact nofun)
  have hpart : ∀ part ∈ [target.test, target.yes, target.no],
      (d.range part.span).IsInside e.range := fun part hmem =>
    hrange ▸ (h.shows_every_part hshown (by rw [hform]; rfl) (by rw [hform]; exact nofun)
      (hparts ▸ hmem)).2
  obtain ⟨a, b, c, rfl⟩ := edits_ok hbatch
  simpa [Batch.Within] using hpart

/-- The new parameter and its use stay in the declaration. -/
theorem GenericType.edits_within (h : (Tree.ofDocument d).WellSpanned)
    (hheads : (Tree.ofDocument d).HeadsInside) {target : Target}
    (htarget : target? (Tree.ofDocument d) s = some target) {type : Entry}
    (htype : (Tree.ofDocument d).get? target.type = some type) (name written : Text) :
    ∃ id e, Refactoring.extractGenericType.WorksAt (Tree.ofDocument d) s id e ∧
      Batch.Within [parameterEdit d target.owner name written, ⟨type.range, name⟩] e.range := by
  obtain ⟨id, e, type', hworks, howner, htype', hunder⟩ := exists_site h.nested htarget
  obtain rfl : type = type' := Option.some.inj (htype.symm.trans htype')
  refine ⟨id, e, hworks, ?_⟩
  have hinside := h.nested.isInside_of_under hunder htype hworks.entry
  have hhead : ∀ head ∈ target.owner.heads, (d.range head.span).IsInside e.range ∧
      (d.range head.span).start < (d.range head.span).stop :=
    hheads e (Tree.mem_entries_of_get? hworks.entry) target.owner howner
  obtain ⟨n, hspan, hplace⟩ := parameterEdit_span d target.owner name written
  have hn : e.range.start ≤ n ∧ n ≤ e.range.stop := by
    rcases hplace with ⟨hpresent, rfl⟩ | rfl
    · obtain ⟨⟨hstart, hstop⟩, hpos⟩ := hhead _ (target.owner.parameters_mem_heads hpresent)
      omega
    · obtain ⟨⟨hstart, hstop⟩, hpos⟩ := hhead _ target.owner.name_mem_heads
      omega
  simpa [Batch.Within, hspan, Span.IsInside] using ⟨hn, hinside⟩

/-- The patches of an extraction are edits at the start of the statement and in the place of the
expression, if the positions of these places lead back to them. -/
theorem Variable.toBatch_of_offset? {statement id : Nat} {outer e : Entry}
    (houter : (Tree.ofDocument d).get? statement = some outer)
    (he : (Tree.ofDocument d).get? id = some e)
    (hplace : d.text.offset? (d.text.position outer.range.start) = some outer.range.start)
    (hstart : d.text.offset? (d.text.position e.range.start) = some e.range.start)
    (hstop : d.text.offset? (d.text.position e.range.stop) = some e.range.stop)
    (code name : Text) :
    Patch.toBatch d.text [⟨code, outer.selection.collapse⟩, ⟨name, e.selection⟩] =
      .ok [⟨⟨outer.range.start, outer.range.start⟩, code⟩, ⟨e.range, name⟩] := by
  rw [Tree.selection_eq houter, Tree.selection_eq he,
    d.text.selection_of_le (Tree.range_ordered houter).1,
    d.text.selection_of_le (Tree.range_ordered he).1]
  simp only [Patch.toBatch, Patch.toEdit, Text.span?, Selection.collapse, Selection.cursor, hplace,
    hstart, hstop]

/-- Positions of solid constructs lead back to their ranges. -/
theorem Variable.toBatch_patches (h : (Tree.ofDocument d).WellSpanned)
    (hsolid : (Tree.ofDocument d).Solid) {statement id : Nat} {outer e : Entry}
    (houter : (Tree.ofDocument d).get? statement = some outer)
    (hstatement : outer.node.form.isStatement = true)
    (he : (Tree.ofDocument d).get? id = some e) (hexpression : e.node.form.isExpression = true)
    (code name : Text) :
    Patch.toBatch d.text [⟨code, outer.selection.collapse⟩, ⟨name, e.selection⟩] =
        .ok [⟨⟨outer.range.start, outer.range.start⟩, code⟩, ⟨e.range, name⟩] ∧
      e.range.start < e.range.stop := by
  have houterParent : outer.parent ≠ none := h.parent_ne_none houter fun hform => by
    rw [hform] at hstatement
    cases hstatement
  have heParent : e.parent ≠ none := h.parent_ne_none he fun hform => by
    rw [hform] at hexpression
    cases hexpression
  obtain ⟨houterInk, -, -⟩ := hsolid.ink houter houterParent
  obtain ⟨hstartInk, hstopInk, hlt⟩ := hsolid.ink he heParent
  exact ⟨toBatch_of_offset? houter he houterInk.offset?_position hstartInk.offset?_position
    hstopInk.offset?_position code name, hlt⟩

/-- The patches of an extraction stay in the statement. -/
theorem Variable.patches_within (h : (Tree.ofDocument d).WellSpanned)
    (hsolid : (Tree.ofDocument d).Solid) {statement id : Nat} {outer e : Entry}
    (houter : (Tree.ofDocument d).get? statement = some outer)
    (hstatement : outer.node.form.isStatement = true)
    (he : (Tree.ofDocument d).get? id = some e) (hexpression : e.node.form.isExpression = true)
    (hinside : e.range.IsInside outer.range) {code name : Text} {batch : Batch}
    (hbatch : Patch.toBatch d.text [⟨code, outer.selection.collapse⟩, ⟨name, e.selection⟩]
      = .ok batch) : batch.Within outer.range := by
  obtain ⟨hedits, -⟩ := toBatch_patches h hsolid houter hstatement he hexpression code name
  have hordered := (Tree.range_ordered houter).1
  cases hedits.symm.trans hbatch
  simpa [Batch.Within, Span.IsInside] using ⟨hordered, hinside⟩

theorem Transformation.madeBy_of_ofBatch {batch : Batch} {x : Transformation}
    (h : Transformation.ofBatch (Tree.ofDocument d) batch s = .ok x) : x.MadeBy d s batch := by
  unfold Transformation.ofBatch at h
  split at h
  · next text selection happly =>
    cases h
    exact happly
  · cases h

/-- Edits that are applied make a document. -/
theorem Transformation.exists_document {batch : Batch} {x : Transformation}
    (h : Transformation.ofBatch (Tree.ofDocument d) batch s = .ok x) :
    ∃ text selection, batch.apply d.text = .ok text ∧ x = .document text selection := by
  unfold Transformation.ofBatch at h
  split at h
  · next text selection happly =>
    cases h
    exact ⟨text, selection, (Batch.applyWithSelection_ok happly).1, rfl⟩
  · cases h

/-- What a transformation makes of a document is what its edits make of the text. -/
theorem Transformation.MadeBy.exists_output {x : Transformation} {batch : Batch}
    (h : x.MadeBy d s batch) :
    ∃ output, x.output d.text s = .ok output ∧ batch.apply d.text = .ok output := by
  cases x with
  | document text selection => exact ⟨text, rfl, (Batch.applyWithSelection_ok h).1⟩
  | patches list followUp =>
    obtain ⟨hbatch, text, selection, happly⟩ := h
    obtain ⟨batch', hbatch', hresult⟩ := applyPatches_ok happly
    obtain rfl : batch = batch' := Except.ok.inj (hbatch.symm.trans hbatch')
    refine ⟨text, ?_, (Batch.applyWithSelection_ok hresult).1⟩
    rw [Transformation.output, happly]

namespace Refactoring

/-- Whatever a refactoring does, it does by edits in the construct that it works in. -/
theorem transform_within (h : (Tree.ofDocument d).WellSpanned)
    (hheads : (Tree.ofDocument d).HeadsInside) (hsolid : (Tree.ofDocument d).Solid)
    {r : Refactoring} {x : Transformation}
    (hx : r.transform (Tree.ofDocument d) s settings = .ok x) :
    ∃ id e batch, r.WorksAt (Tree.ofDocument d) s id e ∧ Batch.Within batch e.range ∧
      x.MadeBy d s batch := by
  cases r with
  | addBraces =>
    change Braces.transform (Tree.ofDocument d) s settings = .ok x at hx
    unfold Braces.transform at hx
    split at hx
    · cases hx
    · next target htarget =>
      obtain ⟨batch, hbatch, hx⟩ := Outcome.bind_eq_ok hx
      obtain ⟨id, e, hworks, hwithin⟩ := Braces.edits_within h hsolid htarget hbatch
      exact ⟨id, e, batch, hworks, hwithin, Transformation.madeBy_of_ofBatch hx⟩
  | convertToSwitch =>
    change Switch.transform (Tree.ofDocument d) s settings = .ok x at hx
    unfold Switch.transform at hx
    split at hx
    · cases hx
    · next target htarget =>
      obtain ⟨text, -, hx⟩ := Outcome.bind_eq_ok hx
      obtain ⟨id, e, hworks, hwithin⟩ := Switch.edit_within h htarget text
      exact ⟨id, e, _, hworks, hwithin, Transformation.madeBy_of_ofBatch hx⟩
  | extractVariable =>
    obtain ⟨statement, outer, id, e, code, hworks, hstatement, he, hexpression, hinside, rfl⟩ :=
      Variable.transform_ok h.nested hx
    obtain ⟨-, batch, -, hmade⟩ := Variable.patches_goThrough hworks he hinside code
      settings.extractedName (some .renameSymbol)
    exact ⟨statement, outer, batch, hworks, Variable.patches_within h hsolid hworks.entry hstatement
      he hexpression hinside hmade.1, hmade⟩
  | extractGenericType =>
    change GenericType.transform (Tree.ofDocument d) s = .ok x at hx
    unfold GenericType.transform at hx
    split at hx
    · cases hx
    · next target htarget =>
      split at hx
      · cases hx
      · next type htype =>
        obtain ⟨written, -, hx⟩ := Outcome.bind_eq_ok hx
        obtain ⟨id, e, hworks, hwithin⟩ := GenericType.edits_within h hheads htarget htype _ written
        exact ⟨id, e, _, hworks, hwithin, Transformation.madeBy_of_ofBatch hx⟩
  | flipTernary =>
    change Ternary.transform (Tree.ofDocument d) s = .ok x at hx
    unfold Ternary.transform at hx
    split at hx
    · cases hx
    · next target htarget =>
      obtain ⟨batch, hbatch, hx⟩ := Outcome.bind_eq_ok hx
      obtain ⟨id, e, hworks, hwithin⟩ := Ternary.edits_within h htarget hbatch
      exact ⟨id, e, batch, hworks, hwithin, Transformation.madeBy_of_ofBatch hx⟩

/-- **Text outside of the chosen construct stays as it is.** Let a tree be well spanned, with the
names and type parameters of declarations in them, and let no construct start or end with white
space. Then a refactoring that gives a transformation works in a construct around the selection, and
the new document differs from the old one in the range of that construct only. Such a transformation
is there wherever the refactoring applies, once type parameters end in a bracket and the operators
of equalities stand between their operands. -/
theorem transform_changesOnly {d : Document} (h : (Tree.ofDocument d).WellSpanned)
    (hheads : (Tree.ofDocument d).HeadsInside) (hsolid : (Tree.ofDocument d).Solid)
    (r : Refactoring) (s : Selection) (settings : Settings) :
    (∀ x, r.transform (Tree.ofDocument d) s settings = .ok x →
      ∃ id e output, r.WorksAt (Tree.ofDocument d) s id e ∧ x.output d.text s = .ok output ∧
        d.text.ChangesOnly output e.range) ∧
    ((Tree.ofDocument d).ListsClosed → (Tree.ofDocument d).OperatorsBetween →
      r.canPerform (Tree.ofDocument d) s = true →
        ∃ x, r.transform (Tree.ofDocument d) s settings = .ok x) := by
  constructor
  · intro x hx
    obtain ⟨id, e, batch, hworks, hwithin, hmade⟩ := transform_within h hheads hsolid hx
    obtain ⟨output, houtput, happly⟩ := hmade.exists_output
    have hcut := h.cut e (Tree.mem_entries_of_get? hworks.entry)
    exact ⟨id, e, output, hworks, houtput,
      Batch.apply_changesOnly happly hcut (Tree.range_ordered hworks.entry).1 hwithin⟩
  · intro hclosed hoperators hcan
    obtain ⟨x, hx, -⟩ := transform_of_canPerform h hclosed hoperators hcan settings
    exact ⟨x, hx⟩

/-- Braces for the first side of an `if` between two other statements: the white space on both sides
of the body goes, and nothing around the `if` does. -/
theorem transform_changesOnly_braces :
    ∃ d x, Document.parse {} "x();\nif (a)\n  f(1);\nelse g();\ny();".toList = .ok d ∧
      (Tree.ofDocument d).WellSpanned ∧ (Tree.ofDocument d).HeadsInside ∧
      (Tree.ofDocument d).Solid ∧
      addBraces.transform (Tree.ofDocument d) (.cursor ⟨2, 3⟩) {} = .ok x ∧
      (x.output d.text (.cursor ⟨2, 3⟩)).toOption
        = some "x();\nif (a) \x7b\n  f(1);\n\x7d else g();\ny();".toList ∧
      ∃ id e output, addBraces.WorksAt (Tree.ofDocument d) (.cursor ⟨2, 3⟩) id e ∧
        x.output d.text (.cursor ⟨2, 3⟩) = .ok output ∧ d.text.ChangesOnly output e.range := by
  obtain ⟨d, hd, h, hheads, hsolid, hclosed, hoperators, hcan, hresult⟩ :
      ∃ d, Document.parse {} "x();\nif (a)\n  f(1);\nelse g();\ny();".toList = .ok d ∧
        (Tree.ofDocument d).WellSpanned ∧ (Tree.ofDocument d).HeadsInside ∧
        (Tree.ofDocument d).Solid ∧ (Tree.ofDocument d).ListsClosed ∧
        (Tree.ofDocument d).OperatorsBetween ∧
        addBraces.canPerform (Tree.ofDocument d) (.cursor ⟨2, 3⟩) = true ∧
        ((addBraces.transform (Tree.ofDocument d) (.cursor ⟨2, 3⟩) {}).toOption.bind fun x =>
          (x.output d.text (.cursor ⟨2, 3⟩)).toOption)
            = some "x();\nif (a) \x7b\n  f(1);\n\x7d else g();\ny();".toList :=
    Document.exists_parse (by decide +kernel)
  obtain ⟨hframe, hgoes⟩ := transform_changesOnly h hheads hsolid addBraces (.cursor ⟨2, 3⟩) {}
  obtain ⟨x, hx⟩ := hgoes hclosed hoperators hcan
  rw [hx] at hresult
  exact ⟨d, x, hd, h, hheads, hsolid, hx, hresult, hframe x hx⟩

/-! In the range of the chosen construct the new text may be none of the language. -/

/-- Behind a line comment the brace that should open the block becomes part of the comment, and the
new document cannot be parsed. -/
theorem wrap_loses_brace :
    ∃ d x new, Document.parse {} "if (a) // c\n  b();".toList = .ok d ∧
      addBraces.transform (Tree.ofDocument d) (.cursor ⟨0, 0⟩) {} = .ok x ∧
      x.output d.text (.cursor ⟨0, 0⟩) = .ok new ∧
      new = "if (a) // c \x7b\n  b();\n\x7d".toList ∧
      ∀ d', Document.parse {} new ≠ .ok d' := by
  obtain ⟨d, hd, hwrap⟩ :
      ∃ d, Document.parse {} "if (a) // c\n  b();".toList = .ok d ∧
        ((addBraces.transform (Tree.ofDocument d) (.cursor ⟨0, 0⟩) {}).toOption.bind fun x =>
          (x.output d.text (.cursor ⟨0, 0⟩)).toOption)
            = some "if (a) // c \x7b\n  b();\n\x7d".toList :=
    Document.exists_parse (by decide +kernel)
  have hfails : (Document.parse {} "if (a) // c \x7b\n  b();\n\x7d".toList).toBool = false := by
    decide +kernel
  obtain ⟨x, hx, hout⟩ := Option.bind_eq_some_iff.mp hwrap
  refine ⟨d, x, _, hd, Outcome.eq_ok_of_toOption hx, Outcome.eq_ok_of_toOption hout, rfl,
    fun d' hd' => ?_⟩
  rw [hd'] at hfails
  cases hfails

/-- Behind a comma that ends a list of type parameters stands another one now, and the new document
cannot be parsed. -/
theorem transform_doubles_comma :
    ∃ d x new, Document.parse {} "interface A<U,> \x7b x: number; \x7d".toList = .ok d ∧
      extractGenericType.transform (Tree.ofDocument d) (.cursor ⟨0, 18⟩) {} = .ok x ∧
      x.output d.text (.cursor ⟨0, 18⟩) = .ok new ∧
      new = "interface A<U,, T = number> \x7b x: T; \x7d".toList ∧
      ∀ d', Document.parse {} new ≠ .ok d' := by
  obtain ⟨d, hd, hextract⟩ :
      ∃ d, Document.parse {} "interface A<U,> \x7b x: number; \x7d".toList = .ok d ∧
        ((extractGenericType.transform (Tree.ofDocument d) (.cursor ⟨0, 18⟩) {}).toOption.bind
          fun x => (x.output d.text (.cursor ⟨0, 18⟩)).toOption)
            = some "interface A<U,, T = number> \x7b x: T; \x7d".toList :=
    Document.exists_parse (by decide +kernel)
  have hfails : (Document.parse {} "interface A<U,, T = number> \x7b x: T; \x7d".toList).toBool =
      false := by
    decide +kernel
  obtain ⟨x, hx, hout⟩ := Option.bind_eq_some_iff.mp hextract
  refine ⟨d, x, _, hd, Outcome.eq_ok_of_toOption hx, Outcome.eq_ok_of_toOption hout, rfl,
    fun d' hd' => ?_⟩
  rw [hd'] at hfails
  cases hfails

end Refactoring

end Retouch
