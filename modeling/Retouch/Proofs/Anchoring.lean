import Retouch.Proofs.Coordinates
import Retouch.Proofs.Editor
import Retouch.Proofs.Frame
import Retouch.Proofs.Landing
import Retouch.Proofs.Slices

/-!
# The selection after an extraction

An extraction is followed by a command to rename the new constant, which works on the selection. So
the selection has to be on the name that has taken the place of the expression.

- `Variable.mapOffset_start`, `Variable.mapOffset_stop`: where the ends of the expression land.
- `Variable.run_selects_name`: the text and the selection after an extraction of what is selected.

The end of the expression lands at the end of the name. Its start lands at the start of the name
unless the statement starts with the expression: the declaration is then inserted at that very
offset, the offset stays before it, and the selection covers the declaration as well.
-/

namespace Retouch.Variable

open Batch (mapOffset wordCount)

/-! ## Where the ends of the expression land -/

section Landing

variable {o a b : Nat} {code name : Text}

theorem ascending_pair (h : o ≤ a) :
    Batch.ascending [⟨⟨o, o⟩, code⟩, ⟨⟨a, b⟩, name⟩] = [⟨⟨o, o⟩, code⟩, ⟨⟨a, b⟩, name⟩] := by
  simp [Batch.ascending, Batch.insertByStart, Nat.not_lt.mpr h]

theorem growth_insertion : Batch.growth ⟨⟨o, o⟩, code⟩ = (Text.size code : Int) := by
  simp [Batch.growth, Span.length]

/-- The start of what is replaced stays before a text that is inserted there, and is moved on by one
that is inserted before. -/
theorem mapOffset_start (hoa : o ≤ a) (hab : a < b) (hsize : a + Text.size code < wordCount) :
    mapOffset [⟨⟨o, o⟩, code⟩, ⟨⟨a, b⟩, name⟩] a = if o < a then a + Text.size code else a := by
  have hnonempty : Span.isEmpty ⟨a, b⟩ = false := by simp [Span.isEmpty, hab]
  have hinsertion : Span.isEmpty ⟨o, o⟩ = true := by simp [Span.isEmpty]
  unfold mapOffset Batch.landing
  rw [ascending_pair hoa]
  by_cases hlt : o < a
  · simp only [Batch.landFrom, hinsertion, hnonempty, hlt, Nat.not_le.mpr hab, Nat.lt_irrefl,
      growth_insertion, if_true, if_false, Bool.false_eq_true]
    have hword := @Batch.wordOf_natCast (a + Text.size code) hsize
    simpa using hword
  · simp only [Batch.landFrom, hinsertion, hlt, if_true, if_false]
    have hword := @Batch.wordOf_natCast a (by omega)
    simpa using hword

/-- The end of what is replaced lands at the end of the replacement. -/
theorem mapOffset_stop (hoa : o ≤ a) (hab : a < b)
    (hsize : a + Text.size code + Text.size name < wordCount) :
    mapOffset [⟨⟨o, o⟩, code⟩, ⟨⟨a, b⟩, name⟩] b = a + Text.size code + Text.size name := by
  have hnonempty : Span.isEmpty ⟨a, b⟩ = false := by simp [Span.isEmpty, hab]
  have hinsertion : Span.isEmpty ⟨o, o⟩ = true := by simp [Span.isEmpty]
  have hob : o < b := Nat.lt_of_le_of_lt hoa hab
  unfold mapOffset Batch.landing
  rw [ascending_pair hoa]
  simp only [Batch.landFrom, hinsertion, hnonempty, hob, Nat.le_refl, growth_insertion, if_true,
    if_false, Bool.false_eq_true]
  have hgrowth : (b : Int) + (0 + (Text.size code : Int) + Batch.growth ⟨⟨a, b⟩, name⟩) + (0 : Nat) =
      ((a + Text.size code + Text.size name : Nat) : Int) := by
    simp only [Batch.growth, Span.length]
    omega
  rw [hgrowth, Batch.wordOf_natCast hsize]

end Landing

section Extraction

variable {before inner value behind declared name : Text} {s : Selection}

/-- Declaring a value before what it stands in, and a name in its place. -/
theorem apply_extraction (before inner value behind declared name : Text) :
    Batch.apply
        [⟨⟨Text.size before, Text.size before⟩, declared⟩,
          ⟨⟨Text.size (before ++ inner), Text.size (before ++ inner ++ value)⟩, name⟩]
        (before ++ inner ++ value ++ behind) =
      .ok (before ++ declared ++ inner ++ name ++ behind) := by
  let pieces : List Batch.Piece := [⟨before, [], declared⟩, ⟨inner, value, name⟩]
  have hsource : before ++ inner ++ value ++ behind = Batch.Piece.source pieces behind := by
    simp [pieces, Batch.Piece.source]
  have hedits : ([⟨⟨Text.size before, Text.size before⟩, declared⟩,
      ⟨⟨Text.size (before ++ inner), Text.size (before ++ inner ++ value)⟩, name⟩] : Batch) =
        Batch.Piece.edits 0 pieces := by
    simp [pieces, Batch.Piece.edits, Nat.add_assoc]
  rw [hsource, hedits]
  obtain ⟨output, -, happly⟩ := Batch.exists_laid_of_fits (Batch.Piece.fits_edits pieces behind)
  rw [happly, Batch.Piece.result_of_apply happly rfl]
  simp [pieces, Batch.Piece.result]

/-- The selected value becomes a selection that ends behind the name. It starts where the name
starts, or before the declaration if nothing stands between. -/
theorem applyWithSelection_extraction (hvalue : value ≠ [])
    (hspan : Text.span? (before ++ inner ++ value ++ behind) s =
      some ⟨Text.size (before ++ inner), Text.size (before ++ inner ++ value)⟩)
    (hwords : Text.size (before ++ declared ++ inner ++ name ++ behind) < wordCount) :
    Batch.applyWithSelection
        [⟨⟨Text.size before, Text.size before⟩, declared⟩,
          ⟨⟨Text.size (before ++ inner), Text.size (before ++ inner ++ value)⟩, name⟩]
        (before ++ inner ++ value ++ behind) s =
      .ok (before ++ declared ++ inner ++ name ++ behind,
        Text.selection (before ++ declared ++ inner ++ name ++ behind)
          ⟨if inner = [] then Text.size before else Text.size (before ++ declared ++ inner),
            Text.size (before ++ declared ++ inner ++ name)⟩) := by
  have hpos (x : Text) (hx : x ≠ []) : 0 < Text.size x :=
    Nat.pos_of_ne_zero fun h => hx (Text.eq_nil_of_size_eq_zero h)
  have hvaluePos := hpos value hvalue
  simp only [Text.size_append] at hwords
  have hle : Text.size before ≤ Text.size (before ++ inner) := by
    rw [Text.size_append]
    omega
  have hlt : Text.size (before ++ inner) < Text.size (before ++ inner ++ value) := by
    rw [Text.size_append _ value]
    omega
  have hstart := @mapOffset_start _ _ _ declared name hle hlt (by rw [Text.size_append]; omega)
  have hstop := @mapOffset_stop _ _ _ declared name hle hlt (by rw [Text.size_append]; omega)
  have hstart' : (if Text.size before < Text.size (before ++ inner)
      then Text.size (before ++ inner) + Text.size declared else Text.size (before ++ inner)) =
        if inner = [] then Text.size before else Text.size (before ++ declared ++ inner) := by
    by_cases hinner : inner = []
    · subst hinner
      simp
    · have hinnerPos := hpos inner hinner
      rw [if_neg hinner, if_pos (by rw [Text.size_append]; omega)]
      simp only [Text.size_append]
      omega
  have hstop' : Text.size (before ++ inner) + Text.size declared + Text.size name =
      Text.size (before ++ declared ++ inner ++ name) := by
    simp only [Text.size_append]
    omega
  simp only [Batch.applyWithSelection, apply_extraction, hspan]
  rw [hstart, hstop, hstart', hstop']

/-- A name that is on one line. -/
def IsInline (name : Text) : Prop := name ≠ [] ∧ ∀ c ∈ name, c ≠ '\r' ∧ c ≠ '\n'

instance (name : Text) : Decidable (IsInline name) :=
  decidable_of_iff (name ≠ [] ∧ (name.all fun c => c != '\r' && c != '\n') = true)
    (by simp [IsInline])

/-- A selection that ends behind a name on one line covers what it is the selection of, unless this
starts with a line feed. -/
theorem span?_selection {x y z : Text} (hy : (y ++ name).head? ≠ some '\n')
    (hname : IsInline name) :
    Text.span? (x ++ y ++ name ++ z)
        (Text.selection (x ++ y ++ name ++ z) ⟨Text.size x, Text.size (x ++ y ++ name)⟩) =
      some ⟨Text.size x, Text.size (x ++ y ++ name)⟩ := by
  have hstart : Text.offset? (x ++ y ++ name ++ z)
      (Text.position (x ++ y ++ name ++ z) (Text.size x)) = some (Text.size x) := by
    have hassoc : x ++ y ++ name ++ z = x ++ (y ++ name ++ z) := by simp
    rw [hassoc]
    refine Text.offset?_position ?_
    rintro ⟨-, hnil | hfeed⟩
    · simp [hname.1] at hnil
    · have hne : y ++ name ≠ [] := by simp [hname.1]
      rw [List.head?_append_of_ne_nil _ hne] at hfeed
      exact hy hfeed
  have hstop : Text.offset? (x ++ y ++ name ++ z)
      (Text.position (x ++ y ++ name ++ z) (Text.size (x ++ y ++ name))) =
        some (Text.size (x ++ y ++ name)) := by
    refine Text.offset?_position ?_
    rintro ⟨hreturn, -⟩
    rw [List.getLast?_append_of_ne_nil _ hname.1] at hreturn
    exact (hname.2 _ (List.mem_of_getLast? hreturn)).1 rfl
  have hle : Text.size x ≤ Text.size (x ++ y ++ name) := by
    rw [List.append_assoc, Text.size_append]
    exact Nat.le_add_right _ _
  rw [Text.selection_of_le _ hle, Text.span?, hstart, hstop]

/-- The selection covers just the name if something stands between the declaration and the name. -/
theorem span?_extraction_iff (hdeclared : declared.head? = some 'c') (hname : IsInline name) :
    Text.span? (before ++ declared ++ inner ++ name ++ behind)
        (Text.selection (before ++ declared ++ inner ++ name ++ behind)
          ⟨if inner = [] then Text.size before else Text.size (before ++ declared ++ inner),
            Text.size (before ++ declared ++ inner ++ name)⟩) =
      some ⟨Text.size (before ++ declared ++ inner),
        Text.size (before ++ declared ++ inner ++ name)⟩ ↔ inner ≠ [] := by
  by_cases hinner : inner = []
  · subst hinner
    obtain ⟨rest, rfl⟩ := List.head?_eq_some_iff.mp hdeclared
    have hcovers := @span?_selection name before ('c' :: rest) behind nofun hname
    rw [if_pos rfl, List.append_nil, hcovers]
    have hpos := Char.utf8Size_pos 'c'
    simp only [Text.size_append, Text.size_cons, Option.some.injEq, Span.mk.injEq, ne_eq,
      not_true_eq_false, iff_false]
    omega
  · have hfeed : ([] ++ name).head? ≠ some '\n' := fun hhead =>
      (hname.2 _ (List.mem_of_head? hhead)).2 rfl
    have hcovers := @span?_selection name (before ++ declared ++ inner) [] behind hfeed hname
    rw [List.append_nil] at hcovers
    rw [if_neg hinner, hcovers]
    exact iff_of_true rfl hinner

end Extraction

/-! ## The expression that is found where an expression is selected -/

variable {d : Document} {settings : Settings}

/-- If exactly a construct is selected that can be extracted, then what is found has its range. -/
theorem range_of_target? (hcut : (Tree.ofDocument d).Cut) {id : Nat} {e found : Entry}
    (he : (Tree.ofDocument d).get? id = some e) (hextract : isExtractable (Tree.ofDocument d) id = true)
    {target : Target} (htarget : target? (Tree.ofDocument d) e.selection = some target)
    (hfound : (Tree.ofDocument d).get? target.expression = some found) : found.range = e.range := by
  unfold target? at htarget
  split at htarget
  · cases htarget
  · next expression hinnermost =>
    obtain ⟨statement, -, rfl⟩ := Option.map_eq_some_iff.mp htarget
    exact (hcut.range_of_innermost? he hextract hinnermost hfound).1

/-! ## Running an extraction -/

/-- The selection of a solid construct covers its range. -/
theorem span?_selection_of_solid (h : (Tree.ofDocument d).WellSpanned)
    (hsolid : (Tree.ofDocument d).Solid) {id : Nat} {e : Entry}
    (he : (Tree.ofDocument d).get? id = some e) (hexpression : e.node.form.isExpression = true) :
    d.text.span? e.selection = some e.range := by
  have hparent : e.parent ≠ none := h.parent_ne_none he fun hform => by
    rw [hform] at hexpression
    cases hexpression
  obtain ⟨hstart, hstop, hlt⟩ := hsolid.ink he hparent
  rw [Tree.selection_eq he, d.text.selection_of_le (Nat.le_of_lt hlt), Text.span?]
  simp only [hstart.offset?_position, hstop.offset?_position]

/-- A text that is cut at three places. -/
theorem exists_parts {text : Text} {o a b : Nat} (ho : text.isBoundary o = true)
    (ha : text.isBoundary a = true) (hb : text.isBoundary b = true) (hoa : o ≤ a) (hab : a ≤ b) :
    ∃ before inner value behind, text = before ++ inner ++ value ++ behind ∧
      Text.size before = o ∧ Text.size (before ++ inner) = a ∧
      Text.size (before ++ inner ++ value) = b := by
  obtain ⟨before, rest, htext, rfl⟩ := Text.isBoundary_iff.mp ho
  obtain ⟨upTo, rest', htext', rfl⟩ := Text.isBoundary_iff.mp ha
  obtain ⟨inner, rfl, -⟩ := Text.exists_middle (htext.symm.trans htext') hoa
  obtain ⟨most, behind, htext'', rfl⟩ := Text.isBoundary_iff.mp hb
  obtain ⟨value, rfl, -⟩ := Text.exists_middle (htext'.symm.trans htext'') hab
  exact ⟨before, inner, value, behind, htext'', rfl, rfl, rfl⟩

/-- The patches of an extraction, with the expression and the statement that were found. -/
theorem exists_patches (hnested : (Tree.ofDocument d).Nested) {s : Selection} {x : Transformation}
    (hx : transform (Tree.ofDocument d) s settings = .ok x) :
    ∃ target outer found value, target? (Tree.ofDocument d) s = some target ∧
      (Tree.ofDocument d).get? target.statement = some outer ∧
      outer.node.form.isStatement = true ∧
      (Tree.ofDocument d).get? target.expression = some found ∧
      found.node.form.isExpression = true ∧ found.range.IsInside outer.range ∧
      d.slice found.range = .ok value ∧
      x = .patches
        [⟨declaration settings.extractedName value (d.text.indentation outer.range.start),
          outer.selection.collapse⟩, ⟨settings.extractedName, found.selection⟩]
        (some .renameSymbol) := by
  unfold transform at hx
  split at hx
  · cases hx
  · next target htarget =>
    obtain ⟨found, outer, hworks, hstatement, hfound, hexpression, hinside⟩ :=
      exists_site hnested htarget
    simp only [hworks.entry, hfound] at hx
    obtain ⟨value, hvalue, hx⟩ := Outcome.bind_eq_ok hx
    cases hx
    rw [Tree.text, hfound] at hvalue
    exact ⟨target, outer, found, value, htarget, hworks.entry, hstatement, hfound, hexpression,
      hinside, hvalue, rfl⟩

/-- **Where the selection is after an extraction.** Let a tree be well spanned, and let no construct
start or end with white space. Select exactly an expression that can be extracted, in an editor that
holds the document, and let the extraction be planned. Then it is applied: the declaration is
inserted where the statement starts and the name takes the place of the expression. The selection
ends behind the name, and the rename that is asked for works on it. It starts at the name if
something of the statement stands before the expression, and else before the declaration; so it
covers just the name exactly in the first case. -/
theorem run_selects_name (settings : Settings) (editor : Editor)
    (h : (Tree.ofDocument d).WellSpanned) (hsolid : (Tree.ofDocument d).Solid) {id : Nat} {e : Entry}
    (he : (Tree.ofDocument d).get? id = some e)
    (hextract : isExtractable (Tree.ofDocument d) id = true)
    (hparse : Document.parse settings.dialect editor.code = .ok d)
    (hselected : editor.selection = e.selection) {x : Transformation}
    (hplan : plan .extractVariable editor.code editor.selection settings = .ok x)
    (hwords : ∀ output, x.output editor.code editor.selection = .ok output →
      Text.size output < wordCount) :
    ∃ target outer before inner value behind declared,
      target? (Tree.ofDocument d) e.selection = some target ∧
      (Tree.ofDocument d).get? target.statement = some outer ∧
      editor.code = before ++ inner ++ value ++ behind ∧
      outer.range.start = Text.size before ∧
      e.range = ⟨Text.size (before ++ inner), Text.size (before ++ inner ++ value)⟩ ∧
      declared = declaration settings.extractedName value
        (editor.code.indentation outer.range.start) ∧
      let output := before ++ declared ++ inner ++ settings.extractedName ++ behind
      let start := Text.size (before ++ declared ++ inner)
      let stop := Text.size (before ++ declared ++ inner ++ settings.extractedName)
      let selection := output.selection ⟨if inner = [] then Text.size before else start, stop⟩
      editor.run .extractVariable settings =
        ({ editor with
            code := output
            selection := selection
            delegated := editor.delegated ++ [.renameSymbol] }, .ok .applied) ∧
      (IsInline settings.extractedName →
        (output.span? selection = some ⟨start, stop⟩ ↔ inner ≠ [])) := by
  obtain ⟨d', hparse', hx, -⟩ := plan_ok hplan
  obtain rfl : d = d' := Except.ok.inj (hparse.symm.trans hparse')
  obtain ⟨htext, -⟩ := Document.parse_eq_ok hparse
  rw [hselected] at hx
  obtain ⟨target, outer, found, value, htarget, houter, hstatement, hfound, hexpression, hinside,
    hvalue, rfl⟩ := exists_patches h.nested hx
  have hrange := range_of_target? h.cut he hextract htarget hfound
  obtain ⟨hbatch, hlt⟩ := toBatch_patches h hsolid houter hstatement hfound hexpression
    (declaration settings.extractedName value (d.text.indentation outer.range.start))
    settings.extractedName
  -- the text is cut where the statement starts and on both sides of the expression
  obtain ⟨houterCut, -⟩ := Text.cutsAt_iff.mp (h.cut outer (Tree.mem_entries_of_get? houter))
  obtain ⟨hstartCut, hstopCut⟩ := Text.cutsAt_iff.mp (h.cut found (Tree.mem_entries_of_get? hfound))
  obtain ⟨before, inner, value', behind, hsplit, hbefore, hinner, hstop⟩ :=
    exists_parts houterCut hstartCut hstopCut hinside.1 (Nat.le_of_lt hlt)
  obtain rfl : value' = value := by
    have hslice : d.text.slice? found.range.start found.range.stop = some value' :=
      Text.slice?_eq_some_iff.mpr ⟨before ++ inner, behind, hsplit, hinner, by
        rw [← Text.size_append, hstop]⟩
    exact Option.some.inj (hslice.symm.trans (Document.slice_eq_ok.mp hvalue))
  have hselection : e.selection = found.selection := by
    rw [Tree.selection_eq he, Tree.selection_eq hfound, hrange]
  have hspan : d.text.span? e.selection = some found.range :=
    hselection ▸ span?_selection_of_solid h hsolid hfound hexpression
  have hvalue' : value' ≠ [] := by
    rintro rfl
    rw [List.append_nil, hinner] at hstop
    exact Nat.ne_of_lt hlt hstop
  have hspans : found.range =
      ⟨Text.size (before ++ inner), Text.size (before ++ inner ++ value')⟩ := by
    rw [hinner, hstop]
  obtain ⟨declared, hdeclared⟩ : ∃ declared, declared =
      declaration settings.extractedName value' (d.text.indentation outer.range.start) := ⟨_, rfl⟩
  rw [← hdeclared] at hbatch hplan hwords
  replace hsplit : d.text = before ++ inner ++ value' ++ behind := hsplit
  rw [hspans, hsplit] at hspan
  rw [hspans, ← hbefore, hsplit] at hbatch
  have hwords' : Text.size (before ++ declared ++ inner ++ settings.extractedName ++ behind) <
      wordCount := by
    refine hwords _ ?_
    simp only [Transformation.output, applyPatches, hselected, ← htext, hsplit, hbatch,
      Batch.applyWithSelection, apply_extraction, hspan]
  have happly := applyWithSelection_extraction hvalue' hspan hwords'
  refine ⟨target, outer, before, inner, value', behind, declared, htarget, houter, htext ▸ hsplit,
    hbefore.symm, hrange ▸ hspans, htext ▸ hdeclared, ?_, fun hname => ?_⟩
  · rw [Editor.run, Editor.execute, hplan]
    simp only [Editor.accept_eq, Transformation.resultIn, applyPatches, hselected, ← htext, hsplit,
      hbatch, happly]
    rfl
  · exact span?_extraction_iff (by rw [hdeclared]; rfl) hname

/-- An argument is selected: what is selected afterwards is the name. -/
theorem run_selects_name_argument :
    ∃ after start stop,
      Editor.run { code := "f(\"a\");".toList, selection := .between ⟨0, 2⟩ ⟨0, 5⟩ }
        .extractVariable {} = (after, .ok .applied) ∧
      after.code.span? after.selection = some ⟨start, stop⟩ ∧
      after.code.slice? start stop = some "extracted".toList := by
  let editor : Editor := { code := "f(\"a\");".toList, selection := .between ⟨0, 2⟩ ⟨0, 5⟩ }
  obtain ⟨d, hd, hspanned, hsolid, hentry, hextract, hstatement⟩ :
      ∃ d, Document.parse {} editor.code = .ok d ∧ (Tree.ofDocument d).WellSpanned ∧
        (Tree.ofDocument d).Solid ∧
        ((Tree.ofDocument d).get? 4).map (fun e => (e.range.start, e.selection)) =
          some (2, editor.selection) ∧
        isExtractable (Tree.ofDocument d) 4 = true ∧
        ((target? (Tree.ofDocument d) editor.selection).bind fun target =>
          ((Tree.ofDocument d).get? target.statement).map fun outer => outer.range.start) = some 0 :=
    Document.exists_parse (by decide +kernel)
  obtain ⟨e, he, hends⟩ := Option.map_eq_some_iff.mp hentry
  obtain ⟨hstart, hselection⟩ := Prod.mk.inj hends
  have hplan : ((plan .extractVariable editor.code editor.selection {}).toOption.bind fun x =>
      (x.output editor.code editor.selection).toOption) =
        some "const extracted = \"a\";\nf(extracted);".toList := by
    decide +kernel
  obtain ⟨x, hx, hout⟩ := Option.bind_eq_some_iff.mp hplan
  obtain ⟨target, outer, before, inner, value, behind, declared, htarget, houter, hcode, hbefore,
    hrange, -, hrun, hcovers⟩ := run_selects_name {} editor hspanned hsolid he hextract hd
      hselection.symm (Outcome.eq_ok_of_toOption hx) fun output houtput => by
        rw [houtput] at hout
        rw [Option.some.inj hout]
        decide +kernel
  rw [← hselection, htarget, Option.bind_some, houter, Option.map_some] at hstatement
  have hinner : inner ≠ [] := by
    rintro rfl
    rw [hrange, List.append_nil, ← hbefore, Option.some.inj hstatement] at hstart
    cases hstart
  refine ⟨_, _, _, hrun, (hcovers (by decide)).mpr hinner, ?_⟩
  exact Text.slice?_eq_some_iff.mpr
    ⟨before ++ declared ++ inner, behind, rfl, rfl, (Text.size_append _ _).symm⟩

/-- A statement starts with what is selected: the declaration is selected together with the name. -/
theorem run_selects_declaration :
    ∃ after, Editor.run { code := "\"a\" + b;".toList, selection := .between ⟨0, 0⟩ ⟨0, 3⟩ }
        .extractVariable {} = (after, .ok .applied) ∧
      after.code = "const extracted = \"a\";\nextracted + b;".toList ∧
      after.code.slice? 23 32 = some "extracted".toList ∧
      after.code.span? after.selection = some ⟨0, 32⟩ := by
  let editor : Editor := { code := "\"a\" + b;".toList, selection := .between ⟨0, 0⟩ ⟨0, 3⟩ }
  obtain ⟨hending, hcode, hspan⟩ :
      (editor.run .extractVariable {}).2.toOption = some .applied ∧
        (editor.run .extractVariable {}).1.code =
          "const extracted = \"a\";\nextracted + b;".toList ∧
        (editor.run .extractVariable {}).1.code.span?
          (editor.run .extractVariable {}).1.selection = some ⟨0, 32⟩ := by
    decide +kernel
  cases hrun : editor.run .extractVariable {} with
  | mk after ending =>
    rw [hrun] at hending hcode hspan
    refine ⟨after, ?_, hcode, ?_, hspan⟩
    · exact congrArg (Prod.mk after) (Outcome.eq_ok_of_toOption hending)
    · rw [hcode]
      decide +kernel

end Retouch.Variable
