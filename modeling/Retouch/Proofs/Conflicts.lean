import Mathlib.Data.List.Induction
import Mathlib.Data.List.Pairwise
import Retouch.Proofs.Coordinates
import Retouch.Proofs.Landing
import Retouch.Proofs.Patch

/-!
# When patches fail

Patches are resolved to byte ranges, the ranges are sorted, and neighbours are compared. Here the
outcome is told from the list of patches alone, without sorting.

- `Span.HasConflict`: two ranges of a list conflict; `Span.not_hasConflict_iff` looks at every pair
  in the order of the list instead.
- `Batch.pairwise_ascending_iff`, `Batch.isChain_ordered_iff`: neighbours in the sorted list keep
  apart exactly if no two ranges of the batch conflict.
- `Patch.toBatch_cases`, `applyPatches_cases`: all that can happen, with the error that names it.
- `applyPatches_fails_iff`: the exact conditions under which patches fail, and where a selection is
  carried when they do not.
-/

namespace Retouch

/-! ## Conflicts -/

namespace Span

/-- Two ranges of a list conflict: the one that comes first, by its start and then by its place in
the list, stops behind the start of the other. -/
def HasConflict (ranges : List Span) : Prop :=
  ∃ (i j : Nat) (a b : Span), ranges[i]? = some a ∧ ranges[j]? = some b ∧
    (a.start < b.start ∨ a.start = b.start ∧ i < j) ∧ b.start < a.stop

/-- Two ranges, the first of which is listed first, do not conflict. -/
def KeepsApart (a b : Span) : Prop :=
  if a.start ≤ b.start then a.stop ≤ b.start else b.stop ≤ a.start

theorem keepsApart_of_le {a b : Span} (h : a.start ≤ b.start) :
    a.KeepsApart b ↔ a.stop ≤ b.start := by
  rw [KeepsApart, if_pos h]

theorem keepsApart_of_lt {a b : Span} (h : b.start < a.start) :
    a.KeepsApart b ↔ b.stop ≤ a.start := by
  rw [KeepsApart, if_neg (Nat.not_le.mpr h)]

theorem not_hasConflict_iff {ranges : List Span} :
    ¬ HasConflict ranges ↔ ranges.Pairwise KeepsApart := by
  rw [List.pairwise_iff_getElem]
  constructor
  · intro hnone i j hi hj hij
    by_contra hapart
    rcases Nat.lt_or_ge ranges[j].start ranges[i].start with hlt | hle
    · rw [keepsApart_of_lt hlt, Nat.not_le] at hapart
      exact hnone ⟨j, i, _, _, List.getElem?_eq_getElem hj, List.getElem?_eq_getElem hi,
        .inl hlt, hapart⟩
    · rw [keepsApart_of_le hle, Nat.not_le] at hapart
      exact hnone ⟨i, j, _, _, List.getElem?_eq_getElem hi, List.getElem?_eq_getElem hj,
        by omega, hapart⟩
  · rintro hapart ⟨i, j, a, b, hi, hj, horder, hlt⟩
    obtain ⟨hi', rfl⟩ := List.getElem?_eq_some_iff.mp hi
    obtain ⟨hj', rfl⟩ := List.getElem?_eq_some_iff.mp hj
    rcases Nat.lt_trichotomy i j with hij | rfl | hji
    · have h := (keepsApart_of_le (by omega)).mp (hapart i j hi' hj' hij)
      omega
    · omega
    · have h := (keepsApart_of_lt (by omega)).mp (hapart j i hj' hi' hji)
      omega

end Span

namespace Batch

/-! ## Sorting and conflicts -/

theorem insertByStart_perm (e : Edit) (edits : List Edit) :
    (insertByStart e edits).Perm (e :: edits) := by
  induction edits with
  | nil => exact List.Perm.refl _
  | cons f rest ih =>
    rw [insertByStart]
    split
    · exact List.Perm.refl _
    · exact (ih.cons f).trans (List.Perm.swap e f rest)

theorem insertByStart_sorted (e : Edit) {edits : List Edit}
    (h : edits.Pairwise fun a b => a.span.start ≤ b.span.start) :
    (insertByStart e edits).Pairwise fun a b => a.span.start ≤ b.span.start := by
  induction edits with
  | nil => exact List.pairwise_singleton _ _
  | cons f rest ih =>
    obtain ⟨hf, hrest⟩ := List.pairwise_cons.mp h
    rw [insertByStart]
    split
    · next hlt =>
      refine List.pairwise_cons.mpr ⟨fun g hg => ?_, h⟩
      rcases List.mem_cons.mp hg with rfl | hg
      · exact Nat.le_of_lt hlt
      · exact Nat.le_trans (Nat.le_of_lt hlt) (hf g hg)
    · next hle =>
      refine List.pairwise_cons.mpr ⟨fun g hg => ?_, ih hrest⟩
      rcases List.mem_cons.mp ((insertByStart_perm e rest).mem_iff.mp hg) with rfl | hg
      · exact Nat.le_of_not_lt hle
      · exact hf g hg

theorem ascending_concat (batch : Batch) (e : Edit) :
    ascending (batch ++ [e]) = insertByStart e (ascending batch) := by
  rw [ascending, ascending, List.foldl_append]
  rfl

theorem ascending_perm (batch : Batch) : (ascending batch).Perm batch := by
  induction batch using List.reverseRecOn with
  | nil => exact List.Perm.refl _
  | append_singleton batch e ih =>
    rw [ascending_concat]
    exact ((insertByStart_perm e _).trans (ih.cons e)).trans
      (List.perm_append_singleton e batch).symm

theorem ascending_sorted (batch : Batch) :
    (ascending batch).Pairwise fun a b => a.span.start ≤ b.span.start := by
  induction batch using List.reverseRecOn with
  | nil => exact List.Pairwise.nil
  | append_singleton batch e ih =>
    rw [ascending_concat]
    exact insertByStart_sorted e ih

/-- One more edit leaves a sorted list apart if it keeps apart from all that are in it. -/
theorem pairwise_insertByStart_iff (e : Edit) {edits : List Edit}
    (h : edits.Pairwise fun a b => a.span.start ≤ b.span.start) :
    ((insertByStart e edits).Pairwise fun a b => a.span.stop ≤ b.span.start) ↔
      (edits.Pairwise fun a b => a.span.stop ≤ b.span.start) ∧
        ∀ f ∈ edits, f.span.KeepsApart e.span := by
  induction edits with
  | nil => simp [insertByStart]
  | cons f rest ih =>
    obtain ⟨hf, hrest⟩ := List.pairwise_cons.mp h
    rw [insertByStart]
    split
    · next hlt =>
      -- all edits of the list start behind `e`
      have hbehind : ∀ g ∈ f :: rest, (g.span.KeepsApart e.span ↔ e.span.stop ≤ g.span.start) := by
        intro g hg
        refine Span.keepsApart_of_lt ?_
        rcases List.mem_cons.mp hg with rfl | hg
        · exact hlt
        · exact Nat.lt_of_lt_of_le hlt (hf g hg)
      rw [List.pairwise_cons, and_comm]
      exact and_congr_right fun _ => forall₂_congr fun g hg => (hbehind g hg).symm
    · next hle =>
      have hfirst := Span.keepsApart_of_le (Nat.le_of_not_lt hle)
      have hmem : ∀ g, g ∈ insertByStart e rest ↔ g = e ∨ g ∈ rest := fun g =>
        (insertByStart_perm e rest).mem_iff.trans List.mem_cons
      simp only [List.pairwise_cons, List.forall_mem_cons, hmem, forall_eq_or_imp, ih hrest, hfirst]
      tauto

/-- The edits of a sorted batch keep apart exactly if its ranges do, as they are listed. -/
theorem pairwise_ascending_iff (batch : Batch) :
    ((ascending batch).Pairwise fun a b => a.span.stop ≤ b.span.start) ↔
      (batch.map Edit.span).Pairwise Span.KeepsApart := by
  rw [List.pairwise_map]
  induction batch using List.reverseRecOn with
  | nil => exact ⟨fun _ => List.Pairwise.nil, fun _ => List.Pairwise.nil⟩
  | append_singleton batch e ih =>
    rw [ascending_concat, pairwise_insertByStart_iff e (ascending_sorted batch), ih,
      List.pairwise_append]
    simp only [(ascending_perm batch).mem_iff, List.pairwise_singleton, List.mem_singleton,
      forall_eq, true_and]

/-- For ranges that run forward it is enough that neighbours keep apart. -/
theorem isChain_iff_pairwise {edits : List Edit}
    (h : ∀ e ∈ edits, e.span.start ≤ e.span.stop) :
    (edits.IsChain fun a b => a.span.stop ≤ b.span.start) ↔
      edits.Pairwise fun a b => a.span.stop ≤ b.span.start := by
  refine ⟨fun hchain => ?_, List.Pairwise.isChain⟩
  induction edits with
  | nil => exact List.Pairwise.nil
  | cons e rest ih =>
    obtain ⟨hnext, hrest⟩ := List.isChain_cons.mp hchain
    have hpairwise := ih (fun f hf => h f (List.mem_cons_of_mem e hf)) hrest
    refine List.pairwise_cons.mpr ⟨fun f hf => ?_, hpairwise⟩
    cases rest with
    | nil => cases hf
    | cons g later =>
      have hg := hnext g rfl
      rcases List.mem_cons.mp hf with rfl | hf
      · exact hg
      · have hforward := h g (by simp)
        exact Nat.le_trans hg (Nat.le_trans hforward ((List.pairwise_cons.mp hpairwise).1 f hf))

theorem isChain_ordered_iff {batch : Batch} (h : ∀ e ∈ batch, e.span.start ≤ e.span.stop) :
    (batch.ordered.IsChain fun a b => a.span.stop ≤ b.span.start) ↔
      ¬ Span.HasConflict (batch.map Edit.span) := by
  rw [← ascending_eq_ordered, Span.not_hasConflict_iff, ← pairwise_ascending_iff]
  exact isChain_iff_pairwise fun e he => h e ((ascending_perm batch).mem_iff.mp he)

/-! ## Edits that sit in the text -/

/-- The error about an overlap names two edits, the second of which starts before the first
stops. -/
theorem exists_of_overlap? {edits : List Edit} {error : EditError}
    (h : overlap? edits = some error) :
    ∃ a ∈ edits, ∃ b ∈ edits, b.span.start < a.span.stop ∧ error = .overlap a.span b.span := by
  fun_induction overlap? edits with
  | case1 a b rest hlt =>
    cases h
    exact ⟨a, by simp, b, by simp, hlt, rfl⟩
  | case2 a b rest _ ih =>
    obtain ⟨x, hx, y, hy, hxy⟩ := ih h
    exact ⟨x, List.mem_cons_of_mem a hx, y, List.mem_cons_of_mem a hy, hxy⟩
  | case3 => cases h

/-- A batch whose edits sit in the text is applied if none of them conflict. Otherwise the error is
about an overlap. -/
theorem apply_cases_of_sits {batch : Batch} {source : Text} (h : ∀ e ∈ batch, Sits source e) :
    (Span.HasConflict (batch.map Edit.span) ∧
      ∃ a ∈ batch, ∃ b ∈ batch, b.span.start < a.span.stop ∧
        batch.apply source = .error (.overlap a.span b.span)) ∨
    (¬ Span.HasConflict (batch.map Edit.span) ∧ ∃ output, batch.apply source = .ok output) := by
  have hforward : ∀ e ∈ batch, e.span.start ≤ e.span.stop := fun e he => (h e he).start_le_stop
  have hcheck : batch.check source = overlap? (ascending batch) := by
    have hnone : batch.findSome? (editError? source) = none :=
      List.findSome?_eq_none_iff.mpr fun e he => editError?_eq_none_iff.mpr (h e he)
    rw [check, hnone]
  cases hoverlap : overlap? (ascending batch) with
  | some error =>
    left
    obtain ⟨a, ha, b, hb, hlt, rfl⟩ := exists_of_overlap? hoverlap
    refine ⟨?_, a, (ascending_perm batch).mem_iff.mp ha, b, (ascending_perm batch).mem_iff.mp hb,
      hlt, by rw [apply, hcheck, hoverlap]⟩
    by_contra hnone
    have hchain := (isChain_ordered_iff hforward).mpr hnone
    rw [← ascending_eq_ordered, ← overlap?_eq_none_iff, hoverlap] at hchain
    cases hchain
  | none =>
    right
    have hchain := overlap?_eq_none_iff.mp hoverlap
    rw [ascending_eq_ordered] at hchain
    obtain ⟨output, -, happly⟩ := exists_laid_of_fits ⟨h, hchain⟩
    exact ⟨(isChain_ordered_iff hforward).mp hchain, output, happly⟩

end Batch

/-! ## Patches -/

/-- Whether the lines of both ends of a selection exist. -/
def Selection.LiesIn (s : Selection) (text : Text) : Prop :=
  text.HasLine s.start.line ∧ text.HasLine s.stop.line

instance (s : Selection) (text : Text) : Decidable (s.LiesIn text) :=
  inferInstanceAs (Decidable (_ ∧ _))

theorem Text.span?_cases (text : Text) (s : Selection) :
    (s.LiesIn text ∧ ∃ range, text.span? s = some range ∧ text.HasRange range) ∨
      (¬ s.LiesIn text ∧ text.span? s = none) := by
  by_cases h : s.LiesIn text
  · exact .inl ⟨h, exists_span?_of_hasLine h.2⟩
  · refine .inr ⟨h, ?_⟩
    unfold span?
    split
    · next start stop hstart hstop =>
      refine absurd ⟨?_, ?_⟩ h
      · exact hasLine_iff.mpr (isSome_offset?_iff.mp (by rw [hstart]; rfl))
      · exact hasLine_iff.mpr (isSome_offset?_iff.mp (by rw [hstop]; rfl))
    · rfl

namespace Patch

/-- The edits of those patches that lie in a document. -/
def edits (document : Text) (patches : List Patch) : Batch :=
  patches.filterMap fun patch =>
    (document.span? patch.selection).map fun range => ⟨range, patch.code⟩

/-- The byte ranges of those patches that lie in a document. -/
def ranges (document : Text) (patches : List Patch) : List Span :=
  patches.filterMap fun patch => document.span? patch.selection

theorem map_span_edits (document : Text) (patches : List Patch) :
    (edits document patches).map Edit.span = ranges document patches := by
  rw [edits, ranges, List.map_filterMap]
  simp [Option.map_map, Function.comp_def]

theorem hasRange_of_mem_ranges {document : Text} {patches : List Patch} :
    ∀ range ∈ ranges document patches, document.HasRange range := by
  intro range hrange
  obtain ⟨patch, -, hpatch⟩ := List.mem_filterMap.mp hrange
  exact Text.hasRange_of_span? hpatch

theorem sits_of_mem_edits {document : Text} {patches : List Patch} :
    ∀ e ∈ edits document patches, Batch.Sits document e := by
  intro e he
  have hmem : e.span ∈ ranges document patches := by
    rw [← map_span_edits]
    exact List.mem_map_of_mem he
  obtain ⟨hordered, hstart, hstop⟩ := hasRange_of_mem_ranges e.span hmem
  exact Batch.sits_of_isBoundary hstart hstop hordered e.text

theorem fits_edits {document : Text} {patches : List Patch}
    (h : ¬ Span.HasConflict (ranges document patches)) :
    (edits document patches).Fits document := by
  refine ⟨sits_of_mem_edits, ?_⟩
  rw [Batch.isChain_ordered_iff fun e he => (sits_of_mem_edits e he).start_le_stop, map_span_edits]
  exact h

/-- Patches are resolved together, or the error names one that does not lie in the document. -/
theorem toBatch_cases (document : Text) (patches : List Patch) :
    ((∀ patch ∈ patches, patch.selection.LiesIn document) ∧
      toBatch document patches = .ok (edits document patches)) ∨
    ∃ patch ∈ patches, ¬ patch.selection.LiesIn document ∧
      toBatch document patches = .error (.patchOutside patch.selection) := by
  induction patches with
  | nil => exact .inl ⟨by simp, rfl⟩
  | cons patch rest ih =>
    rcases document.span?_cases patch.selection with ⟨hlies, range, hrange, -⟩ | ⟨hlies, hnone⟩
    · rcases ih with ⟨hrest, hbatch⟩ | ⟨outside, hmem, hnot, hbatch⟩
      · refine .inl ⟨List.forall_mem_cons.mpr ⟨hlies, hrest⟩, ?_⟩
        simp [toBatch, toEdit, hrange, hbatch, edits]
      · refine .inr ⟨outside, List.mem_cons_of_mem patch hmem, hnot, ?_⟩
        simp [toBatch, toEdit, hrange, hbatch]
    · refine .inr ⟨patch, List.mem_cons_self, hlies, ?_⟩
      simp [toBatch, toEdit, hnone]

end Patch

/-- Patches that lie in the document are applied as one batch. -/
theorem applyPatches_eq_applyWithSelection {document : Text} {patches : List Patch}
    (h : ∀ patch ∈ patches, patch.selection.LiesIn document) (s : Selection) :
    applyPatches document s patches
      = (Patch.edits document patches).applyWithSelection document s := by
  rcases Patch.toBatch_cases document patches with ⟨-, hbatch⟩ | ⟨patch, hmem, hnot, -⟩
  · rw [applyPatches, hbatch]
  · exact absurd (h patch hmem) hnot

/-- All that can happen when patches are applied, with the error that says so. -/
theorem applyPatches_cases (document : Text) (s : Selection) (patches : List Patch) :
    (∃ patch ∈ patches, ¬ patch.selection.LiesIn document ∧
      applyPatches document s patches = .error (.patchOutside patch.selection)) ∨
    ((∀ patch ∈ patches, patch.selection.LiesIn document) ∧
      Span.HasConflict (Patch.ranges document patches) ∧
      ∃ a ∈ Patch.ranges document patches, ∃ b ∈ Patch.ranges document patches,
        b.start < a.stop ∧ applyPatches document s patches = .error (.overlap a b)) ∨
    ((∀ patch ∈ patches, patch.selection.LiesIn document) ∧
      ¬ Span.HasConflict (Patch.ranges document patches) ∧ ¬ s.LiesIn document ∧
      applyPatches document s patches = .error (.selectionOutside s)) ∨
    ((∀ patch ∈ patches, patch.selection.LiesIn document) ∧
      ¬ Span.HasConflict (Patch.ranges document patches) ∧ s.LiesIn document ∧
      ∃ r, applyPatches document s patches = .ok r) := by
  by_cases hlies : ∀ patch ∈ patches, patch.selection.LiesIn document
  · right
    rw [applyPatches_eq_applyWithSelection hlies, Batch.applyWithSelection, ← Patch.map_span_edits]
    rcases Batch.apply_cases_of_sits (@Patch.sits_of_mem_edits document patches) with
      ⟨hconflict, a, ha, b, hb, hlt, happly⟩ | ⟨hnone, output, happly⟩
    · refine .inl ⟨hlies, hconflict, a.span, List.mem_map_of_mem ha, b.span, List.mem_map_of_mem hb,
        hlt, by rw [happly]⟩
    · rcases document.span?_cases s with ⟨hs, range, hrange, -⟩ | ⟨hs, hrange⟩
      · exact .inr (.inr ⟨hlies, hnone, hs, _, by rw [happly, hrange]⟩)
      · exact .inr (.inl ⟨hlies, hnone, hs, by rw [happly, hrange]⟩)
  · left
    rcases Patch.toBatch_cases document patches with ⟨hall, -⟩ | ⟨patch, hmem, hnot, hbatch⟩
    · exact absurd hall hlies
    · exact ⟨patch, hmem, hnot, by rw [applyPatches, hbatch]⟩

/-- The exact conditions under which patches fail. -/
theorem exists_applyPatches_error_iff {document : Text} {s : Selection} {patches : List Patch} :
    (∃ error, applyPatches document s patches = .error error) ↔
      (∃ patch ∈ patches, ¬ patch.selection.LiesIn document) ∨
        Span.HasConflict (Patch.ranges document patches) ∨ ¬ s.LiesIn document := by
  constructor
  · rintro ⟨error, herror⟩
    rcases applyPatches_cases document s patches with ⟨patch, hmem, hnot, -⟩ | ⟨-, hconflict, -⟩ |
      ⟨-, -, hs, -⟩ | ⟨-, -, -, r, hok⟩
    · exact .inl ⟨patch, hmem, hnot⟩
    · exact .inr (.inl hconflict)
    · exact .inr (.inr hs)
    · rw [hok] at herror
      cases herror
  · intro hcause
    rcases applyPatches_cases document s patches with ⟨patch, -, -, herror⟩ |
      ⟨-, -, a, -, b, -, -, herror⟩ | ⟨-, -, -, herror⟩ | ⟨hlies, hnone, hs, -⟩
    · exact ⟨_, herror⟩
    · exact ⟨_, herror⟩
    · exact ⟨_, herror⟩
    · rcases hcause with ⟨patch, hmem, hnot⟩ | hconflict | hnot
      · exact absurd (hlies patch hmem) hnot
      · exact absurd hconflict hnone
      · exact absurd hs hnot

/-- A selection is carried to the positions of two cutting places, in order. -/
theorem Batch.applyWithSelection_carried {batch : Batch} {source output : Text}
    {s carried : Selection} (h : batch.applyWithSelection source s = .ok (output, carried))
    (hsize : output.size < wordCount) :
    ∃ m n, output.isBoundary m = true ∧ output.isBoundary n = true ∧ m ≤ n ∧
      carried.start = output.position m ∧ carried.stop = output.position n := by
  obtain ⟨happly, range, hrange, rfl⟩ := applyWithSelection_ok h
  obtain ⟨-, hlaid⟩ := laid_of_apply happly
  obtain ⟨hordered, hstart, hstop⟩ := Text.hasRange_of_span? hrange
  obtain ⟨-, -, hm⟩ := exists_mapOffset hlaid hsize hstart
  obtain ⟨-, -, hn⟩ := exists_mapOffset hlaid hsize hstop
  have hmn := mapOffset_mono hlaid hsize hstart hstop hordered
  refine ⟨_, _, hm, hn, hmn, ?_, ?_⟩
  · rw [Text.selection_of_le output hmn]
  · rw [Text.selection_of_le output hmn]

/-- **When patches fail.** Patches fail exactly if an end of one of them, or of the selection that
is carried along, is on a line that does not exist, or if two of their byte ranges conflict; a range
is never found to lie outside of the text or to cut a character. When they are applied, the
selection that is carried along lies in the new text, and it runs from the position of one cutting
place to that of another one that is no earlier. -/
theorem applyPatches_fails_iff (document : Text) (s : Selection) (patches : List Patch) :
    ((∃ error, applyPatches document s patches = .error error) ↔
      (∃ patch ∈ patches, ¬ patch.selection.LiesIn document) ∨
        Span.HasConflict (Patch.ranges document patches) ∨ ¬ s.LiesIn document) ∧
    (∀ error, applyPatches document s patches = .error error →
      (∀ range size, error ≠ .outside range size) ∧ ∀ range, error ≠ .splitsCharacter range) ∧
    (∀ output carried, applyPatches document s patches = .ok (output, carried) →
      output.size < Position.limit →
      (∃ range, output.span? carried = some range) ∧
        ∃ m n, output.isBoundary m = true ∧ output.isBoundary n = true ∧ m ≤ n ∧
          carried.start = output.position m ∧ carried.stop = output.position n) := by
  refine ⟨exists_applyPatches_error_iff, ?_, ?_⟩
  · intro error herror
    rcases applyPatches_cases document s patches with ⟨patch, -, -, h⟩ | ⟨-, -, a, -, b, -, -, h⟩ |
      ⟨-, -, -, h⟩ | ⟨-, -, -, r, h⟩
    all_goals
      rw [h] at herror
      cases herror
    -- none of the three errors that are left is one of the two
    all_goals exact ⟨nofun, nofun⟩
  · intro output carried hok hsize
    obtain ⟨batch, -, hbatch⟩ := applyPatches_ok hok
    exact ⟨applyPatches_resolves hok, Batch.applyWithSelection_carried hbatch
      (Nat.lt_trans hsize (by decide))⟩

/-- Two patches and a selection with columns past the end of a line: the patches meet at the end of
the line and do not conflict, and the selection is carried to a place between them. -/
theorem applyPatches_fails_iff_cut_off :
    applyPatches ['é', '\r', '\n', 'b'] (.between ⟨0, 7⟩ ⟨1, 0⟩)
        [⟨['y'], .cursor ⟨0, 9⟩⟩, ⟨['x'], .between ⟨0, 5⟩ ⟨0, 0⟩⟩]
      = .ok (['x', 'y', '\r', '\n', 'b'], .between ⟨0, 1⟩ ⟨1, 0⟩) ∧
    Text.size ['x', 'y', '\r', '\n', 'b'] < Position.limit ∧
    (∃ range, Text.span? ['x', 'y', '\r', '\n', 'b'] (.between ⟨0, 1⟩ ⟨1, 0⟩) = some range) ∧
    ∃ m n, Text.isBoundary ['x', 'y', '\r', '\n', 'b'] m = true ∧
      Text.isBoundary ['x', 'y', '\r', '\n', 'b'] n = true ∧ m ≤ n ∧
      (Selection.between ⟨0, 1⟩ ⟨1, 0⟩).start = Text.position ['x', 'y', '\r', '\n', 'b'] m ∧
      (Selection.between ⟨0, 1⟩ ⟨1, 0⟩).stop = Text.position ['x', 'y', '\r', '\n', 'b'] n :=
  have hok : applyPatches ['é', '\r', '\n', 'b'] (.between ⟨0, 7⟩ ⟨1, 0⟩)
      [⟨['y'], .cursor ⟨0, 9⟩⟩, ⟨['x'], .between ⟨0, 5⟩ ⟨0, 0⟩⟩]
        = .ok (['x', 'y', '\r', '\n', 'b'], .between ⟨0, 1⟩ ⟨1, 0⟩) := by rfl
  ⟨hok, by decide, (applyPatches_fails_iff _ _ _).2.2 _ _ hok (by decide)⟩

end Retouch
