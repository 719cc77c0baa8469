import Retouch.Edit.Patch
import Retouch.Proofs.Lines

/-!
# Selections carried through edits and patches

- `Batch.applyWithSelection_ok`, `applyPatches_ok`: what is known once edits or patches are applied.
- `Batch.applyWithSelection_resolves`, `applyPatches_resolves`: the selection that is carried along
  lies in the new text, wherever the offsets have landed.
-/

namespace Retouch

theorem Batch.applyWithSelection_ok {batch : Batch} {source output : Text}
    {s carried : Selection} (h : batch.applyWithSelection source s = .ok (output, carried)) :
    batch.apply source = .ok output ∧ ∃ span, source.span? s = some span ∧
      carried = output.selection ⟨batch.mapOffset span.start, batch.mapOffset span.stop⟩ := by
  unfold applyWithSelection at h
  cases happly : batch.apply source with
  | error e =>
    rw [happly] at h
    cases h
  | ok text =>
    simp only [happly] at h
    cases hspan : source.span? s with
    | none =>
      rw [hspan] at h
      cases h
    | some span =>
      rw [hspan] at h
      cases h
      exact ⟨rfl, span, rfl, rfl⟩

theorem Batch.applyWithSelection_resolves {batch : Batch} {source output : Text}
    {s carried : Selection} (h : batch.applyWithSelection source s = .ok (output, carried)) :
    ∃ span, output.span? carried = some span := by
  obtain ⟨-, span, -, rfl⟩ := applyWithSelection_ok h
  exact output.exists_span?_selection _

theorem applyPatches_ok {document output : Text} {s carried : Selection} {patches : List Patch}
    (h : applyPatches document s patches = .ok (output, carried)) :
    ∃ batch, Patch.toBatch document patches = .ok batch ∧
      batch.applyWithSelection document s = .ok (output, carried) := by
  unfold applyPatches at h
  cases hbatch : Patch.toBatch document patches with
  | error e =>
    rw [hbatch] at h
    cases h
  | ok batch =>
    rw [hbatch] at h
    exact ⟨batch, rfl, h⟩

theorem applyPatches_resolves {document output : Text} {s carried : Selection}
    {patches : List Patch} (h : applyPatches document s patches = .ok (output, carried)) :
    ∃ span, output.span? carried = some span := by
  obtain ⟨batch, -, hbatch⟩ := applyPatches_ok h
  exact Batch.applyWithSelection_resolves hbatch

end Retouch
