import Retouch.Proofs.Conflicts

/-!
# Patches in another order

Patches that start at one offset are taken in the order in which they are listed. An insertion may
stand before a replacement at the same offset but not behind it, so the order of a list decides
whether it is applied; and, as long as no two patches insert at one offset, it decides nothing else.

- `Span.InsertsOnce`, `Span.InsertsFirst`: what is asked of the insertions of a list.
- `Span.insertsFirst_of_pairwise`, `Span.pairwise_of_perm`: ranges without a conflict have their
  insertions first, and stay without a conflict in every order that has.
- `Batch.ascending_eq_of_perm`: such orders are sorted into one.
- `applyPatches_perm`: lists with their insertions first are applied alike, and others fail.
- `applyPatches_insertion_last`: there are such others.
-/

namespace Retouch

namespace Span

/-- No two ranges of a list are empty at one offset. -/
def InsertsOnce (ranges : List Span) : Prop :=
  ranges.Pairwise fun a b => ¬ (a.start = a.stop ∧ a = b)

/-- No empty range of a list stands behind a longer one that starts at the same offset. -/
def InsertsFirst (ranges : List Span) : Prop :=
  ranges.Pairwise fun a b => ¬ (a.start < a.stop ∧ b = ⟨a.start, a.start⟩)

instance (ranges : List Span) : Decidable (InsertsOnce ranges) :=
  inferInstanceAs (Decidable (ranges.Pairwise _))

instance (ranges : List Span) : Decidable (InsertsFirst ranges) :=
  inferInstanceAs (Decidable (ranges.Pairwise _))

theorem InsertsOnce.perm {ranges permuted : List Span} (h : InsertsOnce ranges)
    (hperm : ranges.Perm permuted) : InsertsOnce permuted := by
  refine (hperm.pairwise_iff ?_).mp h
  rintro a b hab ⟨hempty, rfl⟩
  exact hab ⟨hempty, rfl⟩

theorem insertsFirst_of_pairwise {ranges : List Span} (h : ranges.Pairwise KeepsApart) :
    InsertsFirst ranges := by
  refine h.imp ?_
  rintro a b hab ⟨hlt, rfl⟩
  have hstop : a.stop ≤ a.start :=
    (keepsApart_of_le (b := ⟨a.start, a.start⟩) (Nat.le_refl a.start)).mp hab
  omega

/-- Two ranges of which one stops before the other starts, whichever is listed first. -/
def IsApart (a b : Span) : Prop := a.stop ≤ b.start ∨ b.stop ≤ a.start

theorem KeepsApart.isApart {a b : Span} (h : a.KeepsApart b) : a.IsApart b := by
  unfold KeepsApart at h
  split at h
  · exact .inl h
  · exact .inr h

/-- Ranges that run forward and keep apart in one order do so in every order that has the empty ones
first. -/
theorem pairwise_of_perm {ranges permuted : List Span} (h : ranges.Pairwise KeepsApart)
    (hperm : ranges.Perm permuted) (hforward : ∀ a ∈ permuted, a.start ≤ a.stop)
    (hfirst : InsertsFirst permuted) : permuted.Pairwise KeepsApart := by
  have hapart : permuted.Pairwise IsApart :=
    (hperm.pairwise_iff Or.symm).mp (h.imp KeepsApart.isApart)
  refine (hapart.and hfirst).imp_of_mem ?_
  rintro a b ha hb ⟨hab, hinsert⟩
  have ha := hforward a ha
  have hb := hforward b hb
  rcases Nat.lt_or_ge b.start a.start with hlt | hle
  · rw [keepsApart_of_lt hlt]
    rcases hab with hstop | hstop
    · omega
    · exact hstop
  · rw [keepsApart_of_le hle]
    rcases hab with hstop | hstop
    · exact hstop
    · -- `b` is empty where `a` starts, and listed behind it, so `a` is empty too
      have hb' : b = ⟨a.start, a.start⟩ := by
        cases b
        simp only [mk.injEq]
        dsimp only at *
        omega
      rcases Nat.lt_or_ge a.start a.stop with hlt | hge
      · exact absurd ⟨hlt, hb'⟩ hinsert
      · omega

end Span

namespace Batch

/-- Two orders of one batch are sorted into the same list, if no two edits conflict in either and no
two insert at one offset. -/
theorem ascending_eq_of_perm {batch permuted : Batch} (hperm : batch.Perm permuted)
    (hforward : ∀ e ∈ batch, e.span.start ≤ e.span.stop)
    (hbatch : (batch.map Edit.span).Pairwise Span.KeepsApart)
    (hpermuted : (permuted.map Edit.span).Pairwise Span.KeepsApart)
    (honce : Span.InsertsOnce (batch.map Edit.span)) : ascending batch = ascending permuted := by
  refine List.Perm.eq_of_pairwise (fun a b ha hb hab hba => ?_)
    ((pairwise_ascending_iff batch).mpr hbatch) ((pairwise_ascending_iff permuted).mpr hpermuted)
    (((ascending_perm batch).trans hperm).trans (ascending_perm permuted).symm)
  have ha := (ascending_perm batch).mem_iff.mp ha
  have hb := hperm.mem_iff.mpr ((ascending_perm permuted).mem_iff.mp hb)
  have hforwardA := hforward a ha
  have hforwardB := hforward b hb
  -- edits that stand before each other are insertions at one offset
  have hempty : a.span.start = a.span.stop := by omega
  have hspan : a.span = b.span := by
    cases hA : a.span
    cases hB : b.span
    simp only [hA, hB, Span.mk.injEq] at *
    omega
  have hsymm : Std.Symm fun a b : Edit => ¬ (a.span.start = a.span.stop ∧ a.span = b.span) :=
    ⟨fun a b hab ⟨hb, hba⟩ => hab ⟨hba ▸ hb, hba.symm⟩⟩
  by_contra hne
  exact (List.pairwise_map.mp honce).forall ha hb hne ⟨hempty, hspan⟩

/-- Batches that fit a text and are sorted into the same list do the same to it. -/
theorem applyWithSelection_congr {batch permuted : Batch} {source : Text}
    (hfits : batch.Fits source) (hfits' : permuted.Fits source)
    (h : ascending batch = ascending permuted) (s : Selection) :
    batch.applyWithSelection source s = permuted.applyWithSelection source s := by
  have happly : batch.apply source = permuted.apply source := by
    rw [apply, apply, check_eq_none_iff.mpr hfits, check_eq_none_iff.mpr hfits', h]
  have hmap : batch.mapOffset = permuted.mapOffset := by
    funext n
    rw [mapOffset, mapOffset, landing, landing, h]
  rw [applyWithSelection, applyWithSelection, happly, hmap]

end Batch

namespace Patch

theorem ranges_perm {patches permuted : List Patch} (h : patches.Perm permuted) (document : Text) :
    (ranges document patches).Perm (ranges document permuted) :=
  h.filterMap _

theorem edits_perm {patches permuted : List Patch} (h : patches.Perm permuted) (document : Text) :
    (edits document patches).Perm (edits document permuted) :=
  h.filterMap _

end Patch

/-- Patches that were applied are applied in every order that has the insertions first, with the
same result. -/
theorem applyPatches_of_perm {document : Text} {s : Selection} {patches permuted : List Patch}
    (hperm : patches.Perm permuted) (honce : Span.InsertsOnce (Patch.ranges document patches))
    (hfirst : Span.InsertsFirst (Patch.ranges document permuted)) {r : Text × Selection}
    (h : applyPatches document s patches = .ok r) : applyPatches document s permuted = .ok r := by
  have hok : ¬ ∃ error, applyPatches document s patches = .error error := by
    rw [h]
    exact nofun
  -- none of the causes of failure holds
  have hnot := mt exists_applyPatches_error_iff.mpr hok
  simp only [not_or, not_exists, not_and, not_not] at hnot
  obtain ⟨hlies, hnone, -⟩ := hnot
  have hapart := Span.not_hasConflict_iff.mp hnone
  have hapart' : (Patch.ranges document permuted).Pairwise Span.KeepsApart :=
    Span.pairwise_of_perm hapart (Patch.ranges_perm hperm document)
      (fun a ha => (Patch.hasRange_of_mem_ranges a ha).start_le_stop) hfirst
  have hsorted : Batch.ascending (Patch.edits document patches)
      = Batch.ascending (Patch.edits document permuted) := by
    refine Batch.ascending_eq_of_perm (Patch.edits_perm hperm document)
      (fun e he => (Patch.sits_of_mem_edits e he).start_le_stop) ?_ ?_ ?_
    · rw [Patch.map_span_edits]
      exact hapart
    · rw [Patch.map_span_edits]
      exact hapart'
    · rw [Patch.map_span_edits]
      exact honce
  have hlies' : ∀ patch ∈ permuted, patch.selection.LiesIn document := fun patch hmem =>
    hlies patch (hperm.mem_iff.mpr hmem)
  rw [applyPatches_eq_applyWithSelection hlies', ← Batch.applyWithSelection_congr
    (Patch.fits_edits hnone) (Patch.fits_edits (Span.not_hasConflict_iff.mpr hapart')) hsorted,
    ← applyPatches_eq_applyWithSelection hlies, h]

/-- **The order of patches.** Let no two patches of a list insert at one offset. Then all orders of
the list in which no insertion stands behind a replacement that starts at its offset are applied
alike, or all of them fail; and any other order fails. -/
theorem applyPatches_perm {document : Text} (s : Selection) {patches permuted : List Patch}
    (hperm : patches.Perm permuted) (honce : Span.InsertsOnce (Patch.ranges document patches)) :
    (Span.InsertsFirst (Patch.ranges document patches) →
      Span.InsertsFirst (Patch.ranges document permuted) →
      ∀ r, applyPatches document s patches = .ok r ↔ applyPatches document s permuted = .ok r) ∧
    (¬ Span.InsertsFirst (Patch.ranges document permuted) →
      ∃ error, applyPatches document s permuted = .error error) := by
  refine ⟨fun hfirst hfirst' r => ⟨fun h => ?_, fun h => ?_⟩, fun hlast => ?_⟩
  · exact applyPatches_of_perm hperm honce hfirst' h
  · exact applyPatches_of_perm hperm.symm (honce.perm (Patch.ranges_perm hperm document)) hfirst h
  · refine exists_applyPatches_error_iff.mpr (.inr (.inl ?_))
    by_contra hnone
    exact hlast (Span.insertsFirst_of_pairwise (Span.not_hasConflict_iff.mp hnone))

/-- A replacement, an insertion where it starts and an insertion where it stops, in two orders that
have the first insertion before it. -/
theorem applyPatches_perm_touching :
    [(⟨['+'], .cursor ⟨0, 1⟩⟩ : Patch), ⟨['x'], .between ⟨0, 1⟩ ⟨0, 2⟩⟩,
      ⟨['-'], .cursor ⟨0, 2⟩⟩].Perm
        [⟨['-'], .cursor ⟨0, 2⟩⟩, ⟨['+'], .cursor ⟨0, 1⟩⟩, ⟨['x'], .between ⟨0, 1⟩ ⟨0, 2⟩⟩] ∧
      Span.InsertsOnce (Patch.ranges ['a', 'é', 'b']
        [⟨['+'], .cursor ⟨0, 1⟩⟩, ⟨['x'], .between ⟨0, 1⟩ ⟨0, 2⟩⟩, ⟨['-'], .cursor ⟨0, 2⟩⟩]) ∧
      applyPatches ['a', 'é', 'b'] (.cursor ⟨0, 2⟩)
          [⟨['+'], .cursor ⟨0, 1⟩⟩, ⟨['x'], .between ⟨0, 1⟩ ⟨0, 2⟩⟩, ⟨['-'], .cursor ⟨0, 2⟩⟩]
        = .ok (['a', '+', 'x', '-', 'b'], .cursor ⟨0, 3⟩) ∧
      applyPatches ['a', 'é', 'b'] (.cursor ⟨0, 2⟩)
          [⟨['-'], .cursor ⟨0, 2⟩⟩, ⟨['+'], .cursor ⟨0, 1⟩⟩, ⟨['x'], .between ⟨0, 1⟩ ⟨0, 2⟩⟩]
        = .ok (['a', '+', 'x', '-', 'b'], .cursor ⟨0, 3⟩) :=
  have hperm : [(⟨['+'], .cursor ⟨0, 1⟩⟩ : Patch), ⟨['x'], .between ⟨0, 1⟩ ⟨0, 2⟩⟩,
      ⟨['-'], .cursor ⟨0, 2⟩⟩].Perm
        [⟨['-'], .cursor ⟨0, 2⟩⟩, ⟨['+'], .cursor ⟨0, 1⟩⟩, ⟨['x'], .between ⟨0, 1⟩ ⟨0, 2⟩⟩] :=
    @List.perm_append_comm _ [_, _] [_]
  have honce : Span.InsertsOnce (Patch.ranges ['a', 'é', 'b']
      [⟨['+'], .cursor ⟨0, 1⟩⟩, ⟨['x'], .between ⟨0, 1⟩ ⟨0, 2⟩⟩, ⟨['-'], .cursor ⟨0, 2⟩⟩]) := by
    decide
  ⟨hperm, honce, by rfl,
    ((applyPatches_perm (.cursor ⟨0, 2⟩) hperm honce).1 (by decide) (by decide) _).mp (by rfl)⟩

/-- An insertion that is listed behind a replacement at its offset makes patches fail that are
applied in the other order. -/
theorem applyPatches_insertion_last :
    [(⟨['y'], .between ⟨0, 0⟩ ⟨0, 1⟩⟩ : Patch), ⟨['x', '\n'], .cursor ⟨0, 0⟩⟩].Perm
        [⟨['x', '\n'], .cursor ⟨0, 0⟩⟩, ⟨['y'], .between ⟨0, 0⟩ ⟨0, 1⟩⟩] ∧
      Span.InsertsOnce (Patch.ranges ['x', ';']
        [⟨['y'], .between ⟨0, 0⟩ ⟨0, 1⟩⟩, ⟨['x', '\n'], .cursor ⟨0, 0⟩⟩]) ∧
      applyPatches ['x', ';'] (.cursor ⟨0, 0⟩)
          [⟨['x', '\n'], .cursor ⟨0, 0⟩⟩, ⟨['y'], .between ⟨0, 0⟩ ⟨0, 1⟩⟩]
        = .ok (['x', '\n', 'y', ';'], .cursor ⟨0, 0⟩) ∧
      applyPatches ['x', ';'] (.cursor ⟨0, 0⟩)
          [⟨['y'], .between ⟨0, 0⟩ ⟨0, 1⟩⟩, ⟨['x', '\n'], .cursor ⟨0, 0⟩⟩]
        = .error (.overlap ⟨0, 1⟩ ⟨0, 0⟩) :=
  ⟨List.Perm.swap _ _ _, by decide, by rfl, by rfl⟩

end Retouch
