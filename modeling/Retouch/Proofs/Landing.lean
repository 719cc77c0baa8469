import Retouch.Proofs.Splice

/-!
# Where offsets land

The walk that carries an offset through a batch knows nothing of the new text: it only adds up how
much the edits before the offset make the text grow. Here the two are tied together along the
layout of the edits.

- `landFrom_before`, `landFrom_inside`, `landFrom_after`: the walk at one edit. Its rules for
  insertions and replacements come to three cases: the offset is at or before the start of the
  edit, strictly inside, or at or after its end.
- `Laid.landAt_place`: an offset lands at a cutting place of the new text.
- `Laid.landAt_mono`: offsets land in order.
- `Laid.landAt_charAt?`: an offset that no edit touches lands at its own character.
- `Batch.mapOffset_faithful`: all of it, for the offsets of a batch that was applied.
-/

namespace Retouch.Batch

/-- The offset that a landing comes to. -/
def Landing.place (l : Landing) : Int := l.base + l.within

@[simp] theorem Landing.place_mk (base : Int) (within : Nat) :
    Landing.place ⟨base, within⟩ = base + within := rfl

/-! ## One edit -/

section OneEdit

variable {e : Edit} {edits : List Edit} {a : Nat} {growthSoFar : Int}

theorem landFrom_before (ha : a ≤ e.span.start) :
    landFrom a (e :: edits) growthSoFar = ⟨a + growthSoFar, 0⟩ := by
  rw [landFrom]
  have hstart : ¬ e.span.start < a := Nat.not_lt.mpr ha
  by_cases hempty : e.span.isEmpty = true
  · rw [if_pos hempty, if_neg hstart]
  · have hstop : ¬ e.span.stop ≤ a := by
      simp only [Span.isEmpty, decide_eq_true_eq] at hempty
      omega
    rw [if_neg hempty, if_neg hstop, if_neg hstart]

theorem landFrom_inside (hstart : e.span.start < a) (hstop : a < e.span.stop) :
    landFrom a (e :: edits) growthSoFar
      = ⟨e.span.start + growthSoFar, Text.floor e.text (a - e.span.start)⟩ := by
  have hempty : ¬ e.span.isEmpty = true := by
    simp only [Span.isEmpty, decide_eq_true_eq]
    omega
  rw [landFrom, if_neg hempty, if_neg (Nat.not_le.mpr hstop), if_pos hstart]

theorem landFrom_after (hstart : e.span.start < a) (hstop : e.span.stop ≤ a) :
    landFrom a (e :: edits) growthSoFar = landFrom a edits (growthSoFar + growth e) := by
  rw [landFrom]
  by_cases hempty : e.span.isEmpty = true
  · rw [if_pos hempty, if_pos hstart]
  · rw [if_neg hempty, if_pos hstop]

end OneEdit

/-! ## Along a layout

The walk is followed from the start of a rest of the text. The distance from there is what counts
in the old text; `made` bytes of the new text are there already. -/

/-- The landing of the offset at a distance behind the start of a rest of the text, when the edits
before it have made a number of bytes of the new text. -/
def landAt (offset made distance : Nat) (edits : List Edit) : Landing :=
  landFrom (offset + distance) edits ((made : Int) - offset)

section AlongLayout

variable {offset k : Nat} (made : Nat) {e : Edit} {edits : List Edit}
  {gap replaced rest output : Text}

theorem landAt_nil : landAt offset made k [] = ⟨made + k, 0⟩ := by
  simp only [landAt, landFrom, Landing.mk.injEq, and_true]
  omega

/-- The walk at the first edit of a layout: it ends in the gap before the edit, it ends inside what
the edit replaces, or it goes on behind it. -/
theorem landAt_cases (k : Nat) (hgap : offset + gap.size = e.span.start)
    (hreplaced : e.span.start + replaced.size = e.span.stop) :
    (k ≤ gap.size ∧ landAt offset made k (e :: edits) = ⟨made + k, 0⟩) ∨
    (gap.size < k ∧ k < gap.size + replaced.size ∧
      landAt offset made k (e :: edits)
        = ⟨made + gap.size, Text.floor e.text (k - gap.size)⟩) ∨
    (gap.size < k ∧ gap.size + replaced.size ≤ k ∧
      landAt offset made k (e :: edits)
        = landAt e.span.stop (made + gap.size + Text.size e.text)
            (k - (gap.size + replaced.size)) edits) := by
  rcases Nat.lt_or_ge gap.size k with hlt | hle
  · rcases Nat.lt_or_ge k (gap.size + replaced.size) with hk | hk
    · refine .inr (.inl ⟨hlt, hk, ?_⟩)
      rw [landAt, landFrom_inside (by omega) (by omega), Landing.mk.injEq]
      exact ⟨by omega, by congr 1; omega⟩
    · refine .inr (.inr ⟨hlt, hk, ?_⟩)
      rw [landAt, landFrom_after (by omega) (by omega), landAt]
      congr 1
      · omega
      · simp only [growth, Span.length]
        omega
  · refine .inl ⟨hle, ?_⟩
    rw [landAt, landFrom_before (by omega), Landing.mk.injEq]
    exact ⟨by omega, rfl⟩

/-- An offset behind the first edit, counted from the end of what the edit replaces. -/
theorem eq_size_add_behind (h : gap.size + replaced.size ≤ k) :
    k = (gap ++ replaced).size + (k - (gap.size + replaced.size)) := by
  rw [Text.size_append]
  omega

/-- An offset lands behind what is made already. -/
theorem Laid.le_landAt (h : Laid offset edits rest output) :
    (made : Int) ≤ (landAt offset made k edits).place := by
  induction h generalizing made k with
  | nil rest =>
    rw [landAt_nil, Landing.place_mk]
    omega
  | cons hgap hreplaced _ ih =>
    rcases landAt_cases made k hgap hreplaced with ⟨-, heq⟩ | ⟨-, -, heq⟩ | ⟨-, -, heq⟩
    · rw [heq, Landing.place_mk]
      omega
    · rw [heq, Landing.place_mk]
      omega
    · rw [heq]
      exact Int.le_trans (by omega) (ih _)

/-- Offsets land in order. -/
theorem Laid.landAt_mono (h : Laid offset edits rest output) {l : Nat} (hkl : k ≤ l) :
    (landAt offset made k edits).place ≤ (landAt offset made l edits).place := by
  induction h generalizing made k l with
  | nil rest =>
    rw [landAt_nil, landAt_nil, Landing.place_mk, Landing.place_mk]
    omega
  | @cons offset e edits gap replaced rest output hgap hreplaced hrest ih =>
    -- the earlier offset cannot end behind the part of the layout in which the later one ends
    rcases landAt_cases made l hgap hreplaced with ⟨hl, hl'⟩ | ⟨hl, hl₂, hl'⟩ | ⟨hl, hl₂, hl'⟩
    · rcases landAt_cases made k hgap hreplaced with ⟨-, hk'⟩ | ⟨hk, -⟩ | ⟨hk, -⟩
      · rw [hk', hl', Landing.place_mk, Landing.place_mk]
        omega
      · omega
      · omega
    · rcases landAt_cases made k hgap hreplaced with ⟨hk, hk'⟩ | ⟨-, -, hk'⟩ | ⟨-, hk₂, -⟩
      · rw [hk', hl', Landing.place_mk, Landing.place_mk]
        omega
      · have hfloor := Text.floor_mono e.text (Nat.sub_le_sub_right hkl gap.size)
        rw [hk', hl', Landing.place_mk, Landing.place_mk]
        omega
      · omega
    · have hbehind := hrest.le_landAt (k := l - (gap.size + replaced.size))
        (made + gap.size + Text.size e.text)
      rcases landAt_cases made k hgap hreplaced with ⟨hk, hk'⟩ | ⟨-, -, hk'⟩ | ⟨-, -, hk'⟩
      · rw [hk', hl', Landing.place_mk]
        omega
      · have hsize := Text.floor_le_size e.text (k - gap.size)
        rw [hk', hl', Landing.place_mk]
        omega
      · rw [hk', hl']
        exact ih _ (Nat.sub_le_sub_right hkl _)

/-- A cutting place of the old text lands at one of the new text, and the place that the growth so
far gives is never negative. -/
theorem Laid.landAt_place (h : Laid offset edits rest output) (hk : rest.isBoundary k = true) :
    0 ≤ (landAt offset made k edits).base ∧
      ∃ j : Nat, (landAt offset made k edits).place = made + j ∧ output.isBoundary j = true := by
  induction h generalizing made k with
  | nil rest =>
    rw [landAt_nil]
    exact ⟨by dsimp only; omega, k, by rw [Landing.place_mk]; omega, hk⟩
  | @cons offset e edits gap replaced rest output hgap hreplaced hrest ih =>
    rcases landAt_cases made k hgap hreplaced with ⟨hk₁, heq⟩ | ⟨hk₁, hk₂, heq⟩ | ⟨hk₁, hk₂, heq⟩
    · rw [heq]
      rw [List.append_assoc, Text.isBoundary_append_left _ _ hk₁] at hk
      refine ⟨by dsimp only; omega, k, by rw [Landing.place_mk]; omega, ?_⟩
      rw [List.append_assoc, Text.isBoundary_append_left _ _ hk₁]
      exact hk
    · -- the offset was inside the replaced text; its floor cuts the replacement, which is in the
      -- same place in the new text
      rw [heq]
      refine ⟨by dsimp only; omega, gap.size + Text.floor e.text (k - gap.size),
        by rw [Landing.place_mk]; omega, ?_⟩
      rw [List.append_assoc, Text.isBoundary_append_right,
        Text.isBoundary_append_left _ _ (Text.floor_le_size _ _)]
      exact Text.isBoundary_floor _ _
    · rw [heq]
      rw [eq_size_add_behind hk₂, Text.isBoundary_append_right] at hk
      obtain ⟨hbase, j, hplace, hj⟩ := ih (made + gap.size + Text.size e.text) hk
      refine ⟨hbase, gap.size + Text.size e.text + j, by rw [hplace]; omega, ?_⟩
      rw [← Text.size_append, Text.isBoundary_append_right]
      exact hj

/-- An offset that lies in no replaced range and at no insertion lands at its own character. -/
theorem Laid.landAt_charAt? (h : Laid offset edits rest output)
    (hrange : ∀ e ∈ edits, ¬ (e.span.start ≤ offset + k ∧ offset + k < e.span.stop))
    (hinsert : ∀ e ∈ edits, e.span.start = e.span.stop → e.span.start ≠ offset + k) :
    ∃ j : Nat, (landAt offset made k edits).place = made + j ∧
      output.charAt? j = rest.charAt? k := by
  induction h generalizing made k with
  | nil rest =>
    rw [landAt_nil]
    exact ⟨k, by rw [Landing.place_mk]; omega, rfl⟩
  | @cons offset e edits gap replaced rest output hgap hreplaced hrest ih =>
    have hrange' := hrange e List.mem_cons_self
    have hinsert' := hinsert e List.mem_cons_self
    rcases landAt_cases made k hgap hreplaced with ⟨hk₁, heq⟩ | ⟨hk₁, hk₂, heq⟩ | ⟨hk₁, hk₂, heq⟩
    · -- at the end of the gap there is an insertion or a replaced range
      have hlt : k < gap.size := by
        by_cases hempty : e.span.start = e.span.stop
        · have hne := hinsert' hempty
          omega
        · omega
      rw [heq]
      refine ⟨k, by rw [Landing.place_mk]; omega, ?_⟩
      rw [List.append_assoc, List.append_assoc, Text.charAt?_append_left _ _ hlt,
        Text.charAt?_append_left _ _ hlt]
    · omega
    · have hoffset : e.span.stop + (k - (gap.size + replaced.size)) = offset + k := by omega
      obtain ⟨j, hplace, hj⟩ := @ih (k - (gap.size + replaced.size))
        (made + gap.size + Text.size e.text)
        (fun f hf => hoffset ▸ hrange f (List.mem_cons_of_mem e hf))
        (fun f hf => hoffset ▸ hinsert f (List.mem_cons_of_mem e hf))
      rw [heq]
      refine ⟨gap.size + Text.size e.text + j, by rw [hplace]; omega, ?_⟩
      have hsplit := eq_size_add_behind hk₂
      rw [← Text.size_append, Text.charAt?_append_right, hj, hsplit, Text.charAt?_append_right,
        ← hsplit]

end AlongLayout

/-! ## Offsets of a batch that was applied -/

theorem landing_eq (batch : Batch) (a : Nat) : batch.landing a = landAt 0 0 a batch.ordered := by
  rw [landing, ascending_eq_ordered, landAt, Nat.zero_add]
  rfl

theorem wordOf_natCast {n : Nat} (h : n < wordCount) : wordOf n = n := by
  rw [wordOf, Int.emod_eq_of_lt (by omega) (by omega)]
  exact Int.toNat_natCast n

/-- A cutting place lands, without any wrapping, at a cutting place. -/
theorem exists_mapOffset {batch : Batch} {source output : Text}
    (h : Laid 0 batch.ordered source output) (hsize : output.size < wordCount) {a : Nat}
    (ha : source.isBoundary a = true) :
    0 ≤ (batch.landing a).base ∧ (batch.mapOffset a : Int) = (batch.landing a).place ∧
      output.isBoundary (batch.mapOffset a) = true := by
  obtain ⟨hbase, j, hplace, hj⟩ := h.landAt_place 0 ha
  rw [← landing_eq] at hbase hplace
  have hle := Text.le_size_of_isBoundary hj
  have hplace' : (batch.landing a).place = (j : Int) := by omega
  -- `j` is at most the size of the output, so the word that is kept of it is all of it
  have hword : batch.mapOffset a = j := by
    show wordOf (batch.landing a).place = j
    rw [hplace', wordOf_natCast (by omega)]
  rw [hword]
  exact ⟨hbase, hplace'.symm, hj⟩

/-- Cutting places land in order. -/
theorem mapOffset_mono {batch : Batch} {source output : Text}
    (h : Laid 0 batch.ordered source output) (hsize : output.size < wordCount) {a b : Nat}
    (ha : source.isBoundary a = true) (hb : source.isBoundary b = true) (hab : a ≤ b) :
    batch.mapOffset a ≤ batch.mapOffset b := by
  obtain ⟨-, hplaceA, -⟩ := exists_mapOffset h hsize ha
  obtain ⟨-, hplaceB, -⟩ := exists_mapOffset h hsize hb
  have hmono := h.landAt_mono 0 hab
  rw [← landing_eq, ← landing_eq, ← hplaceA, ← hplaceB] at hmono
  exact Int.ofNat_le.mp hmono

/-- **Offsets are carried faithfully.** Let a batch be applied to a text, with an output whose
offsets are words. Then the cutting places of the old text land in order at cutting places of the
new one, the signed arithmetic on the way stays on this side of zero and is never wrapped, and
each character that no edit replaces, and before which none inserts, is found where its offset
lands. -/
theorem mapOffset_faithful {batch : Batch} {source output : Text}
    (happly : batch.apply source = .ok output) (hsize : output.size < wordCount) :
    (∀ a b, source.isBoundary a = true → source.isBoundary b = true → a ≤ b →
      batch.mapOffset a ≤ batch.mapOffset b ∧ batch.mapOffset b ≤ output.size) ∧
    (∀ a, source.isBoundary a = true →
      output.isBoundary (batch.mapOffset a) = true ∧ 0 ≤ (batch.landing a).base ∧
        (batch.mapOffset a : Int) = (batch.landing a).base + (batch.landing a).within) ∧
    (∀ a, source.isBoundary a = true → a < source.size →
      (∀ e ∈ batch, ¬ (e.span.start ≤ a ∧ a < e.span.stop)) →
      (∀ e ∈ batch, e.span.start = e.span.stop → e.span.start ≠ a) →
      ∃ c, source.charAt? a = some c ∧ output.charAt? (batch.mapOffset a) = some c) := by
  obtain ⟨-, hlaid⟩ := laid_of_apply happly
  refine ⟨fun a b ha hb hab => ?_, fun a ha => ?_, fun a ha hlt hrange hinsert => ?_⟩
  · obtain ⟨-, hplaceA, -⟩ := exists_mapOffset hlaid hsize ha
    obtain ⟨-, hplaceB, hcut⟩ := exists_mapOffset hlaid hsize hb
    have hmono := hlaid.landAt_mono 0 hab
    rw [← landing_eq, ← landing_eq, ← hplaceA, ← hplaceB] at hmono
    exact ⟨Int.ofNat_le.mp hmono, Text.le_size_of_isBoundary hcut⟩
  · obtain ⟨hbase, hplace, hcut⟩ := exists_mapOffset hlaid hsize ha
    exact ⟨hcut, hbase, hplace⟩
  · obtain ⟨c, hc⟩ := Text.exists_charAt? ha hlt
    obtain ⟨-, hplace, -⟩ := exists_mapOffset hlaid hsize ha
    obtain ⟨j, hj, hchar⟩ := @Laid.landAt_charAt? 0 a 0 batch.ordered source output hlaid
      (fun e he => by simpa using hrange e (mem_ordered.mp he))
      (fun e he => by simpa using hinsert e (mem_ordered.mp he))
    rw [← landing_eq] at hj
    have hword : batch.mapOffset a = j := by omega
    exact ⟨c, hc, by rw [hword, hchar, hc]⟩

/-- Edits added out of order, two of them insertions at one offset, around characters of two
bytes: the character between them is found again. -/
theorem mapOffset_faithful_mixed :
    Batch.apply [⟨⟨4, 4⟩, ['ü', '!']⟩, ⟨⟨1, 3⟩, ['x', 'y', 'z', 'w']⟩, ⟨⟨4, 4⟩, ['?']⟩]
        ['a', 'é', 'b', 'c'] = .ok ['a', 'x', 'y', 'z', 'w', 'b', 'ü', '!', '?', 'c'] ∧
      Text.size ['a', 'x', 'y', 'z', 'w', 'b', 'ü', '!', '?', 'c'] < wordCount ∧
      ∃ c, Text.charAt? ['a', 'é', 'b', 'c'] 3 = some c ∧
        Text.charAt? ['a', 'x', 'y', 'z', 'w', 'b', 'ü', '!', '?', 'c']
          (mapOffset [⟨⟨4, 4⟩, ['ü', '!']⟩, ⟨⟨1, 3⟩, ['x', 'y', 'z', 'w']⟩, ⟨⟨4, 4⟩, ['?']⟩] 3)
            = some c :=
  ⟨by rfl, by decide,
    (mapOffset_faithful (by rfl) (by decide)).2.2 3 (by decide) (by decide) (by decide) (by decide)⟩

end Retouch.Batch
