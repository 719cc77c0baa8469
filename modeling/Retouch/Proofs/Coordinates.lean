import Retouch.Proofs.Positions

/-!
# Offsets and positions as two coordinate systems

Edits are made at byte offsets, and targets are found at lines and columns. Here the two are
compared: how far they undo each other, and that they keep each other's order.

- `Position.limit`: the number that lines and columns stay below.
- `Text.HasLine`, `Text.HasRange`: the lines and the byte ranges of a text.
- `Text.offset?_position_of_cut?`, `Text.position_of_offset?`: there and back, from either side.
- `Text.position_lt_position`, `Text.position_le_position_iff`: on cutting places, positions are
  ordered exactly as offsets are.
- `Text.exists_span?_of_hasLine`: a selection whose lines exist has a range.
- `Text.positions_round_trip`: how offsets and positions undo each other.
- `Text.selections_nest_as_ranges`: both maps keep order, so that selections lie in each other
  exactly where their byte ranges do.
-/

namespace Retouch

/-- Lines and columns are counted in words of 32 bits; this is the number of such words. -/
def Position.limit : Nat := Nat.pow 2 32

theorem Position.lt_iff (a b : Position) :
    a < b ↔ a.line < b.line ∨ a.line = b.line ∧ a.column < b.column := by
  rw [lt_iff_not_le, le_iff]
  omega

namespace Text

/-! ## Lines that exist -/

/-- Whether a text has a line of a given number. There is one line more than there are line
feeds. -/
def HasLine (text : Text) (line : Nat) : Prop :=
  line ≤ text.count '\n'

instance (text : Text) (line : Nat) : Decidable (text.HasLine line) :=
  inferInstanceAs (Decidable (_ ≤ _))

theorem hasLine_iff {text : Text} {line : Nat} :
    text.HasLine line ↔ line < text.rawLines.length := by
  rw [length_rawLines, HasLine]
  omega

theorem HasLine.exists_lineText? {text : Text} {line : Nat} (h : text.HasLine line) :
    ∃ content, text.lineText? line = some content :=
  ⟨_, by rw [lineText?, List.getElem?_eq_getElem ((hasLine_iff).mp h)]; rfl⟩

theorem HasLine.exists_offset? {text : Text} {p : Position} (h : text.HasLine p.line) :
    ∃ n, text.offset? p = some n :=
  Option.isSome_iff_exists.mp (isSome_offset?_iff.mpr ((hasLine_iff).mp h))

theorem offset?_eq_none_iff {text : Text} {p : Position} :
    text.offset? p = none ↔ ¬ text.HasLine p.line := by
  rw [hasLine_iff, ← isSome_offset?_iff, Option.not_isSome_iff_eq_none]

/-! ## There and back -/

instance (before after : Text) : Decidable (IsBehindReturn before after) :=
  inferInstanceAs (Decidable (_ ∧ (_ ∨ _)))

/-- Behind a carriage return that ends a line, the way back leads before it. -/
theorem offset?_position_of_isBehindReturn {before after : Text} (h : IsBehindReturn before after) :
    offset? (before ++ after) (position (before ++ after) before.size)
      = some (before.size - 1) := by
  obtain ⟨hreturn, hafter⟩ := h
  obtain ⟨above, line, rfl, habove, hline⟩ := exists_last_line before
  -- whole lines end in a line feed, so the carriage return stands on the line after them
  obtain ⟨kept, rfl⟩ : ∃ kept, line = kept ++ ['\r'] := by
    rcases List.eq_nil_or_concat line with rfl | ⟨kept, c, rfl⟩
    · rw [List.append_nil] at hreturn
      rcases habove with rfl | hlast
      · cases hreturn
      · rw [hlast] at hreturn
        simp at hreturn
    · rw [List.concat_eq_append, ← List.append_assoc, List.getLast?_concat] at hreturn
      obtain rfl : c = '\r' := Option.some.inj hreturn
      exact ⟨kept, List.concat_eq_append⟩
  have hrest : after.takeWhile (· != '\n') = [] := by
    rcases hafter with rfl | hfeed
    · rfl
    · obtain ⟨rest, rfl⟩ := List.head?_eq_some_iff.mp hfeed
      simp
  have hdrop : dropReturn (kept ++ ['\r']) = kept := by simp [dropReturn]
  obtain ⟨hraw, hstart⟩ := rawLines_getElem? habove hline after
  rw [position_size habove hline]
  refine offset?_eq_some_iff.mpr ⟨_, hraw, ?_⟩
  have hone : ('\r' : Char).utf8Size = 1 := by decide
  rw [hrest, List.append_nil, hdrop, hstart, List.take_of_length_le (by simp)]
  simp only [size_append, size_cons, size_nil, hone]
  omega

theorem offset?_position_of_cut? {text before after : Text} {n : Nat}
    (h : text.cut? n = some (before, after)) :
    text.offset? (text.position n) = some (if IsBehindReturn before after then n - 1 else n) := by
  obtain ⟨rfl, rfl⟩ := cut?_eq_some_iff.mp h
  by_cases hreturn : IsBehindReturn before after
  · rw [if_pos hreturn, offset?_position_of_isBehindReturn hreturn]
  · rw [if_neg hreturn, offset?_position hreturn]

/-- The way back from the offset of a position keeps the line, and the column as far as the line
reaches. -/
theorem position_of_offset? {text line : Text} {p : Position} {n : Nat}
    (hline : text.lineText? p.line = some line) (h : text.offset? p = some n) :
    text.position n = ⟨p.line, min p.column line.length⟩ := by
  obtain ⟨above, after, htext, hoffset, habove, hcount, hfeed⟩ := exists_column hline
  rw [h] at hoffset
  obtain rfl := Option.some.inj hoffset
  have hposition := position_size habove hfeed after
  rw [← htext, hcount, List.length_take] at hposition
  exact hposition

/-- The two coordinates of a position come to no more than the size of the text. -/
theorem positionFrom_le_size (text : Text) (n : Nat) (here : Position) :
    (positionFrom text n here).line + (positionFrom text n here).column
      ≤ here.line + here.column + text.size := by
  induction text generalizing n here with
  | nil => exact Nat.le_refl _
  | cons c rest ih =>
    have hpos := c.utf8Size_pos
    have hstep : (advance here c).line + (advance here c).column
        ≤ here.line + here.column + 1 := by
      rw [advance]
      split
      · dsimp only
        omega
      · dsimp only
        omega
    have hrest := ih (n - c.utf8Size) (advance here c)
    rw [positionFrom_cons, size_cons]
    split
    · omega
    · omega

theorem position_le_size (text : Text) (n : Nat) :
    (text.position n).line + (text.position n).column ≤ text.size := by
  simpa [position] using positionFrom_le_size text n ⟨0, 0⟩

/-- **Offsets and positions undo each other.** The position of a cutting place leads back to it, or
to one byte before it if it stands behind a carriage return that ends a line. The offset of a
position leads back to it if its column is on the line, and to the end of the line otherwise. A line
that does not exist has no offsets. Both coordinates of a position are at most the size of the text,
so that those of a text whose size is below `Position.limit` are words. -/
theorem positions_round_trip (text : Text) :
    (∀ n before after, text.cut? n = some (before, after) →
      text.offset? (text.position n) = some (if IsBehindReturn before after then n - 1 else n)) ∧
    (∀ p, text.HasLine p.line →
      ∃ line n, text.lineText? p.line = some line ∧ text.offset? p = some n ∧
        text.position n = if p.column ≤ line.length then p else ⟨p.line, line.length⟩) ∧
    (∀ p, ¬ text.HasLine p.line → text.offset? p = none) ∧
    (∀ n, (text.position n).line ≤ text.size ∧ (text.position n).column ≤ text.size) := by
  refine ⟨fun n before after hcut => offset?_position_of_cut? hcut, fun p hp => ?_,
    fun p hp => offset?_eq_none_iff.mpr hp, fun n => ?_⟩
  · obtain ⟨line, hline⟩ := hp.exists_lineText?
    obtain ⟨n, hn⟩ := hp.exists_offset?
    refine ⟨line, n, hline, hn, ?_⟩
    rw [position_of_offset? hline hn]
    by_cases hcolumn : p.column ≤ line.length
    · rw [if_pos hcolumn, Nat.min_eq_left hcolumn]
    · rw [if_neg hcolumn, Nat.min_eq_right (Nat.le_of_not_le hcolumn)]
  · have hsize := position_le_size text n
    omega

/-- Behind the two carriage returns that end a line the way back is one byte shorter, behind the
lone one it is not; and a column past the end of the first line leads to that end. -/
theorem positions_round_trip_returns :
    Text.cut? ['a', '\r', '\n', '\r', 'é', '\r'] 2 = some (['a', '\r'], ['\n', '\r', 'é', '\r']) ∧
      Text.offset? ['a', '\r', '\n', '\r', 'é', '\r']
        (Text.position ['a', '\r', '\n', '\r', 'é', '\r'] 2) = some 1 ∧
      Text.offset? ['a', '\r', '\n', '\r', 'é', '\r']
        (Text.position ['a', '\r', '\n', '\r', 'é', '\r'] 4) = some 4 ∧
      Text.offset? ['a', '\r', '\n', '\r', 'é', '\r']
        (Text.position ['a', '\r', '\n', '\r', 'é', '\r'] 7) = some 6 ∧
      Text.HasLine ['a', '\r', '\n', '\r', 'é', '\r'] 0 ∧
      ∃ line n, Text.lineText? ['a', '\r', '\n', '\r', 'é', '\r'] 0 = some line ∧
        Text.offset? ['a', '\r', '\n', '\r', 'é', '\r'] ⟨0, 9⟩ = some n ∧
        Text.position ['a', '\r', '\n', '\r', 'é', '\r'] n
          = if 9 ≤ line.length then ⟨0, 9⟩ else ⟨0, line.length⟩ :=
  ⟨by rfl, (positions_round_trip _).1 2 ['a', '\r'] ['\n', '\r', 'é', '\r'] (by rfl),
    (positions_round_trip _).1 4 ['a', '\r', '\n', '\r'] ['é', '\r'] (by rfl),
    (positions_round_trip _).1 7 ['a', '\r', '\n', '\r', 'é', '\r'] [] (by rfl), by decide,
    (positions_round_trip _).2.1 ⟨0, 9⟩ (by decide)⟩

/-! ## Order -/

theorem lt_advance (here : Position) (c : Char) : here < advance here c := by
  rw [Position.lt_iff, advance]
  split
  · exact .inl (Nat.lt_succ_self _)
  · exact .inr ⟨rfl, Nat.lt_succ_self _⟩

/-- Every character moves the position on. -/
theorem le_foldl_advance (text : Text) (here : Position) : here ≤ text.foldl advance here := by
  induction text generalizing here with
  | nil => exact Position.le_refl here
  | cons c rest ih => exact Position.le_trans (le_advance here c) (ih _)

theorem lt_foldl_advance {text : Text} (h : text ≠ []) (here : Position) :
    here < text.foldl advance here := by
  cases text with
  | nil => exact absurd rfl h
  | cons c rest =>
    have hstep := lt_advance here c
    have hrest := le_foldl_advance rest (advance here c)
    rw [Position.lt_iff] at hstep ⊢
    rw [Position.le_iff] at hrest
    rw [List.foldl_cons]
    omega

/-- Of two cutting places the earlier one has the earlier position. -/
theorem position_lt_position {text : Text} {m n : Nat} (hm : text.isBoundary m = true)
    (hn : text.isBoundary n = true) (h : m < n) : text.position m < text.position n := by
  obtain ⟨before, after, htext, rfl⟩ := isBoundary_iff.mp hm
  obtain ⟨before', after', htext', rfl⟩ := isBoundary_iff.mp hn
  obtain ⟨middle, rfl, rfl⟩ := exists_middle (htext.symm.trans htext') (Nat.le_of_lt h)
  have hmiddle : middle ≠ [] := by
    rintro rfl
    simp at h
  have hfirst : text.position before.size = before.foldl advance ⟨0, 0⟩ := by
    rw [htext, position, positionFrom_size]
  have hsecond : text.position (before ++ middle).size
      = middle.foldl advance (before.foldl advance ⟨0, 0⟩) := by
    rw [htext', position, positionFrom_size, List.foldl_append]
  rw [hfirst, hsecond]
  exact lt_foldl_advance hmiddle _

theorem position_le_position_iff {text : Text} {m n : Nat} (hm : text.isBoundary m = true)
    (hn : text.isBoundary n = true) : text.position m ≤ text.position n ↔ m ≤ n := by
  refine ⟨fun hle => ?_, text.position_mono⟩
  rcases Nat.lt_or_ge n m with hlt | hge
  · exact absurd hle ((Position.lt_iff_not_le _ _).mp (position_lt_position hn hm hlt))
  · exact hge

/-! ## Ranges and selections -/

/-- A byte range of a text: it runs forward, and the text can be cut at both of its ends. -/
structure HasRange (text : Text) (range : Span) : Prop where
  start_le_stop : range.start ≤ range.stop
  start_cut : text.isBoundary range.start = true
  stop_cut : text.isBoundary range.stop = true

theorem hasRange_of_span? {text : Text} {s : Selection} {range : Span}
    (h : text.span? s = some range) : text.HasRange range := by
  have hordered := span?_ordered h
  unfold span? at h
  split at h
  · next start stop hstart hstop =>
    cases h
    exact ⟨hordered, isBoundary_of_offset? hstart, isBoundary_of_offset? hstop⟩
  · cases h

/-- A selection whose last line exists has a byte range. -/
theorem exists_span?_of_hasLine {text : Text} {s : Selection} (h : text.HasLine s.stop.line) :
    ∃ range, text.span? s = some range ∧ text.HasRange range := by
  have hstop := (hasLine_iff).mp h
  have hstart := Nat.lt_of_le_of_lt (Position.line_le s.start_le_stop) hstop
  obtain ⟨range, hrange⟩ := exists_span? hstart hstop
  exact ⟨range, hrange, hasRange_of_span? hrange⟩

theorem isInside_selection_iff {text : Text} {inner outer : Span} (hinner : text.HasRange inner)
    (houter : text.HasRange outer) :
    (text.selection inner).isInside (text.selection outer) = true ↔
      outer.start ≤ inner.start ∧ inner.stop ≤ outer.stop := by
  rw [Selection.isInside_iff, selection_of_le text hinner.start_le_stop,
    selection_of_le text houter.start_le_stop,
    position_le_position_iff houter.start_cut hinner.start_cut,
    position_le_position_iff hinner.stop_cut houter.stop_cut]

/-- **Lines and columns are ordered as bytes are.** Positions increase strictly on cutting places
and never decrease; offsets never decrease on positions whose lines exist, wherever columns are cut
off, so that a selection on such lines has a byte range; and of two byte ranges of the text, one
lies in the other exactly if its selection does. -/
theorem selections_nest_as_ranges (text : Text) :
    (∀ m n, text.isBoundary m = true → text.isBoundary n = true → m < n →
      text.position m < text.position n) ∧
    (∀ m n, m ≤ n → text.position m ≤ text.position n) ∧
    (∀ p q, text.HasLine p.line → text.HasLine q.line → p ≤ q →
      ∃ m n, text.offset? p = some m ∧ text.offset? q = some n ∧ m ≤ n) ∧
    (∀ s : Selection, text.HasLine s.start.line → text.HasLine s.stop.line →
      ∃ range, text.span? s = some range ∧ range.start ≤ range.stop ∧ range.stop ≤ text.size ∧
        text.isBoundary range.start = true ∧ text.isBoundary range.stop = true) ∧
    (∀ inner outer, text.HasRange inner → text.HasRange outer →
      ((text.selection inner).isInside (text.selection outer) = true ↔
        outer.start ≤ inner.start ∧ inner.stop ≤ outer.stop)) := by
  refine ⟨fun m n hm hn h => position_lt_position hm hn h, fun m n h => text.position_mono h,
    fun p q hp hq h => ?_, fun s _ hstop => ?_,
    fun inner outer hinner houter => isInside_selection_iff hinner houter⟩
  · obtain ⟨m, hm⟩ := hp.exists_offset?
    obtain ⟨n, hn⟩ := hq.exists_offset?
    exact ⟨m, n, hm, hn, offset?_mono h hm hn⟩
  · obtain ⟨range, hspan, hordered, hstartCut, hstopCut⟩ := exists_span?_of_hasLine hstop
    exact ⟨range, hspan, hordered, le_size_of_isBoundary hstopCut, hstartCut, hstopCut⟩

/-- A line break does not lie in the range that stops between its two characters. -/
theorem selections_nest_as_ranges_returns :
    Text.HasRange ['é', '\r', '\n', 'b'] ⟨2, 4⟩ ∧ Text.HasRange ['é', '\r', '\n', 'b'] ⟨0, 3⟩ ∧
      ((Text.selection ['é', '\r', '\n', 'b'] ⟨2, 4⟩).isInside
          (Text.selection ['é', '\r', '\n', 'b'] ⟨0, 3⟩) = true ↔ 0 ≤ 2 ∧ 4 ≤ 3) :=
  have hinner : Text.HasRange ['é', '\r', '\n', 'b'] ⟨2, 4⟩ := ⟨by decide, by decide, by decide⟩
  have houter : Text.HasRange ['é', '\r', '\n', 'b'] ⟨0, 3⟩ := ⟨by decide, by decide, by decide⟩
  ⟨hinner, houter, (selections_nest_as_ranges _).2.2.2.2 _ _ hinner houter⟩

end Text

end Retouch
