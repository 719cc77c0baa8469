import Retouch.Proofs.Text
import Retouch.Text.Lines

/-!
# Positions that a text has

A position has an offset if its line exists; its column does not matter, since it is cut off at the
end of the line.

- `position_line_lt`: every offset, also one past the end, has its position on a line that exists.
- `offset?_eq_some_iff`, `isSome_offset?_iff`: when a position has an offset, and which.
- `offset?_mono`: offsets keep the order of positions.
- `exists_span?_selection`: the selection of any byte range can be found again in its text.
-/

namespace Retouch.Text

/-! ## Lines -/

theorem length_splitOnChar_pos (separator : Char) (text : Text) :
    0 < (splitOnChar separator text).length := by
  cases text with
  | nil => exact Nat.one_pos
  | cons c rest =>
    rw [splitOnChar]
    split
    · exact Nat.succ_pos _
    · split
      · exact Nat.one_pos
      · exact Nat.succ_pos _

/-- A line feed makes one line more, and any other character none. -/
theorem length_rawLines_cons (c : Char) (rest : Text) :
    (rawLines (c :: rest)).length
      = if c == '\n' then (rawLines rest).length + 1 else (rawLines rest).length := by
  rw [rawLines, splitOnChar]
  split
  · rfl
  · have hpos := length_splitOnChar_pos '\n' rest
    rw [rawLines]
    cases hrest : splitOnChar '\n' rest with
    | nil => simp [hrest] at hpos
    | cons piece pieces => rfl

theorem positionFrom_line_lt (text : Text) (n : Nat) (here : Position) :
    (positionFrom text n here).line < here.line + text.rawLines.length := by
  induction text generalizing n here with
  | nil => exact Nat.lt_succ_self _
  | cons c rest ih =>
    have hpos : 0 < (rawLines rest).length := length_splitOnChar_pos '\n' rest
    rw [positionFrom, length_rawLines_cons]
    by_cases hc : c.utf8Size ≤ n
    · rw [if_pos hc]
      refine Nat.lt_of_lt_of_le (ih _ _) ?_
      by_cases hfeed : (c == '\n') = true
      · rw [if_pos hfeed, if_pos hfeed]
        dsimp only
        omega
      · simp [hfeed]
    · rw [if_neg hc]
      split
      · omega
      · omega

/-- Every offset has its position on a line that exists. -/
theorem position_line_lt (text : Text) (n : Nat) :
    (text.position n).line < text.rawLines.length := by
  simpa [position] using positionFrom_line_lt text n ⟨0, 0⟩

/-! ## Offsets of positions -/

theorem offset?_eq_some_iff {text : Text} {p : Position} {n : Nat} :
    text.offset? p = some n ↔
      ∃ raw, text.rawLines[p.line]? = some raw ∧
        n = text.lineStart p.line + Text.size ((dropReturn raw).take p.column) := by
  rw [offset?, lineText?, Option.map_map, Option.map_eq_some_iff]
  constructor
  · rintro ⟨raw, hraw, rfl⟩
    exact ⟨raw, hraw, rfl⟩
  · rintro ⟨raw, hraw, rfl⟩
    exact ⟨raw, hraw, rfl⟩

theorem isSome_offset?_iff {text : Text} {p : Position} :
    (text.offset? p).isSome = true ↔ p.line < text.rawLines.length := by
  rw [offset?, lineText?, Option.isSome_map, Option.isSome_map]
  simp

theorem lineStart_succ {text raw : Text} {line : Nat} (h : text.rawLines[line]? = some raw) :
    text.lineStart (line + 1) = text.lineStart line + raw.size + 1 := by
  simp [lineStart, List.take_add_one, h]

theorem lineStart_mono (text : Text) {line line' : Nat} (h : line ≤ line') :
    text.lineStart line ≤ text.lineStart line' := by
  induction h with
  | refl => exact Nat.le_refl _
  | @step line' _ ih =>
    refine Nat.le_trans ih ?_
    cases hraw : text.rawLines[line']? with
    | none =>
      have hlen := List.getElem?_eq_none_iff.mp hraw
      have hsame : text.lineStart (line' + 1) = text.lineStart line' := by
        rw [lineStart, lineStart, List.take_of_length_le hlen, List.take_of_length_le (by omega)]
      exact Nat.le_of_eq hsame.symm
    | some raw =>
      rw [lineStart_succ hraw]
      omega

theorem size_dropReturn_le (line : Text) : Text.size (dropReturn line) ≤ line.size := by
  unfold dropReturn
  split
  · rw [List.dropLast_eq_take]
    exact size_take_le line _
  · exact Nat.le_refl _

/-- Offsets keep the order of positions, also where columns are cut off. -/
theorem offset?_mono {text : Text} {p q : Position} {a b : Nat} (hpq : p ≤ q)
    (hp : text.offset? p = some a) (hq : text.offset? q = some b) : a ≤ b := by
  obtain ⟨raw, hraw, rfl⟩ := offset?_eq_some_iff.mp hp
  obtain ⟨raw', hraw', rfl⟩ := offset?_eq_some_iff.mp hq
  rcases (Position.le_iff p q).mp hpq with hline | ⟨hline, hcolumn⟩
  · -- the whole earlier line ends before the later one starts
    have hnext := lineStart_mono text (Nat.succ_le_of_lt hline)
    rw [Nat.succ_eq_add_one, lineStart_succ hraw] at hnext
    have htake := size_take_le (dropReturn raw) p.column
    have hdrop := size_dropReturn_le raw
    omega
  · rw [hline] at hraw ⊢
    rw [hraw, Option.some.injEq] at hraw'
    subst hraw'
    exact Nat.add_le_add_left (size_take_mono (dropReturn raw) hcolumn) _

/-! ## Selections -/

/-- The range of a selection runs forward. -/
theorem span?_ordered {text : Text} {s : Selection} {span : Span}
    (h : text.span? s = some span) : span.start ≤ span.stop := by
  unfold span? at h
  split at h
  · next start stop hstart hstop =>
    cases h
    exact offset?_mono s.start_le_stop hstart hstop
  · cases h

theorem exists_span? {text : Text} {s : Selection}
    (hstart : s.start.line < text.rawLines.length)
    (hstop : s.stop.line < text.rawLines.length) : ∃ span, text.span? s = some span := by
  obtain ⟨start, hstart⟩ := Option.isSome_iff_exists.mp (isSome_offset?_iff.mpr hstart)
  obtain ⟨stop, hstop⟩ := Option.isSome_iff_exists.mp (isSome_offset?_iff.mpr hstop)
  exact ⟨⟨start, stop⟩, by simp only [span?, hstart, hstop]⟩

/-- The selection of any byte range, inside the text or not, can be found again in the text. -/
theorem exists_span?_selection (text : Text) (range : Span) :
    ∃ span, text.span? (text.selection range) = some span := by
  have hstart := position_line_lt text range.start
  have hstop := position_line_lt text range.stop
  unfold selection Selection.between
  split
  · exact exists_span? hstop hstart
  · exact exists_span? hstart hstop

end Retouch.Text
