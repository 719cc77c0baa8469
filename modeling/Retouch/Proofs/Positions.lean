import Retouch.Proofs.Lines

/-!
# Positions of offsets and offsets of positions

The position of a cutting place depends only on the text before it, and its line is the part after
the last line feed there. From this it follows how positions and offsets undo each other.

- `position_mono`: positions keep the order of offsets.
- `position_size`: the position of a cutting place, read off the text before it.
- `exists_line`, `exists_column`: a line is a part of the text, and it starts at its offset; a
  position stands behind a beginning of its line.
- `isBoundary_of_offset?`: the offset of a position is a cutting place.
- `offset?_position`: the position of a cutting place leads back to it, unless it stands behind a
  carriage return that ends a line.
-/

namespace Retouch

/-! ## The order of positions -/

namespace Position

theorem le_refl (a : Position) : a ≤ a := by
  rw [le_iff]
  omega

theorem le_trans {a b c : Position} (hab : a ≤ b) (hbc : b ≤ c) : a ≤ c := by
  rw [le_iff] at hab hbc ⊢
  omega

theorem line_le {a b : Position} (h : a ≤ b) : a.line ≤ b.line := by
  rw [le_iff] at h
  omega

end Position

namespace Selection

theorem between_of_le {a b : Position} (h : a ≤ b) : between a b = ⟨a, b, h⟩ := by
  unfold between
  split
  · next hlt => exact absurd h ((Position.lt_iff_not_le b a).mp hlt)
  · rfl

/-- A selection lies inside another if it starts no earlier and stops no later. -/
theorem isInside_iff {s outer : Selection} :
    s.isInside outer = true ↔ outer.start ≤ s.start ∧ s.stop ≤ outer.stop := by
  simp only [isInside, contains, Bool.and_eq_true, decide_eq_true_eq]
  constructor
  · rintro ⟨⟨hstart, -⟩, -, hstop⟩
    exact ⟨hstart, hstop⟩
  · rintro ⟨hstart, hstop⟩
    exact ⟨⟨hstart, Position.le_trans s.start_le_stop hstop⟩,
      Position.le_trans hstart s.start_le_stop, hstop⟩

end Selection

namespace Text

/-! ## Positions of offsets -/

/-- The position after a character. -/
def advance (here : Position) (c : Char) : Position :=
  if c == '\n' then ⟨here.line + 1, 0⟩ else ⟨here.line, here.column + 1⟩

theorem le_advance (here : Position) (c : Char) : here ≤ advance here c := by
  rw [Position.le_iff, advance]
  split
  · exact .inl (Nat.lt_succ_self _)
  · exact .inr ⟨rfl, Nat.le_succ _⟩

theorem positionFrom_cons (c : Char) (rest : Text) (n : Nat) (here : Position) :
    positionFrom (c :: rest) n here =
      if c.utf8Size ≤ n then positionFrom rest (n - c.utf8Size) (advance here c) else here :=
  rfl

theorem le_positionFrom (text : Text) (n : Nat) (here : Position) :
    here ≤ positionFrom text n here := by
  induction text generalizing n here with
  | nil => exact Position.le_refl here
  | cons c rest ih =>
    rw [positionFrom_cons]
    split
    · exact Position.le_trans (le_advance here c) (ih _ _)
    · exact Position.le_refl here

theorem positionFrom_mono (text : Text) {m n : Nat} (h : m ≤ n) (here : Position) :
    positionFrom text m here ≤ positionFrom text n here := by
  induction text generalizing m n here with
  | nil => exact Position.le_refl here
  | cons c rest ih =>
    rw [positionFrom_cons, positionFrom_cons]
    by_cases hm : c.utf8Size ≤ m
    · rw [if_pos hm, if_pos (Nat.le_trans hm h)]
      exact ih (Nat.sub_le_sub_right h _) _
    · rw [if_neg hm]
      exact le_positionFrom (c :: rest) n here

/-- Positions keep the order of offsets, whether these cut characters or not. -/
theorem position_mono (text : Text) {m n : Nat} (h : m ≤ n) : text.position m ≤ text.position n :=
  positionFrom_mono text h ⟨0, 0⟩

theorem positionFrom_size (before after : Text) (here : Position) :
    positionFrom (before ++ after) before.size here = before.foldl advance here := by
  induction before generalizing here with
  | nil =>
    cases after with
    | nil => rfl
    | cons c rest =>
      have hpos := c.utf8Size_pos
      rw [List.nil_append, positionFrom_cons, size_nil, if_neg (Nat.not_le.mpr hpos)]
      rfl
  | cons c rest ih =>
    rw [List.cons_append, positionFrom_cons, size_cons, if_pos (Nat.le_add_right _ _),
      Nat.add_sub_cancel_left, ih]
    rfl

/-- Characters other than line feeds only move the column. -/
theorem foldl_advance_of_not_mem {line : Text} (h : '\n' ∉ line) (here : Position) :
    line.foldl advance here = ⟨here.line, here.column + line.length⟩ := by
  induction line generalizing here with
  | nil => rfl
  | cons c rest ih =>
    obtain ⟨hc, hrest⟩ : '\n' ≠ c ∧ '\n' ∉ rest := by simpa using h
    have hstep : advance here c = ⟨here.line, here.column + 1⟩ := by
      rw [advance, if_neg (by simpa using Ne.symm hc)]
    rw [List.foldl_cons, hstep, ih hrest, List.length_cons]
    simp only [Position.mk.injEq, true_and]
    omega

/-- The line of a position is the number of line feeds before it. -/
theorem foldl_advance_line (text : Text) (here : Position) :
    (text.foldl advance here).line = here.line + text.count '\n' := by
  induction text generalizing here with
  | nil => rfl
  | cons c rest ih =>
    rw [List.foldl_cons, ih, List.count_cons, advance]
    split
    · dsimp only
      omega
    · rfl

/-- The position of a cutting place on the line behind the last line feed before it, or on the first
line if there is none. -/
theorem position_size {above line : Text} (habove : above = [] ∨ above.getLast? = some '\n')
    (hline : '\n' ∉ line) (after : Text) :
    position (above ++ line ++ after) (above ++ line).size = ⟨above.count '\n', line.length⟩ := by
  rw [position, positionFrom_size, List.foldl_append, foldl_advance_of_not_mem hline,
    foldl_advance_line, Nat.zero_add]
  rcases habove with rfl | hlast
  · simp
  · -- the line feed has set the column back
    obtain ⟨init, rfl⟩ := List.getLast?_eq_some_iff.mp hlast
    simp [List.foldl_append, advance]

/-- The selection of a byte range starts and stops at the positions of its ends. -/
theorem selection_of_le (text : Text) {range : Span} (h : range.start ≤ range.stop) :
    text.selection range =
      ⟨text.position range.start, text.position range.stop, text.position_mono h⟩ :=
  Selection.between_of_le (text.position_mono h)

/-! ## Lines as parts of the text -/

theorem splitOnChar_of_not_mem {separator : Char} {text : Text} (h : separator ∉ text) :
    splitOnChar separator text = [text] := by
  induction text with
  | nil => rfl
  | cons c rest ih =>
    obtain ⟨hc, hrest⟩ : separator ≠ c ∧ separator ∉ rest := by simpa using h
    rw [splitOnChar, if_neg (by simpa using Ne.symm hc), ih hrest]

theorem splitOnChar_append_cons (separator : Char) (a b : Text) :
    splitOnChar separator (a ++ separator :: b)
      = splitOnChar separator a ++ splitOnChar separator b := by
  induction a with
  | nil => simp [splitOnChar]
  | cons c rest ih =>
    rw [List.cons_append, splitOnChar, splitOnChar, ih]
    split
    · rfl
    · have hpos := length_splitOnChar_pos separator rest
      cases hrest : splitOnChar separator rest with
      | nil => simp [hrest] at hpos
      | cons piece pieces => rfl

/-- Lines before and after a line feed are lines of the whole. -/
theorem rawLines_append_cons (a b : Text) :
    rawLines (a ++ '\n' :: b) = rawLines a ++ rawLines b :=
  splitOnChar_append_cons '\n' a b

theorem length_rawLines (text : Text) : (rawLines text).length = text.count '\n' + 1 := by
  induction text with
  | nil => rfl
  | cons c rest ih =>
    rw [length_rawLines_cons, ih, List.count_cons]
    split
    · rfl
    · rfl

/-- The sizes of lines add up from any start. -/
theorem foldl_lineSize (lines : List Text) (n : Nat) :
    lines.foldl (fun start raw => start + Text.size raw + 1) n
      = n + lines.foldl (fun start raw => start + Text.size raw + 1) 0 := by
  induction lines generalizing n with
  | nil => rfl
  | cons raw rest ih =>
    rw [List.foldl_cons, List.foldl_cons, ih, ih (0 + raw.size + 1)]
    omega

/-- Every text is one line, or it has a first line and more after it. -/
theorem first_line (text : Text) :
    ('\n' ∉ text ∧ text.rawLines = [text]) ∨
      ∃ line rest, '\n' ∉ line ∧ text = line ++ '\n' :: rest ∧
        text.rawLines = line :: rawLines rest := by
  by_cases h : '\n' ∈ text
  · obtain ⟨line, rest, rfl, hline⟩ := List.eq_append_cons_of_mem h
    refine .inr ⟨line, rest, hline, rfl, ?_⟩
    rw [rawLines_append_cons]
    exact congrArg (· ++ rawLines rest) (splitOnChar_of_not_mem hline)
  · exact .inl ⟨h, splitOnChar_of_not_mem h⟩

/-- A line stands in the text at the offset where it starts, behind as many whole lines as its
number says. -/
theorem exists_line {text raw : Text} {line : Nat} (h : text.rawLines[line]? = some raw) :
    ∃ above below, text = above ++ raw ++ below ∧ above.size = text.lineStart line ∧
      (above = [] ∨ above.getLast? = some '\n') ∧ above.count '\n' = line ∧ '\n' ∉ raw := by
  induction line generalizing text with
  | zero =>
    rcases first_line text with ⟨hraw, hlines⟩ | ⟨first, rest, hraw, rfl, hlines⟩
    · rw [hlines] at h
      cases h
      exact ⟨[], [], by simp, rfl, .inl rfl, rfl, hraw⟩
    · rw [hlines] at h
      cases h
      exact ⟨[], '\n' :: rest, by simp, rfl, .inl rfl, rfl, hraw⟩
  | succ line ih =>
    rcases first_line text with ⟨-, hlines⟩ | ⟨first, rest, hfirst, rfl, hlines⟩
    · rw [hlines] at h
      simp at h
    · rw [hlines, List.getElem?_cons_succ] at h
      obtain ⟨above, below, hrest, hsize, habove, hcount, hraw⟩ := ih h
      refine ⟨first ++ '\n' :: above, below, by simp [← hrest], ?_, .inr ?_, ?_, hraw⟩
      · have hfeed : ('\n' : Char).utf8Size = 1 := by decide
        rw [lineStart, hlines, List.take_succ_cons, List.foldl_cons, foldl_lineSize, size_append,
          size_cons, hsize, lineStart, hfeed]
        omega
      · rcases habove with rfl | hlast
        · simp
        · simp [List.getLast?_cons, hlast]
      · rw [List.count_append, List.count_eq_zero_of_not_mem hfirst, List.count_cons_self, hcount,
          Nat.zero_add]

theorem dropReturn_eq (raw : Text) : dropReturn raw = raw ∨ raw = dropReturn raw ++ ['\r'] := by
  unfold dropReturn
  split
  · next h =>
    obtain ⟨init, rfl⟩ := List.getLast?_eq_some_iff.mp (beq_iff_eq.mp h)
    exact .inr (by simp)
  · exact .inl rfl

/-- A position stands in the text behind whole lines, as many as its line says, and behind as much
of the line as its column says. -/
theorem exists_column {text line : Text} {p : Position} (h : text.lineText? p.line = some line) :
    ∃ above after, text = above ++ line.take p.column ++ after ∧
      text.offset? p = some (above ++ line.take p.column).size ∧
      (above = [] ∨ above.getLast? = some '\n') ∧ above.count '\n' = p.line ∧
      '\n' ∉ line.take p.column := by
  obtain ⟨raw, hraw, rfl⟩ := Option.map_eq_some_iff.mp h
  obtain ⟨above, below, htext, hsize, habove, hcount, hfeed⟩ := exists_line hraw
  -- what is left of the line when it is cut off at the column is a beginning of the line
  obtain ⟨rest, hrest⟩ : ∃ rest, raw = (dropReturn raw).take p.column ++ rest := by
    rcases dropReturn_eq raw with heq | heq
    · exact ⟨raw.drop p.column, by rw [heq, List.take_append_drop]⟩
    · exact ⟨(dropReturn raw).drop p.column ++ ['\r'], by
        rw [← List.append_assoc, List.take_append_drop, ← heq]⟩
  refine ⟨above, rest ++ below, ?_, ?_, habove, hcount, fun hmem => hfeed ?_⟩
  · rw [List.append_assoc, ← List.append_assoc _ rest, ← hrest, ← List.append_assoc, ← htext]
  · rw [offset?, h, size_append, hsize]
    rfl
  · rw [hrest]
    exact List.mem_append_left rest hmem

theorem exists_lineText? {text : Text} {p : Position} {n : Nat} (h : text.offset? p = some n) :
    ∃ line, text.lineText? p.line = some line := by
  obtain ⟨raw, hraw, -⟩ := offset?_eq_some_iff.mp h
  exact ⟨dropReturn raw, by rw [lineText?, hraw]; rfl⟩

/-- The offset of a position is a cutting place. -/
theorem isBoundary_of_offset? {text : Text} {p : Position} {n : Nat}
    (h : text.offset? p = some n) : text.isBoundary n = true := by
  obtain ⟨line, hline⟩ := exists_lineText? h
  obtain ⟨above, after, htext, hoffset, -⟩ := exists_column hline
  rw [h] at hoffset
  exact isBoundary_iff.mpr ⟨_, after, htext, (Option.some.inj hoffset).symm⟩

/-! ## There and back -/

/-- Every text divides into whole lines and the beginning of another. -/
theorem exists_last_line (text : Text) :
    ∃ above line, text = above ++ line ∧ (above = [] ∨ above.getLast? = some '\n') ∧
      '\n' ∉ line := by
  induction text with
  | nil => exact ⟨[], [], rfl, .inl rfl, List.not_mem_nil⟩
  | cons c rest ih =>
    obtain ⟨above, line, rfl, habove, hline⟩ := ih
    rcases habove with rfl | hlast
    · by_cases hc : c = '\n'
      · exact ⟨[c], line, rfl, .inr (by simp [hc]), hline⟩
      · exact ⟨[], c :: line, rfl, .inl rfl, by simpa using ⟨Ne.symm hc, hline⟩⟩
    · exact ⟨c :: above, line, rfl, .inr (by simp [List.getLast?_cons, hlast]), hline⟩

theorem takeWhile_append_of_not_mem {line : Text} (h : '\n' ∉ line) (after : Text) :
    (line ++ after).takeWhile (· != '\n') = line ++ after.takeWhile (· != '\n') := by
  refine List.takeWhile_append_of_pos fun c hc => ?_
  have hne : c ≠ '\n' := fun heq => h (heq ▸ hc)
  simpa using hne

theorem rawLines_zero (text : Text) :
    text.rawLines[0]? = some (text.takeWhile (· != '\n')) := by
  rcases first_line text with ⟨hnone, hlines⟩ | ⟨line, rest, hline, rfl, hlines⟩
  · have htake := takeWhile_append_of_not_mem hnone []
    rw [List.append_nil] at htake
    rw [hlines, htake]
    simp
  · rw [hlines, takeWhile_append_of_not_mem hline]
    simp

/-- The lines of a text, with one byte more for the end of each, are as long as the text and one
byte more. -/
theorem foldl_rawLines (text : Text) :
    text.rawLines.foldl (fun start raw => start + Text.size raw + 1) 0 = text.size + 1 := by
  induction text with
  | nil => rfl
  | cons c rest ih =>
    rw [rawLines, splitOnChar]
    rw [rawLines] at ih
    split
    · next hc =>
      have hfeed : c.utf8Size = 1 := by rw [beq_iff_eq.mp hc]; decide
      rw [List.foldl_cons, foldl_lineSize, ih, size_cons, hfeed]
      simp
      omega
    · cases hrest : splitOnChar '\n' rest with
      | nil => simp [hrest] at ih
      | cons piece pieces =>
        rw [hrest, List.foldl_cons, foldl_lineSize] at ih
        dsimp only
        rw [List.foldl_cons, foldl_lineSize, size_cons, size_cons]
        omega

/-- The line that holds a cutting place, and where it starts. -/
theorem rawLines_getElem? {above line : Text} (habove : above = [] ∨ above.getLast? = some '\n')
    (hline : '\n' ∉ line) (after : Text) :
    (rawLines (above ++ line ++ after))[above.count '\n']?
        = some (line ++ after.takeWhile (· != '\n')) ∧
      lineStart (above ++ line ++ after) (above.count '\n') = above.size := by
  have hfirst : (rawLines (line ++ after))[0]? = some (line ++ after.takeWhile (· != '\n')) := by
    rw [rawLines_zero, takeWhile_append_of_not_mem hline]
  rcases habove with rfl | hlast
  · exact ⟨hfirst, rfl⟩
  · obtain ⟨init, rfl⟩ := List.getLast?_eq_some_iff.mp hlast
    have htext : init ++ ['\n'] ++ line ++ after = init ++ '\n' :: (line ++ after) := by simp
    have hindex : (init ++ ['\n']).count '\n' = (rawLines init).length := by
      rw [length_rawLines]
      simp
    have hfeed : ('\n' : Char).utf8Size = 1 := by decide
    rw [htext, hindex, lineStart, rawLines_append_cons]
    refine ⟨by rw [List.getElem?_append_right (Nat.le_refl _), Nat.sub_self, hfirst], ?_⟩
    rw [List.take_left, foldl_rawLines]
    simp [hfeed]

theorem takeWhile_eq_nil {after : Text} (h : after.takeWhile (· != '\n') = []) :
    after = [] ∨ after.head? = some '\n' := by
  cases after with
  | nil => exact .inl rfl
  | cons c rest =>
    by_cases hc : c = '\n'
    · exact .inr (by simp [hc])
    · simp [hc] at h

/-- Whether a cutting place stands behind a carriage return that ends a line. -/
def IsBehindReturn (before after : Text) : Prop :=
  before.getLast? = some '\r' ∧ (after = [] ∨ after.head? = some '\n')

/-- **There and back.** The position of a cutting place leads back to it, unless it stands behind a
carriage return that ends a line; the carriage return is no part of its line. -/
theorem offset?_position {before after : Text} (h : ¬ IsBehindReturn before after) :
    offset? (before ++ after) (position (before ++ after) before.size) = some before.size := by
  obtain ⟨above, line, rfl, habove, hline⟩ := exists_last_line before
  obtain ⟨hraw, hstart⟩ := rawLines_getElem? habove hline after
  rw [position_size habove hline]
  refine offset?_eq_some_iff.mpr ⟨_, hraw, ?_⟩
  have htake : (dropReturn (line ++ after.takeWhile (· != '\n'))).take line.length = line := by
    rcases dropReturn_eq (line ++ after.takeWhile (· != '\n')) with heq | heq
    · rw [heq, List.take_left]
    · -- a carriage return is dropped: it stands behind the place, or right before it
      rcases List.eq_nil_or_concat (after.takeWhile (· != '\n')) with hnil | ⟨init, c, hsplit⟩
      · rw [hnil, List.append_nil] at heq
        refine absurd ⟨?_, takeWhile_eq_nil hnil⟩ h
        rw [heq, ← List.append_assoc]
        exact List.getLast?_concat
      · rw [hsplit, List.concat_eq_append, ← List.append_assoc] at heq ⊢
        rw [← (List.append_inj' heq rfl).1, List.take_left]
  rw [hstart, htake, size_append]

end Text

end Retouch
