import Mathlib.Data.List.DropRight
import Retouch.Proofs.Indenting

/-!
# Re-indented lines

Re-indenting is told line by line: every line but the first loses at most the old indentation and
gains the new one.

- `Text.ofLines`: the text with given lines; it undoes `Text.rawLines` (`Text.ofLines_rawLines`,
  `Text.rawLines_ofLines`).
- `rawLines_reindent`: the lines of a re-indented text.
- `parts_reindentLine`: the indentation of a line and what stands behind it, after re-indenting.
- `reindent_shifts_lines`: what re-indenting keeps and how it is undone.
-/

namespace Retouch

/-! ## Texts from their lines -/

namespace Text

/-- The text with given lines. -/
def ofLines : List Text → Text
  | [] => []
  | first :: rest => first ++ rest.flatMap fun line => '\n' :: line

theorem ofLines_cons_cons (first second : Text) (rest : List Text) :
    ofLines (first :: second :: rest) = first ++ '\n' :: ofLines (second :: rest) := rfl

/-- Every text is made up of its lines. -/
theorem ofLines_rawLines (text : Text) : ofLines text.rawLines = text := by
  unfold rawLines
  induction text with
  | nil => rfl
  | cons c rest ih =>
    have hpos := length_splitOnChar_pos '\n' rest
    rw [splitOnChar]
    cases hsplit : splitOnChar '\n' rest with
    | nil => simp [hsplit] at hpos
    | cons line lines =>
      rw [hsplit] at ih
      by_cases hc : (c == '\n') = true
      · rw [if_pos hc, ofLines_cons_cons, ih, eq_of_beq hc]
        rfl
      · rw [if_neg hc]
        exact congrArg (c :: ·) ih

/-- Lines that hold no line feed are the lines of their text. -/
theorem rawLines_ofLines {first : Text} {rest : List Text} (hfirst : '\n' ∉ first)
    (hrest : ∀ line ∈ rest, '\n' ∉ line) : (ofLines (first :: rest)).rawLines = first :: rest := by
  induction rest generalizing first with
  | nil =>
    show rawLines (first ++ []) = [first]
    rw [List.append_nil]
    exact splitOnChar_of_not_mem hfirst
  | cons second rest ih =>
    obtain ⟨hsecond, hrest⟩ := List.forall_mem_cons.mp hrest
    rw [ofLines_cons_cons, rawLines_append_cons, ih hsecond hrest]
    exact congrArg (· ++ second :: rest) (splitOnChar_of_not_mem hfirst)

theorem not_mem_of_mem_rawLines {text line : Text} (h : line ∈ text.rawLines) : '\n' ∉ line := by
  obtain ⟨i, hi⟩ := List.mem_iff_getElem?.mp h
  obtain ⟨_, _, _, _, _, _, hline⟩ := exists_line hi
  exact hline

/-- The lines of a text: a first one, and others. -/
theorem exists_rawLines (text : Text) : ∃ first rest, text.rawLines = first :: rest := by
  rcases first_line text with ⟨-, hlines⟩ | ⟨line, rest, -, -, hlines⟩
  · exact ⟨_, _, hlines⟩
  · exact ⟨_, _, hlines⟩

end Text

open Text (isIndent isBlank)

variable {text old new line : Text}

/-! ## One line -/

theorem utf8Size_of_isIndent {c : Char} (hc : isIndent c = true) : c.utf8Size = 1 := by
  rcases Bool.or_eq_true_iff.mp hc with hc | hc
  · rw [beq_iff_eq.mp hc]
    rfl
  · rw [beq_iff_eq.mp hc]
    rfl

/-- Indentation has as many bytes as characters. -/
theorem size_of_isIndent (h : ∀ c ∈ old, isIndent c = true) : Text.size old = old.length := by
  induction old with
  | nil => rfl
  | cons c old ih =>
    obtain ⟨hc, hold⟩ := List.forall_mem_cons.mp h
    rw [Text.size_cons, utf8Size_of_isIndent hc, ih hold, List.length_cons, Nat.add_comm]

theorem not_mem_of_isIndent (h : ∀ c ∈ new, isIndent c = true) : '\n' ∉ new := by
  intro hmem
  exact absurd (h _ hmem) (by decide)

/-- A line that is not blank: its indentation loses what the old one is long and has the new one put
before it. -/
theorem reindentLine_eq (hold : ∀ c ∈ old, isIndent c = true) (hline : isBlank line = false) :
    reindentLine old new line =
      new ++ (line.takeWhile isIndent).drop (min old.length (line.takeWhile isIndent).length) ++
        line.dropWhile isIndent := by
  have hdrop := @List.drop_append_of_le_length _ (line.takeWhile isIndent)
    (line.dropWhile isIndent) _ (Nat.min_le_left _ (Text.size old))
  rw [List.takeWhile_append_dropWhile, ← lostIndent] at hdrop
  rw [reindentLine_of_not_isBlank hline, hdrop, lostIndent, size_of_isIndent hold, Nat.min_comm,
    List.append_assoc]

/-- Indentation put before what stands behind the indentation of a line. -/
theorem takeWhile_append_dropWhile_of_isIndent {indent : Text}
    (h : ∀ c ∈ indent, isIndent c = true) (line : Text) :
    (indent ++ line.dropWhile isIndent).takeWhile isIndent = indent ∧
      (indent ++ line.dropWhile isIndent).dropWhile isIndent = line.dropWhile isIndent := by
  have hdrop : (line.dropWhile isIndent).dropWhile isIndent = line.dropWhile isIndent :=
    List.dropWhile_idempotent isIndent line
  have htake : (line.dropWhile isIndent).takeWhile isIndent = [] := by
    have hsplit := List.takeWhile_append_dropWhile (p := isIndent) (l := line.dropWhile isIndent)
    rw [hdrop] at hsplit
    exact List.append_left_eq_self.mp hsplit
  rw [List.takeWhile_append_of_pos h, List.dropWhile_append_of_pos h, htake, hdrop,
    List.append_nil]
  exact ⟨rfl, rfl⟩

/-- What becomes of the indentation of a line, and of what stands behind it. -/
theorem parts_reindentLine (hold : ∀ c ∈ old, isIndent c = true)
    (hnew : ∀ c ∈ new, isIndent c = true) (hline : isBlank line = false) :
    (reindentLine old new line).takeWhile isIndent =
        new ++ (line.takeWhile isIndent).drop (min old.length (line.takeWhile isIndent).length) ∧
      (reindentLine old new line).dropWhile isIndent = line.dropWhile isIndent := by
  rw [reindentLine_eq hold hline]
  refine takeWhile_append_dropWhile_of_isIndent (fun c hc => ?_) line
  rcases List.mem_append.mp hc with hc | hc
  · exact hnew c hc
  · exact List.all_eq_true.mp List.all_takeWhile c (List.mem_of_mem_drop hc)

theorem isBlank_append_of_isIndent (h : ∀ c ∈ old, isIndent c = true) (rest : Text) :
    isBlank (old ++ rest) = isBlank rest := by
  have hblank : isBlank old = true :=
    List.all_eq_true.mpr fun c hc => isSpace_of_isLineSpace (isLineSpace_of_isIndent (h c hc))
  rw [isBlank, List.all_append, ← isBlank, hblank, Bool.true_and, isBlank]

/-- The old indentation is exchanged for the new one. -/
theorem reindentLine_append (hold : ∀ c ∈ old, isIndent c = true) {rest : Text}
    (hrest : isBlank rest = false) (new : Text) :
    reindentLine old new (old ++ rest) = new ++ rest := by
  have hlength : min old.length (old ++ rest.takeWhile isIndent).length = old.length := by
    rw [List.length_append]
    omega
  rw [reindentLine_eq hold (by rwa [isBlank_append_of_isIndent hold]),
    List.takeWhile_append_of_pos hold, List.dropWhile_append_of_pos hold, hlength, List.drop_left,
    List.append_assoc, List.takeWhile_append_dropWhile]

/-- A line that has the old indentation, or is empty, can be moved back. -/
theorem reindentLine_reindentLine (hold : ∀ c ∈ old, isIndent c = true)
    (hnew : ∀ c ∈ new, isIndent c = true) (h : line = [] ∨ old <+: line ∧ isBlank line = false) :
    reindentLine new old (reindentLine old new line) = line := by
  rcases h with rfl | ⟨⟨rest, rfl⟩, hline⟩
  · rfl
  · rw [isBlank_append_of_isIndent hold] at hline
    rw [reindentLine_append hold hline, reindentLine_append hnew hline]

/-! ## All lines -/

theorem not_mem_reindentLine (hnew : ∀ c ∈ new, isIndent c = true) (hline : '\n' ∉ line) :
    '\n' ∉ reindentLine old new line := by
  rw [reindentLine]
  split
  · exact List.not_mem_nil
  · rw [List.mem_append, not_or]
    exact ⟨not_mem_of_isIndent hnew, fun h => hline (List.mem_of_mem_drop h)⟩

theorem reindent_eq_ofLines (hne : old ≠ new) {first : Text} {rest : List Text}
    (hlines : text.rawLines = first :: rest) :
    reindent text old new = Text.ofLines (first :: rest.map (reindentLine old new)) := by
  rw [reindent, if_neg (by simpa using hne), hlines, Text.ofLines, List.flatMap_map]

/-- The lines of a re-indented text: the first one is kept, the others are moved one by one. -/
theorem rawLines_reindent (hne : old ≠ new) (hnew : ∀ c ∈ new, isIndent c = true) {first : Text}
    {rest : List Text} (hlines : text.rawLines = first :: rest) :
    (reindent text old new).rawLines = first :: rest.map (reindentLine old new) := by
  have hline {line : Text} (h : line ∈ first :: rest) : '\n' ∉ line :=
    Text.not_mem_of_mem_rawLines (hlines ▸ h)
  rw [reindent_eq_ofLines hne hlines]
  refine Text.rawLines_ofLines (hline List.mem_cons_self) fun moved hmoved => ?_
  obtain ⟨line, hmem, rfl⟩ := List.mem_map.mp hmoved
  exact not_mem_reindentLine hnew (hline (List.mem_cons_of_mem first hmem))

/-- **Re-indenting keeps the content of lines and can be undone.** There are as many line feeds as
before, and the first line is the same. A later line that is blank becomes empty. Any other one
keeps what stands behind its indentation, and the indentation becomes the new one followed by what
is left of it without as many characters as the old one has, or without all of them if there are
fewer. If each later line has the old indentation and is not blank, or is empty, then re-indenting
the other way round gives back the text. -/
theorem reindent_shifts_lines (hold : ∀ c ∈ old, isIndent c = true)
    (hnew : ∀ c ∈ new, isIndent c = true) (hne : old ≠ new) (text : Text) :
    (reindent text old new).count '\n' = text.count '\n' ∧
    (reindent text old new).rawLines.head? = text.rawLines.head? ∧
    (∀ i line, text.rawLines[i + 1]? = some line →
      ∃ moved, (reindent text old new).rawLines[i + 1]? = some moved ∧
        (isBlank line = true → moved = []) ∧
        (isBlank line = false →
          moved.dropWhile isIndent = line.dropWhile isIndent ∧
          moved.takeWhile isIndent = new ++ (line.takeWhile isIndent).drop
            (min old.length (line.takeWhile isIndent).length))) ∧
    ((∀ line ∈ text.rawLines.tail, line = [] ∨ old <+: line ∧ isBlank line = false) →
      reindent (reindent text old new) new old = text) := by
  obtain ⟨first, rest, hlines⟩ := Text.exists_rawLines text
  have hmoved := rawLines_reindent hne hnew hlines
  refine ⟨?_, by rw [hmoved, hlines]; rfl, fun i line hline => ?_, fun h => ?_⟩
  · have hlength := congrArg List.length hmoved
    rw [List.length_cons, List.length_map, ← List.length_cons, ← hlines, Text.length_rawLines,
      Text.length_rawLines] at hlength
    exact Nat.succ.inj hlength
  · rw [hlines, List.getElem?_cons_succ] at hline
    refine ⟨reindentLine old new line, ?_, fun hblank => ?_, fun hblank => ?_⟩
    · rw [hmoved, List.getElem?_cons_succ, List.getElem?_map, hline, Option.map_some]
    · rw [reindentLine, if_pos hblank]
    · exact (parts_reindentLine hold hnew hblank).symm
  · rw [hlines] at h
    have hback : (rest.map (reindentLine old new)).map (reindentLine new old) = rest := by
      rw [List.map_map]
      refine (List.map_congr_left fun line hline => ?_).trans (List.map_id rest)
      exact reindentLine_reindentLine hold hnew (h line hline)
    rw [reindent_eq_ofLines hne.symm hmoved, hback, ← hlines, Text.ofLines_rawLines]

/-- From two spaces to a tab and back. The third line is empty, and the last one is indented further
than the others. -/
theorem reindent_shifts_lines_tab :
    (∀ c ∈ "  ".toList, isIndent c = true) ∧ (∀ c ∈ "\t".toList, isIndent c = true) ∧
      "  ".toList ≠ "\t".toList ∧
      reindent "x(\n  y,\r\n\n   z)".toList "  ".toList "\t".toList =
        "x(\n\ty,\r\n\n\t z)".toList ∧
      reindent "x(\n\ty,\r\n\n\t z)".toList "\t".toList "  ".toList =
        "x(\n  y,\r\n\n   z)".toList := by
  have hold : ∀ c ∈ "  ".toList, isIndent c = true := List.all_eq_true.mp rfl
  have hnew : ∀ c ∈ "\t".toList, isIndent c = true := List.all_eq_true.mp rfl
  have hne : "  ".toList ≠ "\t".toList := by decide
  have hmoved : reindent "x(\n  y,\r\n\n   z)".toList "  ".toList "\t".toList =
      "x(\n\ty,\r\n\n\t z)".toList := by decide
  obtain ⟨-, -, -, hback⟩ := reindent_shifts_lines hold hnew hne "x(\n  y,\r\n\n   z)".toList
  rw [hmoved] at hback
  exact ⟨hold, hnew, hne, hmoved, hback (by decide)⟩

end Retouch
