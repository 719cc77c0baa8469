import Retouch.Proofs.Positions
import Retouch.Text.Indentation

/-!
# Moving a snippet to another indentation

Re-indenting changes nothing but the white space behind line feeds. It does so line by line, and
what it makes of a line depends on the whole line: a blank one is emptied.

- `Moved`: two texts that differ only in the white space at the start of lines.
- `moved_reindent`: a text and what re-indenting makes of it are two such texts.
- `reindentBefore`: what re-indenting makes of a piece of text that more than white space follows.
- `reindent_append_cons`, `reindent_append_of_suffix`: the pieces of a text are moved one by one.
-/

namespace Retouch

open Text (isSpace isIndent isBlank)

/-! ## Texts that differ at the start of lines -/

/-- White space within a line. -/
def isLineSpace (c : Char) : Bool := isSpace c && c != '\n'

theorem isLineSpace_of_isSpace {c : Char} (hc : isSpace c = true) (hne : c ≠ '\n') :
    isLineSpace c = true := by
  rw [isLineSpace, hc, Bool.true_and, bne_iff_ne]
  exact hne

theorem isLineSpace_of_isIndent {c : Char} (hc : isIndent c = true) : isLineSpace c = true := by
  rcases Bool.or_eq_true_iff.mp hc with h | h
  · rw [eq_of_beq h]
    decide
  · rw [eq_of_beq h]
    decide

theorem isSpace_of_isLineSpace {c : Char} (hc : isLineSpace c = true) : isSpace c = true :=
  (Bool.and_eq_true_iff.mp hc).1

/-- Two texts that differ only in the white space at the start of lines. Where a line has just
started, which the flag says, white space may be dropped and indentation may be added. -/
inductive Moved : Bool → Text → Text → Prop where
  | nil (b : Bool) : Moved b [] []
  | keep {b : Bool} {c : Char} {x y : Text} (hc : c ≠ '\n') (h : Moved false x y) :
      Moved b (c :: x) (c :: y)
  | newline {b : Bool} {x y : Text} (h : Moved true x y) : Moved b ('\n' :: x) ('\n' :: y)
  | drop {c : Char} {x y : Text} (hc : isLineSpace c = true) (h : Moved true x y) :
      Moved true (c :: x) y
  | add {c : Char} {x y : Text} (hc : isIndent c = true) (h : Moved true x y) :
      Moved true x (c :: y)

namespace Moved

variable {b : Bool} {c : Char} {x y : Text}

theorem start (h : Moved false x y) : Moved true x y := by
  cases h with
  | nil => exact .nil true
  | keep hc h => exact .keep hc h
  | newline h => exact .newline h

theorem drops {p : Text} (hp : ∀ c ∈ p, isLineSpace c = true) (h : Moved true x y) :
    Moved true (p ++ x) y := by
  induction p with
  | nil => exact h
  | cons c p ih =>
    exact .drop (hp c List.mem_cons_self) (ih fun d hd => hp d (List.mem_cons_of_mem c hd))

theorem adds {q : Text} (hq : ∀ c ∈ q, isIndent c = true) (h : Moved true x y) :
    Moved true x (q ++ y) := by
  induction q with
  | nil => exact h
  | cons c q ih =>
    exact .add (hq c List.mem_cons_self) (ih fun d hd => hq d (List.mem_cons_of_mem c hd))

/-- What becomes of the first character: it is kept behind added indentation, or dropped. -/
theorem exists_of_cons (h : Moved b (c :: x) y) :
    ∃ q t, y = q ++ t ∧ (∀ d ∈ q, isIndent d = true) ∧ (b = false → q = []) ∧
      ((∃ t', t = c :: t' ∧ Moved (c == '\n') x t') ∨
        b = true ∧ isLineSpace c = true ∧ Moved true x t) := by
  generalize htext : c :: x = text at h
  induction h with
  | nil => cases htext
  | keep hc h =>
    cases htext
    refine ⟨[], _, rfl, nofun, fun _ => rfl, .inl ⟨_, rfl, ?_⟩⟩
    rwa [beq_eq_false_iff_ne.mpr hc]
  | newline h =>
    cases htext
    exact ⟨[], _, rfl, nofun, fun _ => rfl, .inl ⟨_, rfl, h⟩⟩
  | drop hc h =>
    cases htext
    exact ⟨[], _, rfl, nofun, fun _ => rfl, .inr ⟨rfl, hc, h⟩⟩
  | @add d _ _ hd _ ih =>
    obtain ⟨q, t, rfl, hq, -, ht⟩ := ih htext
    refine ⟨d :: q, t, rfl, ?_, nofun, ht⟩
    intro d' hd'
    rcases List.mem_cons.mp hd' with rfl | hd'
    · exact hd
    · exact hq d' hd'

/-- Within a line, the first character is kept. -/
theorem exists_cons (h : Moved false (c :: x) y) : ∃ t, y = c :: t ∧ Moved (c == '\n') x t := by
  obtain ⟨q, t, rfl, -, hq, ht⟩ := h.exists_of_cons
  rw [hq rfl]
  rcases ht with ht | ⟨hb, -⟩
  · exact ht
  · cases hb

/-- Text without a line feed is kept. -/
theorem exists_append {w : Text} (h : Moved false (w ++ x) y) (hw : '\n' ∉ w) :
    ∃ t, y = w ++ t ∧ Moved false x t := by
  induction w generalizing y with
  | nil => exact ⟨y, rfl, h⟩
  | cons c w ih =>
    obtain ⟨hc, hw⟩ : '\n' ≠ c ∧ '\n' ∉ w := by simpa using hw
    obtain ⟨t, rfl, ht⟩ := h.exists_cons
    rw [beq_eq_false_iff_ne.mpr (Ne.symm hc)] at ht
    obtain ⟨rest, rfl, hrest⟩ := ih ht hw
    exact ⟨rest, rfl, hrest⟩

theorem exists_nil (h : Moved b [] y) : (∀ d ∈ y, isIndent d = true) ∧ (b = false → y = []) := by
  generalize htext : ([] : Text) = text at h
  induction h with
  | nil => exact ⟨nofun, fun _ => rfl⟩
  | keep | newline | drop => cases htext
  | add hc _ ih =>
    refine ⟨fun d hd => ?_, nofun⟩
    rcases List.mem_cons.mp hd with rfl | hd
    · exact hc
    · exact (ih htext).1 d hd

theorem eq_nil (h : Moved false [] y) : y = [] := h.exists_nil.2 rfl

theorem head?_eq (h : Moved false x y) : y.head? = x.head? := by
  cases h with
  | nil | keep | newline => rfl

/-- Line feeds stay. -/
theorem newline_mem_iff (h : Moved b x y) : '\n' ∈ y ↔ '\n' ∈ x := by
  induction h with
  | nil => exact Iff.rfl
  | keep hc _ ih => rw [List.mem_cons, List.mem_cons, ih]
  | newline => simp
  | drop hc _ ih =>
    rw [List.mem_cons, ih, or_iff_right]
    rintro rfl
    exact absurd hc (by decide)
  | add hc _ ih =>
    rw [List.mem_cons, ih, or_iff_right]
    rintro rfl
    exact absurd hc (by decide)

/-- A text without a line feed is not changed. -/
theorem eq_of_not_mem (h : Moved false x y) (hx : '\n' ∉ x) : y = x := by
  rw [← List.append_nil x] at h
  obtain ⟨t, rfl, ht⟩ := h.exists_append hx
  rw [ht.eq_nil, List.append_nil]

/-- What stands at the start of the first line stood there before. -/
theorem prefix_of_prefix {o : Text} (h : Moved false x y) (ho : '\n' ∉ o) (hy : o <+: y) :
    o <+: x := by
  induction o generalizing x y with
  | nil => exact List.nil_prefix
  | cons c o ih =>
    obtain ⟨hc, ho⟩ : '\n' ≠ c ∧ '\n' ∉ o := by simpa using ho
    obtain ⟨rest, rfl⟩ := hy
    cases h with
    | keep _ h => exact List.cons_prefix_cons.mpr ⟨rfl, ih h ho (List.prefix_append o rest)⟩
    | newline => exact absurd rfl hc

/-- The two halves of a sign do not come together. -/
theorem infix_of_infix {d e : Char} (h : Moved b x y) (hd : isSpace d = false)
    (hy : [d, e] <:+: y) : [d, e] <:+: x := by
  have hnewline : d ≠ '\n' := by
    rintro rfl
    cases hd
  induction h with
  | nil => exact hy
  | @keep _ c x y hc h ih =>
    rcases List.infix_cons_iff.mp hy with hy | hy
    · -- the second half is the next character, which is the same in both texts
      obtain ⟨rfl, rest, rfl⟩ := List.cons_prefix_cons.mp hy
      cases h with
      | keep | newline => exact (List.prefix_append [d, _] _).isInfix
    · exact List.infix_cons (ih hy)
  | newline _ ih =>
    rcases List.infix_cons_iff.mp hy with hy | hy
    · exact absurd (List.cons_prefix_cons.mp hy).1 hnewline
    · exact List.infix_cons (ih hy)
  | drop _ _ ih => exact List.infix_cons (ih hy)
  | add hc _ ih =>
    rcases List.infix_cons_iff.mp hy with hy | hy
    · rw [(List.cons_prefix_cons.mp hy).1,
        isSpace_of_isLineSpace (isLineSpace_of_isIndent hc)] at hd
      cases hd
    · exact ih hy

/-- A text is cut before a character that is no white space. -/
theorem exists_append_cons {u v : Text} (h : Moved b (u ++ c :: v) y) (hc : isSpace c = false) :
    ∃ u' v', y = u' ++ c :: v' ∧ Moved b u u' ∧ Moved false v v' := by
  have hspace : isLineSpace c = false := by rw [isLineSpace, hc, Bool.false_and]
  have hnewline : (c == '\n') = false := by
    rw [beq_eq_false_iff_ne]
    rintro rfl
    cases hc
  generalize htext : u ++ c :: v = text at h
  induction h generalizing u with
  | nil => cases u <;> cases htext
  | @keep b d x y hd h ih =>
    cases u with
    | nil =>
      cases htext
      exact ⟨[], y, rfl, .nil b, h⟩
    | cons _ u =>
      cases htext
      obtain ⟨u', v', rfl, hu, hv⟩ := ih rfl
      exact ⟨d :: u', v', rfl, .keep hd hu, hv⟩
  | @newline b x y h ih =>
    cases u with
    | nil =>
      cases htext
      cases hnewline
    | cons _ u =>
      cases htext
      obtain ⟨u', v', rfl, hu, hv⟩ := ih rfl
      exact ⟨'\n' :: u', v', rfl, .newline hu, hv⟩
  | @drop d x y hd h ih =>
    cases u with
    | nil =>
      cases htext
      cases hspace.symm.trans hd
    | cons _ u =>
      cases htext
      obtain ⟨u', v', rfl, hu, hv⟩ := ih rfl
      exact ⟨u', v', rfl, .drop hd hu, hv⟩
  | @add d x y hd h ih =>
    obtain ⟨u', v', rfl, hu, hv⟩ := ih htext
    exact ⟨d :: u', v', rfl, .add hd hu, hv⟩

end Moved

/-! ## Re-indenting -/

section

variable {old new : Text}

@[simp] theorem reindent_nil (old new : Text) : reindent [] old new = [] := by
  unfold reindent
  split
  · rfl
  · rfl

/-- Text without a line feed is copied. -/
theorem reindent_append {w : Text} (hw : '\n' ∉ w) (x old new : Text) :
    reindent (w ++ x) old new = w ++ reindent x old new := by
  unfold reindent
  split
  · rfl
  · rcases Text.first_line x with ⟨hx, hlines⟩ | ⟨line, rest, hline, rfl, hlines⟩
    · have hwhole : '\n' ∉ w ++ x := by simp [hw, hx]
      rw [hlines, Text.rawLines, Text.splitOnChar_of_not_mem hwhole]
      simp
    · have hfirst : '\n' ∉ w ++ line := by simp [hw, hline]
      rw [hlines, ← List.append_assoc, Text.rawLines_append_cons, Text.rawLines,
        Text.splitOnChar_of_not_mem hfirst]
      simp

theorem reindent_of_not_mem {w : Text} (hw : '\n' ∉ w) (old new : Text) :
    reindent w old new = w := by
  have h := reindent_append hw [] old new
  rwa [reindent_nil, List.append_nil] at h

theorem reindent_cons {c : Char} (hc : c ≠ '\n') (x old new : Text) :
    reindent (c :: x) old new = c :: reindent x old new :=
  reindent_append (w := [c]) (by simpa using Ne.symm hc) x old new

/-- The last line behind a line feed. -/
theorem reindent_newline (hne : old ≠ new) {line : Text} (hline : '\n' ∉ line) :
    reindent ('\n' :: line) old new = '\n' :: reindentLine old new line := by
  rw [reindent, if_neg (by simpa using hne), ← List.nil_append ('\n' :: line),
    Text.rawLines_append_cons, Text.rawLines, Text.rawLines, Text.splitOnChar_of_not_mem hline]
  simp [Text.splitOnChar]

/-- A line between two line feeds. -/
theorem reindent_newline_append (hne : old ≠ new) {line : Text} (hline : '\n' ∉ line) (z : Text) :
    reindent ('\n' :: (line ++ '\n' :: z)) old new =
      '\n' :: (reindentLine old new line ++ reindent ('\n' :: z) old new) := by
  have hlines (x : Text) : Text.rawLines ('\n' :: x) = [] :: Text.rawLines x :=
    Text.rawLines_append_cons [] x
  rw [reindent, reindent, if_neg (by simpa using hne), if_neg (by simpa using hne), hlines, hlines,
    Text.rawLines_append_cons, show Text.rawLines line = [line] from Text.splitOnChar_of_not_mem hline]
  simp

theorem reindent_self (x indent : Text) : reindent x indent indent = x := by
  simp [reindent]

/-- How many characters a line loses. -/
def lostIndent (old line : Text) : Nat :=
  min (line.takeWhile isIndent).length (Text.size old)

theorem reindentLine_of_not_isBlank {line : Text} (hline : isBlank line = false) (old new : Text) :
    reindentLine old new line = new ++ line.drop (lostIndent old line) := by
  rw [reindentLine, hline]
  rfl

/-- What a line loses is white space at its start. -/
theorem isIndent_of_mem_lost {line : Text} {c : Char}
    (hc : c ∈ line.take (lostIndent old line)) : isIndent c = true := by
  have htake : line.take (line.takeWhile isIndent).length = line.takeWhile isIndent :=
    List.prefix_iff_eq_take.mp (List.takeWhile_prefix isIndent) |>.symm
  have hmem : c ∈ line.takeWhile isIndent := by
    rw [← htake]
    exact List.take_subset_take_left line (Nat.min_le_left _ _) hc
  exact List.all_eq_true.mp List.all_takeWhile c hmem

/-- A line keeps what stands behind the white space at its start. -/
theorem exists_reindentLine (old new : Text) {line : Text} (hline : '\n' ∉ line) :
    ∃ p q rest, line = p ++ rest ∧ reindentLine old new line = q ++ rest ∧
      (∀ c ∈ p, isLineSpace c = true) ∧ (q = [] ∨ q = new) := by
  cases hblank : isBlank line with
  | true =>
    refine ⟨line, [], [], (List.append_nil line).symm, ?_, fun c hc => ?_, .inl rfl⟩
    · rw [reindentLine, if_pos hblank]
      rfl
    · exact isLineSpace_of_isSpace (List.all_eq_true.mp hblank c hc) fun h => hline (h ▸ hc)
  | false =>
    refine ⟨_, new, _, (List.take_append_drop (lostIndent old line) line).symm,
      reindentLine_of_not_isBlank hblank old new, fun c hc => ?_, .inr rfl⟩
    exact isLineSpace_of_isIndent (isIndent_of_mem_lost hc)

/-- Behind a line feed, white space is dropped and the new indentation added. -/
theorem exists_reindent_newline (x old new : Text) :
    ∃ p q rest, x = p ++ rest ∧ reindent ('\n' :: x) old new = '\n' :: (q ++ reindent rest old new) ∧
      (∀ c ∈ p, isLineSpace c = true) ∧ (q = [] ∨ q = new) := by
  by_cases hne : old = new
  · subst hne
    exact ⟨[], [], x, rfl, by simp [reindent_self], nofun, .inl rfl⟩
  rcases Text.first_line x with ⟨hx, -⟩ | ⟨line, z, hline, rfl, -⟩
  · obtain ⟨p, q, rest, rfl, hmove, hp, hq⟩ := exists_reindentLine old new hx
    have hrest : '\n' ∉ rest := fun h => hx (List.mem_append_right p h)
    refine ⟨p, q, rest, rfl, ?_, hp, hq⟩
    rw [reindent_newline hne hx, hmove, reindent_of_not_mem hrest]
  · obtain ⟨p, q, rest, rfl, hmove, hp, hq⟩ := exists_reindentLine old new hline
    have hrest : '\n' ∉ rest := fun h => hline (List.mem_append_right p h)
    refine ⟨p, q, rest ++ '\n' :: z, List.append_assoc .., ?_, hp, hq⟩
    rw [reindent_newline_append hne hline, hmove, reindent_append hrest, List.append_assoc]

/-- Re-indenting changes only the white space at the start of lines. -/
theorem moved_reindent (hnew : ∀ c ∈ new, isIndent c = true) (x old : Text) :
    Moved false x (reindent x old new) := by
  -- the recursion leaves out the white space behind a line feed
  induction hlength : x.length using Nat.strongRecOn generalizing x with
  | _ n ih =>
    cases x with
    | nil =>
      rw [reindent_nil]
      exact .nil false
    | cons c x =>
      by_cases hc : c = '\n'
      · subst hc
        obtain ⟨p, q, rest, rfl, hmove, hp, hq⟩ := exists_reindent_newline x old new
        have hshort : rest.length < n := by
          rw [← hlength, List.length_cons, List.length_append]
          omega
        have hindent : ∀ c ∈ q, isIndent c = true := by
          rcases hq with rfl | rfl
          · exact nofun
          · exact hnew
        rw [hmove]
        exact .newline (((ih _ hshort rest rfl).start.adds hindent).drops hp)
      · rw [reindent_cons hc]
        exact .keep hc (ih _ (by rw [← hlength]; exact Nat.lt_succ_self _) x rfl)

/-! ## Pieces of a text -/

/-- What re-indenting makes of a piece of text, if more than white space follows it in its last
line. -/
def reindentBefore (text old new : Text) : Text :=
  (reindent (text ++ ['.']) old new).dropLast

theorem isBlank_append_cons {c : Char} (hc : isSpace c = false) (u v : Text) :
    isBlank (u ++ c :: v) = false := by
  simp [isBlank, hc]

/-- A line whose start is followed by a character that is no white space. -/
theorem reindentLine_append_cons {c : Char} (hc : isSpace c = false) (u v old new : Text) :
    reindentLine old new (u ++ c :: v) = new ++ u.drop (lostIndent old u) ++ c :: v := by
  have hindent : isIndent c = false := by
    rw [Bool.eq_false_iff]
    intro h
    rw [isSpace_of_isLineSpace (isLineSpace_of_isIndent h)] at hc
    cases hc
  have hlost : lostIndent old (u ++ c :: v) = lostIndent old u := by
    rw [lostIndent, lostIndent, List.takeWhile_append, List.takeWhile_cons, hindent]
    split
    · next hall => simp [hall]
    · rfl
  have hle : lostIndent old u ≤ u.length :=
    Nat.le_trans (Nat.min_le_left _ _) (List.takeWhile_prefix isIndent).length_le
  rw [reindentLine_of_not_isBlank (isBlank_append_cons hc u v), hlost, List.append_assoc,
    List.drop_append_of_le_length hle]

/-- What becomes of a piece of text does not depend on what follows it. -/
theorem exists_reindent_append_cons (u old new : Text) :
    ∃ m, ∀ (c : Char) (v : Text), isSpace c = false →
      reindent (u ++ c :: v) old new = m ++ c :: reindent v old new := by
  have hink {c : Char} (hc : isSpace c = false) : c ≠ '\n' := by
    rintro rfl
    cases hc
  by_cases hne : old = new
  · subst hne
    exact ⟨u, fun c v _ => by rw [reindent_self, reindent_self]⟩
  induction hlength : u.length using Nat.strongRecOn generalizing u with
  | _ n ih =>
    cases u with
    | nil => exact ⟨[], fun c v hc => reindent_cons (hink hc) v old new⟩
    | cons d u =>
      by_cases hd : d = '\n'
      · subst hd
        rcases Text.first_line u with ⟨hu, -⟩ | ⟨line, z, hline, rfl, -⟩
        · -- the piece ends in the line that starts here
          refine ⟨'\n' :: (new ++ u.drop (lostIndent old u)), fun c v hc => ?_⟩
          have hfirst {line : Text} (hline : '\n' ∉ line) : '\n' ∉ u ++ c :: line := by
            simpa [hu, hline] using Ne.symm (hink hc)
          rcases Text.first_line v with ⟨hv, -⟩ | ⟨line, z, hline, rfl, -⟩
          · rw [List.cons_append, reindent_newline hne (hfirst hv), reindentLine_append_cons hc,
              reindent_of_not_mem hv]
            rfl
          · have hline' := reindent_newline_append hne (hfirst hline) z
            rw [reindentLine_append_cons hc, List.append_assoc u] at hline'
            refine hline'.trans ?_
            rw [reindent_append hline]
            simp
        · have hshort : ('\n' :: z).length < n := by
            simp only [← hlength, List.length_cons, List.length_append]
            omega
          obtain ⟨m, hm⟩ := ih _ hshort ('\n' :: z) rfl
          refine ⟨'\n' :: (reindentLine old new line ++ m), fun c v hc => ?_⟩
          have hline' := reindent_newline_append hne hline (z ++ c :: v)
          rw [show '\n' :: (z ++ c :: v) = '\n' :: z ++ c :: v from rfl, hm c v hc] at hline'
          rw [List.cons_append, List.append_assoc]
          refine hline'.trans ?_
          simp
      · obtain ⟨m, hm⟩ := ih u.length (by rw [← hlength]; exact Nat.lt_succ_self _) u rfl
        refine ⟨d :: m, fun c v hc => ?_⟩
        rw [List.cons_append, reindent_cons hd, hm c v hc]
        rfl

/-- A text is moved piece by piece, if the second piece does not start with white space. -/
theorem reindent_append_cons {c : Char} (hc : isSpace c = false) (u v old new : Text) :
    reindent (u ++ c :: v) old new =
      reindentBefore u old new ++ reindent (c :: v) old new := by
  obtain ⟨m, hm⟩ := exists_reindent_append_cons u old new
  have hne : c ≠ '\n' := by
    rintro rfl
    cases hc
  have hbefore : reindentBefore u old new = m := by
    rw [reindentBefore, hm '.' [] (by decide), reindent_nil]
    exact List.dropLast_concat
  rw [hm c v hc, hbefore, reindent_cons hne]

/-- A text is moved piece by piece, if the first piece does not end with white space. -/
theorem reindent_append_of_suffix {c : Char} (hc : isSpace c = false) {u : Text} (hu : [c] <:+ u)
    (v old new : Text) :
    reindent (u ++ v) old new = reindentBefore u old new ++ reindent v old new := by
  obtain ⟨u, rfl⟩ := hu
  have hne : c ≠ '\n' := by
    rintro rfl
    cases hc
  have hbefore : reindentBefore (u ++ [c]) old new = reindentBefore u old new ++ [c] := by
    rw [reindentBefore, List.append_assoc, List.singleton_append, reindent_append_cons hc,
      reindent_cons hne, reindent_of_not_mem (by decide : '\n' ∉ ['.']),
      List.dropLast_append_of_ne_nil (by simp)]
    rfl
  rw [List.append_assoc, List.singleton_append, reindent_append_cons hc, reindent_cons hne, hbefore,
    List.append_assoc]
  rfl

theorem reindentBefore_of_not_mem {u : Text} (hu : '\n' ∉ u) (old new : Text) :
    reindentBefore u old new = u := by
  rw [reindentBefore, reindent_of_not_mem (by simpa using hu)]
  exact List.dropLast_concat

theorem moved_reindentBefore (hnew : ∀ c ∈ new, isIndent c = true) (u old : Text) :
    Moved false u (reindentBefore u old new) := by
  obtain ⟨u', v', hy, hu, hv⟩ :=
    (moved_reindent hnew (u ++ ['.']) old).exists_append_cons (by decide : isSpace '.' = false)
  rwa [reindentBefore, hy, hv.eq_nil, List.dropLast_concat]

end

end Retouch
