import Retouch.Edit.Marker
import Retouch.Proofs.Coordinates
import Retouch.Proofs.Words

/-!
# Markers are found where they were put

Both markers are looked for in the marked text, but taken out one after the other. Both start with a
bracket and hold no other opening bracket. So no marker starts before another one and ends in it,
whatever the text around looks like, and taking a marker out makes no new one.

- `Text.splitFirst?_skip`: the search passes over a text that does not hold the word, if a first
  character of the word follows.
- `Marked.encode?`: a text with both ends of a byte range marked.
- `Marked.markers_round_trip`: decoding gives back the text and the range.
-/

namespace Retouch

/-! ## Words that hold their first character only once -/

namespace Text

variable {first : Char} {word before y : Text}

/-- A word does not start where its first character does not stand. -/
theorem infix_of_infix_append (hbefore : first ∉ before) (h : first :: word <:+: before ++ y) :
    first :: word <:+: y := by
  induction before with
  | nil => exact h
  | cons c before ih =>
    rw [List.mem_cons, not_or] at hbefore
    rcases List.infix_cons_iff.mp h with hprefix | hinfix
    · exact absurd (List.cons_prefix_cons.mp hprefix).1 hbefore.1
    · exact ih hbefore.2 hinfix

/-- A text that lacks a character ends before the character stands. -/
theorem prefix_of_prefix_append (hword : first ∉ word) (h : word <+: before ++ first :: y) :
    word <+: before := by
  rcases List.prefix_or_prefix_of_prefix h (List.prefix_append before (first :: y)) with
    hshort | ⟨more, rfl⟩
  · exact hshort
  · cases more with
    | nil =>
      rw [List.append_nil]
    | cons c more =>
      obtain ⟨rfl, -⟩ := List.cons_prefix_cons.mp ((List.prefix_append_right_inj before).mp h)
      exact absurd (List.mem_append_right before List.mem_cons_self) hword

/-- A word that holds its first character only once does not reach over that character. -/
theorem prefix_of_prefix_cons_append {c : Char} (hword : first ∉ word)
    (h : first :: word <+: c :: before ++ first :: y) : first :: word <+: c :: before := by
  obtain ⟨rfl, hrest⟩ := List.cons_prefix_cons.mp h
  exact List.cons_prefix_cons.mpr ⟨rfl, prefix_of_prefix_append hword hrest⟩

theorem infix_or_infix_of_append (hword : first ∉ word)
    (h : first :: word <:+: before ++ first :: y) :
    first :: word <:+: before ∨ first :: word <:+: first :: y := by
  induction before with
  | nil => exact .inr h
  | cons c before ih =>
    rcases List.infix_cons_iff.mp h with hprefix | hinfix
    · exact .inl (prefix_of_prefix_cons_append hword hprefix).isInfix
    · exact (ih hinfix).imp_left List.infix_cons

/-- The search passes over a text that does not hold the word. -/
theorem splitFirst?_skip (hword : first ∉ word) (h : ¬first :: word <:+: before) (y : Text) :
    splitFirst? (first :: word) (before ++ first :: y) =
      (splitFirst? (first :: word) (first :: y)).map fun parts => (before ++ parts.1, parts.2) := by
  induction before with
  | nil => exact Option.map_id'.symm
  | cons c before ih =>
    have hdrop : dropHead? (c :: (before ++ first :: y)) (first :: word) = none := by
      cases hdrop : dropHead? (c :: (before ++ first :: y)) (first :: word) with
      | none => rfl
      | some found =>
        have hprefix : first :: word <+: c :: before ++ first :: y :=
          ⟨found, (eq_append_of_dropHead? hdrop).symm⟩
        exact absurd (prefix_of_prefix_cons_append hword hprefix).isInfix h
    rw [List.cons_append, splitFirst?, hdrop, ih fun hinfix => h (List.infix_cons hinfix),
      Option.map_map]
    rfl

/-- Such a word is found where it was put, if the text before does not hold it. -/
theorem splitFirst?_put (hword : first ∉ word) (h : ¬first :: word <:+: before) (y : Text) :
    splitFirst? (first :: word) (before ++ first :: word ++ y) = some (before, y) := by
  have hfront : splitFirst? (first :: word) (first :: (word ++ y)) = some ([], y) := by
    rw [splitFirst?, ← List.cons_append, dropHead?_append]
  rw [List.append_assoc, List.cons_append, splitFirst?_skip hword h, hfront, Option.map_some,
    List.append_nil]

theorem splitFirst?_eq_none {word text : Text} (h : ¬word <:+: text) :
    splitFirst? word text = none := by
  cases hfound : splitFirst? word text with
  | none => rfl
  | some parts => exact absurd ⟨_, _, (eq_append_of_splitFirst? hfound).symm⟩ h

/-- The text with a word inserted at an offset, if it can be cut there. -/
def insert? (text word : Text) (offset : Nat) : Option Text :=
  (text.cut? offset).map fun parts => parts.1 ++ word ++ parts.2

theorem insert?_size (before after word : Text) :
    insert? (before ++ after) word before.size = some (before ++ word ++ after) := by
  rw [insert?, cut?_append, Option.map_some]

end Text

/-! ## Decoding -/

namespace Marked

/-- A text with both ends of a byte range marked. The end is marked first, so that the start is
still where it was. -/
def encode? (code : Text) (range : Span) : Option Text := do
  let marked ← Text.insert? code endMarker range.stop
  Text.insert? marked startMarker range.start

variable {a b c : Text}

theorem encode?_eq (a b c : Text) :
    encode? (a ++ b ++ c) ⟨a.size, Text.size (a ++ b)⟩ =
      some (a ++ startMarker ++ (b ++ endMarker ++ c)) := by
  have hstop := Text.insert?_size (a ++ b) c endMarker
  have hstart := Text.insert?_size a (b ++ endMarker ++ c) startMarker
  rw [encode?, hstop]
  simpa using hstart

theorem splitFirst?_startMarker (h : ¬startMarker <:+: a) (y : Text) :
    Text.splitFirst? startMarker (a ++ startMarker ++ y) = some (a, y) :=
  Text.splitFirst?_put (by decide) h y

theorem splitFirst?_endMarker (h : ¬endMarker <:+: a) (y : Text) :
    Text.splitFirst? endMarker (a ++ endMarker ++ y) = some (a, y) :=
  Text.splitFirst?_put (by decide) h y

/-- The marker of the start makes no marker of the end with what stands around it. -/
theorem endMarker_not_contained (ha : ¬endMarker <:+: a) (hb : ¬endMarker <:+: b) :
    ¬endMarker <:+: a ++ startMarker ++ b := by
  intro h
  rw [List.append_assoc] at h
  rcases Text.infix_or_infix_of_append (by decide) h with h | h
  · exact ha h
  · rcases List.infix_cons_iff.mp h with hprefix | hinfix
    · -- both start with a bracket, but differ behind it
      exact absurd (List.cons_prefix_cons.mp (List.cons_prefix_cons.mp hprefix).2).1 (by decide)
    · exact hb (Text.infix_of_infix_append (by decide) hinfix)

theorem decode?_range (hstart : ¬startMarker <:+: a ++ b ++ c)
    (hend : ¬endMarker <:+: a ++ b ++ c) :
    decode? (a ++ startMarker ++ (b ++ endMarker ++ c)) =
      some (a ++ b ++ c, Text.selection (a ++ b ++ c) ⟨a.size, Text.size (a ++ b)⟩) := by
  have hab : a ++ b <:+: a ++ b ++ c := (List.prefix_append _ c).isInfix
  have ha : a <:+: a ++ b ++ c := (List.prefix_append a b).isInfix.trans hab
  have hb : b <:+: a ++ b ++ c := (List.suffix_append a b).isInfix.trans hab
  have hopen := splitFirst?_startMarker (fun h => hstart (h.trans ha)) (b ++ endMarker ++ c)
  have hclose : Text.splitFirst? endMarker (a ++ startMarker ++ (b ++ endMarker ++ c)) =
      some (a ++ startMarker ++ b, c) := by
    have h := splitFirst?_endMarker
      (endMarker_not_contained (fun h => hend (h.trans ha)) fun h => hend (h.trans hb)) c
    simpa only [List.append_assoc] using h
  have hcode : removeFirst endMarker
      (removeFirst startMarker (a ++ startMarker ++ (b ++ endMarker ++ c))) = a ++ b ++ c := by
    have h := splitFirst?_endMarker (fun h => hend (h.trans hab)) c
    rw [removeFirst, removeFirst, hopen]
    dsimp only
    rw [← List.append_assoc, ← List.append_assoc, h]
  -- the end stands behind the marker of the start, whose bytes go away
  have hsize : Text.size (a ++ startMarker ++ b) - Text.size startMarker = Text.size (a ++ b) := by
    simp only [Text.size_append]
    omega
  have hroom : ¬Text.size (a ++ startMarker ++ b) < Text.size startMarker := by
    simp only [Text.size_append]
    omega
  simp only [decode?, find?, hopen, hclose, Option.map_some, hcode, hsize, if_neg hroom]

theorem decode?_cursor (hstart : ¬startMarker <:+: a ++ b) (hend : ¬endMarker <:+: a ++ b) :
    decode? (a ++ startMarker ++ b) =
      some (a ++ b, .cursor (Text.position (a ++ b) a.size)) := by
  have ha : a <:+: a ++ b := (List.prefix_append a b).isInfix
  have hb : b <:+: a ++ b := (List.suffix_append a b).isInfix
  have hopen := splitFirst?_startMarker (fun h => hstart (h.trans ha)) b
  have hclose := Text.splitFirst?_eq_none
    (endMarker_not_contained (fun h => hend (h.trans ha)) fun h => hend (h.trans hb))
  have hcode : removeFirst endMarker (removeFirst startMarker (a ++ startMarker ++ b)) = a ++ b := by
    rw [removeFirst, removeFirst, hopen]
    dsimp only
    rw [Text.splitFirst?_eq_none hend]
  have hcursor : Text.selection (a ++ b) ⟨a.size, a.size⟩ =
      .cursor (Text.position (a ++ b) a.size) :=
    Text.selection_of_le _ (Nat.le_refl _)
  simp only [decode?, find?, hopen, hclose, Option.map_some, Option.map_none, hcode, hcursor]

/-- **Markers are decoded exactly.** A text that holds no marker, with both ends of one of its byte
ranges marked, is decoded into the text itself and the selection of the range; with a single offset
marked, into the text and the cursor there. Parts of a marker may stand anywhere in the text, also
right beside the markers. -/
theorem markers_round_trip {code : Text} (hstart : ¬startMarker <:+: code)
    (hend : ¬endMarker <:+: code) :
    (∀ range, code.HasRange range → ∃ marked, encode? code range = some marked ∧
      decode? marked = some (code, code.selection range)) ∧
    ∀ offset, code.isBoundary offset = true → ∃ marked,
      code.insert? startMarker offset = some marked ∧
        decode? marked = some (code, .cursor (code.position offset)) := by
  constructor
  · rintro ⟨start, stop⟩ ⟨hle, hcut, hcut'⟩
    obtain ⟨ab, c, rfl, rfl⟩ := Text.isBoundary_iff.mp hcut'
    dsimp only at hle hcut
    rw [Text.isBoundary_append_left ab c hle] at hcut
    obtain ⟨a, b, rfl, rfl⟩ := Text.isBoundary_iff.mp hcut
    exact ⟨_, encode?_eq a b c, decode?_range hstart hend⟩
  · intro offset hcut
    obtain ⟨a, b, rfl, rfl⟩ := Text.isBoundary_iff.mp hcut
    exact ⟨_, Text.insert?_size a b startMarker, decode?_cursor hstart hend⟩

/-- A text with the beginnings of markers in it: they do not become markers with the inserted ones. -/
theorem markers_round_trip_fragments :
    ¬startMarker <:+: "é[st\n[en[startd]".toList ∧ ¬endMarker <:+: "é[st\n[en[startd]".toList ∧
      encode? "é[st\n[en[startd]".toList ⟨5, 9⟩ =
        some "é[st[start]\n[en[end][startd]".toList ∧
      decode? "é[st[start]\n[en[end][startd]".toList =
        some ("é[st\n[en[startd]".toList, ⟨⟨0, 4⟩, ⟨1, 3⟩, by decide⟩) := by
  have hstart : ¬startMarker <:+: "é[st\n[en[startd]".toList := by decide
  have hend : ¬endMarker <:+: "é[st\n[en[startd]".toList := by decide
  have hmarked : encode? "é[st\n[en[startd]".toList ⟨5, 9⟩ =
      some "é[st[start]\n[en[end][startd]".toList := by decide
  obtain ⟨marked, hencode, hdecode⟩ :=
    (markers_round_trip hstart hend).1 ⟨5, 9⟩ ⟨by decide, by decide, by decide⟩
  cases hmarked.symm.trans hencode
  exact ⟨hstart, hend, hmarked, hdecode⟩

end Marked

end Retouch
