import Mathlib.Data.List.Infix
import Mathlib.Data.List.TakeWhile
import Retouch.Proofs.Positions
import Retouch.Refactoring.Basic

/-!
# White space and words in a text

- `exists_blankStart`, `exists_blankEnd`: the white space around a cutting place ends at cutting
  places.
- `Text.InkAt`, `Text.InkBefore`: places beside a character that is no white space. Their positions
  lead back to them, and white space does not reach over them (`InkAt.le_blankStart`,
  `InkAt.blankEnd_le`).
- `Text.exists_splitFirst?`, `Text.eq_append_of_splitFirst?`: a word that stands in a text is found,
  and a word that is found stands there.
- `Text.splitFirst?_append`, `Text.splitFirst?_of_not_infix`: it is found where it stands first.
-/

namespace Retouch

/-! ## White space around an offset -/

theorem Text.exists_dropEndWhile (text : Text) (p : Char → Bool) :
    ∃ dropped, text = text.dropEndWhile p ++ dropped ∧ ∀ c ∈ dropped, p c = true := by
  refine ⟨(text.reverse.takeWhile p).reverse, ?_, fun c hc => ?_⟩
  · rw [dropEndWhile, ← List.reverse_append, List.takeWhile_append_dropWhile, List.reverse_reverse]
  · exact List.mem_takeWhile_imp (List.mem_reverse.mp hc)

theorem blankStart_append (before after : Text) :
    blankStart (before ++ after) before.size
      = .ok (Text.size (Text.dropEndWhile before Text.isSpace)) := by
  rw [blankStart, Text.cut?_append]

theorem blankEnd_append (before after : Text) :
    blankEnd (before ++ after) before.size
      = .ok (before.size + Text.size (after.takeWhile Text.isSpace)) := by
  have hsize : Text.size after
      = Text.size (after.takeWhile Text.isSpace) + Text.size (after.dropWhile Text.isSpace) := by
    rw [← Text.size_append, List.takeWhile_append_dropWhile]
  rw [blankEnd, Text.cut?_append]
  dsimp only
  rw [Text.size_append, hsize]
  congr 1
  omega

/-- White space before a cutting place starts at a cutting place. -/
theorem exists_blankStart {text : Text} {n : Nat} (h : text.isBoundary n = true) :
    ∃ m, blankStart text n = .ok m ∧ m ≤ n ∧ text.isBoundary m = true := by
  obtain ⟨before, after, rfl, rfl⟩ := Text.isBoundary_iff.mp h
  obtain ⟨blank, hblank, -⟩ := Text.exists_dropEndWhile before Text.isSpace
  refine ⟨_, blankStart_append before after, ?_, ?_⟩
  · have hsize := congrArg Text.size hblank
    rw [Text.size_append] at hsize
    omega
  · refine Text.isBoundary_iff.mpr ⟨_, blank ++ after, ?_, rfl⟩
    rw [← List.append_assoc, ← hblank]

/-- White space behind a cutting place ends at a cutting place. -/
theorem exists_blankEnd {text : Text} {n : Nat} (h : text.isBoundary n = true) :
    ∃ m, blankEnd text n = .ok m ∧ n ≤ m ∧ text.isBoundary m = true := by
  obtain ⟨before, after, rfl, rfl⟩ := Text.isBoundary_iff.mp h
  refine ⟨_, blankEnd_append before after, Nat.le_add_right _ _, ?_⟩
  refine Text.isBoundary_iff.mpr ⟨before ++ after.takeWhile Text.isSpace,
    after.dropWhile Text.isSpace, ?_, Text.size_append _ _⟩
  rw [List.append_assoc, List.takeWhile_append_dropWhile]

/-! ## Places beside a character that is no white space -/

namespace Text

variable {text : Text} {n m : Nat}

/-- At an offset a character starts that is no white space. -/
def InkAt (text : Text) (n : Nat) : Prop :=
  ∃ before c after, text = before ++ c :: after ∧ size before = n ∧ isSpace c = false

/-- At an offset a character ends that is no white space. -/
def InkBefore (text : Text) (n : Nat) : Prop :=
  ∃ before c after, text = before ++ [c] ++ after ∧ size (before ++ [c]) = n ∧ isSpace c = false

/-- The position of such a place leads back to it: no carriage return stands before it that would
end the line. -/
theorem InkAt.offset?_position (h : text.InkAt n) : text.offset? (text.position n) = some n := by
  obtain ⟨before, c, after, rfl, rfl, hc⟩ := h
  refine Text.offset?_position ?_
  rintro ⟨-, hnil | hfeed⟩
  · cases hnil
  · obtain rfl : c = '\n' := Option.some.inj hfeed
    cases hc

theorem InkBefore.offset?_position (h : text.InkBefore n) :
    text.offset? (text.position n) = some n := by
  obtain ⟨before, c, after, rfl, rfl, hc⟩ := h
  refine Text.offset?_position ?_
  rintro ⟨hreturn, -⟩
  rw [List.getLast?_concat] at hreturn
  obtain rfl : c = '\r' := Option.some.inj hreturn
  cases hc

/-- A character that stands before the end of the first of two parts stands in that part. -/
theorem exists_of_size_lt {x y before after : Text} {c : Char} (h : x ++ y = before ++ c :: after)
    (hlt : size before < size x) : ∃ rest, x = before ++ c :: rest := by
  obtain ⟨middle, rfl, hmiddle⟩ := exists_middle h.symm (Nat.le_of_lt hlt)
  cases middle with
  | nil => simp at hlt
  | cons c' rest => exact ⟨rest, by rw [(List.cons.inj hmiddle).1]⟩

/-- White space before a place does not reach back over a character that is none. -/
theorem InkAt.le_blankStart {a : Nat} (h : text.InkAt a) (ha : a < n)
    (hm : blankStart text n = .ok m) : a ≤ m := by
  unfold blankStart at hm
  split at hm
  · next head tail hcut =>
    cases hm
    obtain ⟨hsplit, hsize⟩ := cut?_eq_some_iff.mp hcut
    obtain ⟨before, c, after, htext, rfl, hc⟩ := h
    obtain ⟨rest, hhead⟩ := exists_of_size_lt (hsplit.symm.trans htext) (by omega)
    obtain ⟨dropped, hkept, hdropped⟩ := exists_dropEndWhile head isSpace
    -- if more than `c` were dropped from `head`, then `c` would be white space
    by_contra hlt
    obtain ⟨middle, -, rfl⟩ := exists_middle (hkept.symm.trans hhead) (by omega)
    have hspace := hdropped c (by simp)
    rw [hc] at hspace
    cases hspace
  · cases hm

/-- White space behind a place does not reach over a character that is none. -/
theorem InkAt.blankEnd_le {a : Nat} (h : text.InkAt a) (ha : n ≤ a)
    (hm : blankEnd text n = .ok m) : m ≤ a := by
  obtain ⟨before, c, after, htext, rfl, hc⟩ := h
  cases hcut : text.cut? n with
  | none => simp [blankEnd, hcut] at hm
  | some parts =>
    obtain ⟨head, tail⟩ := parts
    obtain ⟨rfl, rfl⟩ := cut?_eq_some_iff.mp hcut
    rw [blankEnd_append] at hm
    cases hm
    obtain ⟨middle, rfl, hmiddle⟩ := exists_middle htext ha
    -- if the white space reached over `c`, then `c` would be white space
    by_contra hlt
    rw [size_append] at hlt
    have hsplit : tail.takeWhile isSpace ++ tail.dropWhile isSpace = middle ++ c :: after :=
      List.takeWhile_append_dropWhile.trans hmiddle
    obtain ⟨rest, hrest⟩ := exists_of_size_lt hsplit (by omega)
    have hspace := List.mem_takeWhile_imp (hrest ▸ (by simp : c ∈ middle ++ c :: rest))
    rw [hc] at hspace
    cases hspace

end Text

/-! ## Words -/

namespace Text

theorem dropHead?_append (word rest : Text) : dropHead? (word ++ rest) word = some rest := by
  induction word with
  | nil => cases rest <;> rfl
  | cons c word ih => simp [dropHead?, ih]

theorem eq_append_of_dropHead? {text word rest : Text} (h : dropHead? text word = some rest) :
    text = word ++ rest := by
  induction word generalizing text with
  | nil =>
    cases text <;> cases h <;> rfl
  | cons c word ih =>
    cases text with
    | nil => cases h
    | cons c' text =>
      rw [dropHead?] at h
      split at h
      · next hc => rw [beq_iff_eq.mp hc, ih h, List.cons_append]
      · cases h

/-- A word that stands somewhere in a text is found, and divides it. -/
theorem exists_splitFirst? {word text : Text} (h : word <:+: text) :
    ∃ before after, splitFirst? word text = some (before, after) ∧
      text = before ++ word ++ after := by
  induction text with
  | nil =>
    obtain rfl := List.infix_nil.mp h
    exact ⟨[], [], rfl, rfl⟩
  | cons c rest ih =>
    rw [splitFirst?]
    cases hdrop : dropHead? (c :: rest) word with
    | some after => exact ⟨[], after, rfl, eq_append_of_dropHead? hdrop⟩
    | none =>
      -- the word does not stand at the front, so it stands further on
      obtain ⟨front, back, hsplit⟩ := h
      cases front with
      | nil =>
        rw [List.nil_append] at hsplit
        rw [← hsplit, dropHead?_append] at hdrop
        cases hdrop
      | cons c' front =>
        obtain ⟨before, after, hfound, htext⟩ := ih ⟨front, back, (List.cons.inj hsplit).2⟩
        refine ⟨c :: before, after, by rw [hfound]; rfl, ?_⟩
        rw [htext]
        rfl

/-- A word that is found divides the text. -/
theorem eq_append_of_splitFirst? {word text before after : Text}
    (h : splitFirst? word text = some (before, after)) : text = before ++ word ++ after := by
  induction text generalizing before with
  | nil =>
    rw [splitFirst?] at h
    split at h
    · next hempty =>
      cases h
      rw [List.isEmpty_iff.mp hempty]
      rfl
    · cases h
  | cons c rest ih =>
    rw [splitFirst?] at h
    split at h
    · next hdrop =>
      cases h
      exact eq_append_of_dropHead? hdrop
    · obtain ⟨⟨first, second⟩, hfound, heq⟩ := Option.map_eq_some_iff.mp h
      cases heq
      rw [ih hfound]
      rfl

/-- What is found in a text is found in a longer one, with more behind it. -/
theorem splitFirst?_append {word text before after : Text}
    (h : splitFirst? word text = some (before, after)) (rest : Text) :
    splitFirst? word (text ++ rest) = some (before, after ++ rest) := by
  have htext := eq_append_of_splitFirst? h
  induction text generalizing before with
  | nil =>
    obtain ⟨hboth, rfl⟩ := List.append_eq_nil_iff.mp htext.symm
    obtain ⟨rfl, rfl⟩ := List.append_eq_nil_iff.mp hboth
    cases rest <;> rfl
  | cons c text ih =>
    rw [splitFirst?] at h
    rw [List.cons_append, splitFirst?]
    cases hdrop : dropHead? (c :: text) word with
    | some found =>
      rw [hdrop] at h
      cases h
      rw [← List.cons_append, eq_append_of_dropHead? hdrop, List.append_assoc, dropHead?_append]
    | none =>
      rw [hdrop] at h
      obtain ⟨⟨first, second⟩, hfound, heq⟩ := Option.map_eq_some_iff.mp h
      cases heq
      have hlater := eq_append_of_splitFirst? hfound
      -- the word stands in the text, so it is not longer, and cannot end behind the text
      cases hdrop' : dropHead? (c :: (text ++ rest)) word with
      | none =>
        rw [ih hfound hlater]
        rfl
      | some found =>
        have hfront := eq_append_of_dropHead? hdrop'
        have hlength : word.length ≤ (c :: text).length := by
          rw [hlater]
          simp only [List.length_cons, List.length_append]
          omega
        obtain ⟨more, hmore⟩ : word <+: c :: text :=
          List.prefix_of_prefix_length_le ⟨found, hfront.symm⟩
            (List.prefix_append (c :: text) rest) hlength
        rw [← hmore, dropHead?_append] at hdrop
        cases hdrop

/-- A word is found where it stands first: it does not stand before, nor does it start there. -/
theorem splitFirst?_of_not_infix {word before : Text} (hword : word ≠ [])
    (hlast : ∀ c, [c] <:+ before → c ∉ word) (h : ¬word <:+: before) (after : Text) :
    splitFirst? word (before ++ word ++ after) = some (before, after) := by
  induction before with
  | nil =>
    obtain ⟨c, word, rfl⟩ := List.exists_cons_of_ne_nil hword
    rw [List.nil_append, List.cons_append, splitFirst?, ← List.cons_append, dropHead?_append]
  | cons c before ih =>
    have hlast' : ∀ d, [d] <:+ before → d ∉ word := fun d hd =>
      hlast d (hd.trans (List.suffix_cons c before))
    have hbefore : ¬word <:+: before := fun hoccurs => h (List.infix_cons hoccurs)
    have hdrop : dropHead? (c :: (before ++ word ++ after)) word = none := by
      cases hdrop : dropHead? (c :: (before ++ word ++ after)) word with
      | none => rfl
      | some found =>
        have hfront := eq_append_of_dropHead? hdrop
        rw [List.append_assoc, ← List.cons_append] at hfront
        rcases List.append_eq_append_iff.mp hfront with ⟨more, rfl, -⟩ | ⟨more, hmore, -⟩
        · -- the last character before the word would be one of the word
          have hne : c :: before ≠ [] := List.cons_ne_nil c before
          exact absurd (List.mem_append_left more (List.getLast_mem hne))
            (hlast _ ⟨_, List.dropLast_concat_getLast hne⟩)
        · exact absurd ⟨[], more, by rw [List.nil_append, hmore]⟩ h
    rw [List.cons_append, List.cons_append, splitFirst?, hdrop, ih hlast' hbefore]
    rfl

end Text

end Retouch
