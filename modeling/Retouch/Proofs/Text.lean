import Retouch.Text.Basic

/-!
# Cutting texts

An offset at which a text can be cut is the size of a beginning of that text. Everything about
cuts, slices and floors follows from this and from the way cuts pass through `++`.

- `cut?_eq_some_iff`, `isBoundary_iff`, `slice?_eq_some_iff`: cuts and slices as equations between
  texts.
- `cut?_append_left`, `cut?_append_right`: a cut of a concatenation lies in one of its halves.
- `floor_mono`, `isBoundary_floor`: the floor of an offset is a cutting place, and floors keep the
  order of offsets.
- `charAt?`: the character that starts at an offset.
-/

namespace Retouch.Text

/-! ## Sizes -/

@[simp] theorem size_nil : size [] = 0 := rfl

@[simp] theorem size_cons (c : Char) (rest : Text) : size (c :: rest) = c.utf8Size + size rest :=
  rfl

@[simp] theorem size_append (a b : Text) : size (a ++ b) = size a + size b := by
  induction a with
  | nil => simp
  | cons c rest ih => simp [ih, Nat.add_assoc]

theorem eq_nil_of_size_eq_zero {text : Text} (h : size text = 0) : text = [] := by
  cases text with
  | nil => rfl
  | cons c rest =>
    have hpos := c.utf8Size_pos
    rw [size_cons] at h
    omega

theorem size_take_le (text : Text) (n : Nat) : Text.size (text.take n) ≤ size text := by
  have hsplit := size_append (text.take n) (text.drop n)
  rw [List.take_append_drop] at hsplit
  omega

theorem size_take_mono (text : Text) {m n : Nat} (h : m ≤ n) :
    Text.size (text.take m) ≤ Text.size (text.take n) := by
  rw [← Nat.min_eq_left h, ← List.take_take]
  exact size_take_le (text.take n) m

/-- Of two ways to split a text, the one with the shorter first part is the earlier one. -/
theorem exists_middle {a b c d : Text} (h : a ++ b = c ++ d) (hsize : size a ≤ size c) :
    ∃ middle, c = a ++ middle ∧ b = middle ++ d := by
  rcases List.append_eq_append_iff.mp h with hmiddle | ⟨middle, rfl, rfl⟩
  · exact hmiddle
  · rw [size_append] at hsize
    have hnil : middle = [] := eq_nil_of_size_eq_zero (by omega)
    subst hnil
    exact ⟨[], by simp, rfl⟩

/-- Two ways to split a text at one offset are one. -/
theorem append_inj_of_size {a b c d : Text} (h : a ++ b = c ++ d) (hsize : size a = size c) :
    a = c ∧ b = d := by
  obtain ⟨middle, rfl, rfl⟩ := exists_middle h (Nat.le_of_eq hsize)
  rw [size_append] at hsize
  obtain rfl : middle = [] := eq_nil_of_size_eq_zero (by omega)
  exact ⟨(List.append_nil a).symm, rfl⟩

/-! ## Cuts -/

@[simp] theorem cut?_zero (text : Text) : cut? text 0 = some ([], text) := by
  cases text <;> rfl

theorem cut?_cons (c : Char) (rest : Text) {n : Nat} (h : 0 < n) :
    cut? (c :: rest) n =
      if c.utf8Size ≤ n then
        (cut? rest (n - c.utf8Size)).map fun parts => (c :: parts.1, parts.2)
      else none := by
  obtain ⟨m, rfl⟩ := Nat.exists_eq_succ_of_ne_zero (Nat.pos_iff_ne_zero.mp h)
  rfl

/-- A cut in the first of two texts. -/
theorem cut?_append_left (a b : Text) {n : Nat} (h : n ≤ size a) :
    cut? (a ++ b) n = (cut? a n).map fun parts => (parts.1, parts.2 ++ b) := by
  induction a generalizing n with
  | nil =>
    obtain rfl : n = 0 := by simpa using h
    simp
  | cons c rest ih =>
    rcases Nat.eq_zero_or_pos n with rfl | hn
    · simp
    · rw [List.cons_append, cut?_cons c (rest ++ b) hn, cut?_cons c rest hn]
      by_cases hc : c.utf8Size ≤ n
      · rw [if_pos hc, if_pos hc, ih (by rw [size_cons] at h; omega), Option.map_map,
          Option.map_map]
        rfl
      · rw [if_neg hc, if_neg hc]
        rfl

/-- A cut in the second of two texts. -/
theorem cut?_append_right (a b : Text) (n : Nat) :
    cut? (a ++ b) (size a + n) = (cut? b n).map fun parts => (a ++ parts.1, parts.2) := by
  induction a with
  | nil => simp
  | cons c rest ih =>
    have hpos := c.utf8Size_pos
    rw [List.cons_append, size_cons, cut?_cons c (rest ++ b) (by omega),
      if_pos (by omega : c.utf8Size ≤ c.utf8Size + size rest + n),
      (by omega : c.utf8Size + size rest + n - c.utf8Size = size rest + n), ih, Option.map_map]
    rfl

@[simp] theorem cut?_append (before after : Text) :
    cut? (before ++ after) (size before) = some (before, after) := by
  simpa using cut?_append_right before after 0

/-- A text is cut into two parts that make it up, the first of which has the size of the offset. -/
theorem cut?_eq_some_iff {text before after : Text} {n : Nat} :
    cut? text n = some (before, after) ↔ text = before ++ after ∧ size before = n := by
  constructor
  · intro h
    induction text generalizing n before with
    | nil =>
      cases n with
      | zero =>
        cases h
        exact ⟨rfl, rfl⟩
      | succ n => cases h
    | cons c rest ih =>
      rcases Nat.eq_zero_or_pos n with rfl | hn
      · rw [cut?_zero] at h
        cases h
        exact ⟨rfl, rfl⟩
      · rw [cut?_cons c rest hn] at h
        split at h
        · obtain ⟨⟨first, second⟩, hcut, heq⟩ := Option.map_eq_some_iff.mp h
          obtain rfl : c :: first = before := congrArg Prod.fst heq
          obtain rfl : second = after := congrArg Prod.snd heq
          obtain ⟨rfl, hsize⟩ := ih hcut
          refine ⟨rfl, ?_⟩
          rw [size_cons]
          omega
        · cases h
  · rintro ⟨rfl, rfl⟩
    exact cut?_append before after

/-! ## Cutting places -/

theorem isBoundary_iff {text : Text} {n : Nat} :
    text.isBoundary n = true ↔ ∃ before after, text = before ++ after ∧ size before = n := by
  unfold isBoundary
  rw [Option.isSome_iff_exists]
  constructor
  · rintro ⟨⟨before, after⟩, h⟩
    exact ⟨before, after, (cut?_eq_some_iff).mp h⟩
  · rintro ⟨before, after, h⟩
    exact ⟨(before, after), (cut?_eq_some_iff).mpr h⟩

theorem isBoundary_size_append (a b : Text) : isBoundary (a ++ b) (size a) = true :=
  (isBoundary_iff).mpr ⟨a, b, rfl, rfl⟩

theorem le_size_of_isBoundary {text : Text} {n : Nat} (h : text.isBoundary n = true) :
    n ≤ size text := by
  obtain ⟨before, after, rfl, rfl⟩ := (isBoundary_iff).mp h
  rw [size_append]
  exact Nat.le_add_right _ _

theorem isBoundary_append_left (a b : Text) {n : Nat} (h : n ≤ size a) :
    isBoundary (a ++ b) n = isBoundary a n := by
  unfold isBoundary
  rw [cut?_append_left a b h, Option.isSome_map]

theorem isBoundary_append_right (a b : Text) (n : Nat) :
    isBoundary (a ++ b) (size a + n) = isBoundary b n := by
  unfold isBoundary
  rw [cut?_append_right, Option.isSome_map]

/-- A slice is the middle of three parts that make up the text. -/
theorem slice?_eq_some_iff {text part : Text} {start stop : Nat} :
    text.slice? start stop = some part ↔
      ∃ before after, text = before ++ part ++ after ∧ size before = start ∧
        size before + size part = stop := by
  constructor
  · intro h
    unfold slice? at h
    split at h
    · next hle =>
      split at h
      · cases h
      · next before rest hcut =>
        obtain ⟨rfl, rfl⟩ := (cut?_eq_some_iff).mp hcut
        obtain ⟨⟨first, after⟩, hrest, hfirst⟩ := Option.map_eq_some_iff.mp h
        obtain rfl : first = part := hfirst
        obtain ⟨rfl, hsize⟩ := (cut?_eq_some_iff).mp hrest
        exact ⟨before, after, (List.append_assoc ..).symm, rfl, by omega⟩
    · cases h
  · rintro ⟨before, after, rfl, rfl, rfl⟩
    have hrest : size before + size part - size before = size part := by omega
    rw [slice?, if_pos (Nat.le_add_right _ _), List.append_assoc, cut?_append]
    simp only [hrest, cut?_append, Option.map_some]

/-! ## Floors -/

theorem isBoundary_floor (text : Text) (n : Nat) : text.isBoundary (text.floor n) = true := by
  induction text generalizing n with
  | nil => rfl
  | cons c rest ih =>
    rw [floor]
    split
    · have hone : size [c] = c.utf8Size := by simp
      rw [← hone, ← List.singleton_append, isBoundary_append_right]
      exact ih _
    · exact isBoundary_size_append [] (c :: rest)

theorem floor_le_size (text : Text) (n : Nat) : text.floor n ≤ size text :=
  le_size_of_isBoundary (isBoundary_floor text n)

theorem floor_mono (text : Text) {m n : Nat} (h : m ≤ n) : text.floor m ≤ text.floor n := by
  induction text generalizing m n with
  | nil => exact Nat.le_refl _
  | cons c rest ih =>
    rw [floor, floor]
    by_cases hm : c.utf8Size ≤ m
    · rw [if_pos hm, if_pos (Nat.le_trans hm h)]
      exact Nat.add_le_add_left (ih (Nat.sub_le_sub_right h _)) _
    · rw [if_neg hm]
      exact Nat.zero_le _

/-! ## Characters at offsets -/

/-- The character that starts at a byte offset. -/
def charAt? (text : Text) (offset : Nat) : Option Char :=
  (text.cut? offset).bind fun parts => parts.2.head?

theorem charAt?_append_left (a b : Text) {n : Nat} (h : n < size a) :
    charAt? (a ++ b) n = charAt? a n := by
  unfold charAt?
  rw [cut?_append_left a b (Nat.le_of_lt h)]
  cases hcut : cut? a n with
  | none => rfl
  | some parts =>
    obtain ⟨before, after⟩ := parts
    obtain ⟨rfl, rfl⟩ := (cut?_eq_some_iff).mp hcut
    cases after with
    | nil => simp at h
    | cons c rest => rfl

theorem charAt?_append_right (a b : Text) (n : Nat) :
    charAt? (a ++ b) (size a + n) = charAt? b n := by
  unfold charAt?
  rw [cut?_append_right]
  cases cut? b n with
  | none => rfl
  | some parts => rfl

/-- At each cutting place before the end there is a character. -/
theorem exists_charAt? {text : Text} {n : Nat} (hcut : text.isBoundary n = true)
    (h : n < size text) : ∃ c, text.charAt? n = some c := by
  obtain ⟨before, after, rfl, rfl⟩ := (isBoundary_iff).mp hcut
  cases after with
  | nil => simp at h
  | cons c rest => exact ⟨c, by simp [charAt?]⟩

end Retouch.Text
