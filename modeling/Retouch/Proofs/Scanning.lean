import Retouch.Proofs.Text
import Retouch.Syntax.Scan.Token

/-!
# Where scanning leads

A scanner goes from one place of a text to another and never leaves the cutting places: what it has
read is the difference between the two. All scanners keep count of offsets on their own, adding one
for each character that is known to be short, so this is a fact about every one of their branches.

- `Place.Reaches`: a place and one ahead of it.
- `skipTrivia_reaches`, `scanKind_reaches`: blanks and comments, and a single token.
- `scanToken_reaches`: the place of the next token and the place after it.
- `startsShort_of_scanToken`: a punctuator starts with a character of one byte.
-/

namespace Retouch.Syntax

/-! ## Places ahead of a place -/

/-- A place that lies ahead of another one: a piece of text has been read between them. -/
def Place.Reaches (p q : Place) : Prop :=
  ∃ read, p.rest = read ++ q.rest ∧ q.offset = p.offset + Text.size read

/-- A text that starts with a character of one byte. -/
def StartsShort (text : Text) : Prop :=
  ∃ c rest, text = c :: rest ∧ c.utf8Size = 1

namespace Place.Reaches

variable {p q r : Place} {rest : Text} {n : Nat}

theorem refl (p : Place) : p.Reaches p := ⟨[], rfl, rfl⟩

theorem trans (h : p.Reaches q) (h' : q.Reaches r) : p.Reaches r := by
  obtain ⟨first, hfirst, hoffset⟩ := h
  obtain ⟨second, hsecond, hoffset'⟩ := h'
  refine ⟨first ++ second, ?_, ?_⟩
  · rw [hfirst, hsecond, List.append_assoc]
  · rw [hoffset', hoffset, Text.size_append, Nat.add_assoc]

theorem offset_le (h : p.Reaches q) : p.offset ≤ q.offset := by
  obtain ⟨read, -, hoffset⟩ := h
  omega

/-- Reading a known piece of text first. -/
theorem read (piece : Text) (h : (Place.mk rest (n + Text.size piece)).Reaches q) :
    (Place.mk (piece ++ rest) n).Reaches q :=
  trans ⟨piece, rfl, rfl⟩ h

/-- Reading one character first. -/
theorem cons {c : Char} (h : (Place.mk rest (n + c.utf8Size)).Reaches q) :
    (Place.mk (c :: rest) n).Reaches q :=
  read [c] h

/-- Reading one character of a single byte first. -/
theorem short {c : Char} (hc : c.utf8Size = 1) (h : (Place.mk rest (n + 1)).Reaches q) :
    (Place.mk (c :: rest) n).Reaches q :=
  cons (hc ▸ h)

end Place.Reaches

/-- The place behind a first character of one byte. -/
theorem StartsShort.reaches {p : Place} (h : StartsShort p.rest) :
    p.Reaches ⟨p.rest.drop 1, p.offset + 1⟩ := by
  obtain ⟨c, rest, hrest, hsize⟩ := h
  refine ⟨[c], ?_, ?_⟩
  · simp [hrest]
  · simp [hsize]

/-! ## Characters of one byte -/

theorem utf8Size_eq_one {c : Char} (h : c.toNat < 128) : c.utf8Size = 1 := by
  have hval : c.val ≤ 127 := UInt32.le_iff_toNat_le.mpr (Nat.le_of_lt_succ h)
  simp [Char.utf8Size, hval]

theorem toNat_lt_of_hexDigit? {c : Char} {d : Nat} (h : hexDigit? c = some d) :
    c.toNat < 128 := by
  simp only [hexDigit?] at h
  split at h
  · next hdigit => simp at hdigit; omega
  split at h
  · next hdigit => simp at hdigit; omega
  split at h
  · next hdigit => simp at hdigit; omega
  · cases h

theorem utf8Size_of_hexDigit? {c : Char} {d : Nat} (h : hexDigit? c = some d) :
    c.utf8Size = 1 :=
  utf8Size_eq_one (toNat_lt_of_hexDigit? h)

theorem utf8Size_of_beq {c d : Char} (h : (c == d) = true) (hd : d.utf8Size = 1) :
    c.utf8Size = 1 :=
  eq_of_beq h ▸ hd

theorem utf8Size_of_digitIn? {base : Nat} {c : Char} {d : Nat} (h : digitIn? base c = some d) :
    c.utf8Size = 1 := by
  unfold digitIn? at h
  split at h
  · next hhex => exact utf8Size_of_hexDigit? hhex
  · cases h

theorem utf8Size_of_isDigit {c : Char} (h : c.isDigit = true) : c.utf8Size = 1 := by
  simp only [Char.isDigit, Bool.and_eq_true, decide_eq_true_eq] at h
  have hle : c.toNat ≤ 57 := UInt32.le_iff_toNat_le.mp h.2
  exact utf8Size_eq_one (by omega)

theorem utf8Size_of_isOctal {c : Char} (h : isOctal c = true) : c.utf8Size = 1 := by
  simp only [isOctal, Bool.and_eq_true, decide_eq_true_eq] at h
  have hle : c.toNat ≤ '7'.toNat := h.2
  exact utf8Size_eq_one (Nat.lt_of_le_of_lt hle (by decide))

theorem utf8Size_of_isOctalEscape {c : Char} {rest : Text} (h : isOctalEscape c rest = true) :
    c.utf8Size = 1 := by
  unfold isOctalEscape at h
  split at h
  · next hzero => rw [eq_of_beq hzero]; rfl
  · exact utf8Size_of_isOctal h

/-! ## Blanks and comments -/

theorem triviaFrom_reaches (text : Text) (n : Nat) (sawBreak : Bool) (notes : List SyntaxError)
    (mode : TriviaMode) :
    (Place.mk text n).Reaches (triviaFrom text n sawBreak notes mode).place := by
  fun_induction triviaFrom text n sawBreak notes mode with
  | case1 | case2 | case14 => exact .refl _
  | case5 _ _ _ _ _ ih => exact .read ['*', '/'] ih
  | case7 _ _ _ _ ih => exact .read ['/', '/'] ih
  | case8 _ _ _ _ ih => exact .read ['/', '*'] ih
  | case9 _ _ _ _ ih => exact .read ['<', '!', '-', '-'] ih
  | case10 _ _ _ ih => exact .read ['-', '-', '>'] ih
  | case3 | case4 | case6 | case11 | case12 | case13 => exact .cons (by assumption)

/-- The place of the next token lies ahead. -/
theorem skipTrivia_reaches (p : Place) : p.Reaches (skipTrivia p).place :=
  triviaFrom_reaches p.rest p.offset _ _ _

theorem skipLine_reaches (text : Text) (n : Nat) : (Place.mk text n).Reaches (skipLine text n) := by
  fun_induction skipLine text n with
  | case1 | case2 => exact .refl _
  | case3 => exact .cons (by assumption)

/-! ## Names -/

theorem nameFrom_reaches (text : Text) (n : Nat) (name : NameSoFar) (mode : NameMode) :
    (Place.mk text n).Reaches (nameFrom text n name mode).place := by
  fun_induction nameFrom text n name mode with
  | case1 | case2 | case3 | case7 | case8 | case9 | case13 | case14 | case16 => exact .refl _
  | case4 _ _ _ ih => exact .read ['\\', 'u', '\x7b'] ih
  | case5 _ _ _ _ ih => exact .read ['\\', 'u'] ih
  | case6 => exact .cons (by assumption)
  | case10 | case11 | case12 => exact .short (utf8Size_of_hexDigit? (by assumption)) (by assumption)
  | case15 => exact .short (utf8Size_of_beq (by assumption) rfl) (by assumption)

theorem nameFrom_part {c : Char} (hc : isNamePart c = true) (rest : Text) (n : Nat)
    (name : NameSoFar) :
    nameFrom (c :: rest) n name .plain = nameFrom rest (n + c.utf8Size) (name.push c) .plain := by
  have hescape : c ≠ '\\' := by
    rintro rfl
    exact absurd hc (by decide)
  rw [nameFrom]
  · rw [hc]
    rfl
  · exact fun _ h => absurd h hescape
  · exact fun _ h => absurd h hescape

theorem scanName_reaches (p : Place) : p.Reaches (scanName p).place :=
  nameFrom_reaches p.rest p.offset _ _

theorem scanNameParts_reaches (text : Text) (n : Nat) :
    (Place.mk text n).Reaches (scanNameParts text n).2 := by
  fun_induction scanNameParts text n with
  | case1 | case3 => exact .refl _
  | case2 n c rest hpart chars place hrest ih =>
    rw [hrest] at ih
    exact .cons ih

/-! ## Numbers -/

theorem digitsFrom_reaches (base start : Nat) (text : Text) (n value count : Nat) (bad : Bool) :
    (Place.mk text n).Reaches (digitsFrom base start text n value count bad).place := by
  fun_induction digitsFrom base start text n value count bad with
  | case1 | case4 => exact .refl _
  | case2 => exact .short (utf8Size_of_digitIn? (by assumption)) (by assumption)
  | case3 => exact .short (utf8Size_of_beq (by assumption) rfl) (by assumption)

theorem scanDigits_reaches (base : Nat) (p : Place) : p.Reaches (scanDigits base p).place :=
  digitsFrom_reaches base p.offset p.rest p.offset 0 0 false

theorem endNumber_place (kind : TokenKind) (notes : List SyntaxError) (p : Place) :
    (endNumber kind notes p).place = p := by
  unfold endNumber
  split
  · split <;> rfl
  · rfl

theorem scanRadix_reaches (base : Nat) (p : Place) : p.Reaches (scanRadix base p).place := by
  have hdigits := scanDigits_reaches base p
  unfold scanRadix
  extract_lets digits notes
  split
  · exact hdigits
  split
  · next rest hrest =>
    rw [endNumber_place]
    exact hdigits.trans ⟨['n'], hrest, rfl⟩
  · rw [endNumber_place]
    exact hdigits

theorem scanExponent_reaches (p : Place) : p.Reaches (scanExponent p).place := by
  obtain ⟨text, n⟩ := p
  cases text with
  | nil => exact .refl _
  | cons c rest =>
    simp only [scanExponent]
    split
    · next hexp =>
      have hc : c.utf8Size = 1 := by
        rcases Bool.or_eq_true_iff.mp hexp with h | h
        · exact utf8Size_of_beq h rfl
        · exact utf8Size_of_beq h rfl
      apply Place.Reaches.short hc
      -- a sign between the letter and the digits
      split
      · exact .read ['-'] (scanDigits_reaches 10 _)
      · exact .read ['+'] (scanDigits_reaches 10 _)
      · exact scanDigits_reaches 10 _
    · exact .refl _

theorem scanFraction_reaches (whole : Nat) (notes : List SyntaxError) (p : Place) :
    p.Reaches (scanFraction whole notes p).place := by
  obtain ⟨text, n⟩ := p
  unfold scanFraction
  extract_lets fraction exponent notes'
  have hfraction : (Place.mk text n).Reaches fraction.place := by
    unfold fraction
    split
    · next rest hrest =>
      obtain rfl : text = '.' :: rest := hrest
      exact .read ['.'] (digitsFrom_reaches ..)
    · exact .refl _
  have hexponent := hfraction.trans (scanExponent_reaches fraction.place)
  split
  · exact hexponent
  · rw [endNumber_place]
    exact hexponent

theorem decimal_reaches (p : Place) : p.Reaches (scanNumber.decimal p).place := by
  have hwhole := scanDigits_reaches 10 p
  unfold scanNumber.decimal
  extract_lets whole notes
  split
  · next rest hrest =>
    rw [endNumber_place]
    exact hwhole.trans ⟨['n'], hrest, rfl⟩
  · exact hwhole.trans (scanFraction_reaches ..)

/-- A number in a base of its own, after the zero and the letter that announce it. -/
theorem scanRadix_reaches_behind (base : Nat) {rest : Text} {n : Nat} {x y z : Char}
    (hx : (x == y || x == z) = true) (hy : y.utf8Size = 1) (hz : z.utf8Size = 1) :
    (Place.mk ('0' :: x :: rest) n).Reaches (scanRadix base ⟨rest, n + 2⟩).place := by
  have hsize : x.utf8Size = 1 := by
    rcases Bool.or_eq_true_iff.mp hx with h | h
    · exact utf8Size_of_beq h hy
    · exact utf8Size_of_beq h hz
  exact .short rfl (.short hsize (scanRadix_reaches base ⟨rest, n + 2⟩))

theorem scanNumber_reaches (p : Place) : p.Reaches (scanNumber p).place := by
  obtain ⟨text, n⟩ := p
  unfold scanNumber
  extract_lets start
  split
  · next x rest hrest =>
    obtain rfl : text = '0' :: x :: rest := hrest
    split
    · next hx => exact scanRadix_reaches_behind 16 hx rfl rfl
    split
    · next hx => exact scanRadix_reaches_behind 8 hx rfl rfl
    split
    · next hx => exact scanRadix_reaches_behind 2 hx rfl rfl
    split
    · split
      · rw [endNumber_place]
        exact scanDigits_reaches 8 _
      · exact (scanDigits_reaches 10 _).trans (scanFraction_reaches ..)
    · exact decimal_reaches _
  · exact decimal_reaches _

/-! ## Strings -/

theorem stringFrom_reaches (start : Nat) {quote : Char} (hquote : quote.utf8Size = 1) (text : Text)
    (n : Nat) (done : CodePoints) (notes : List SyntaxError) (mode : StringMode) :
    (Place.mk text n).Reaches (stringFrom start quote text n done notes mode).place := by
  fun_induction stringFrom start quote text n done notes mode with
  | case1 | case4 | case14 | case18 | case19 | case21 => exact .refl _
  | case2 => exact .short (utf8Size_of_beq (by assumption) hquote) (.refl _)
  | case3 | case12 | case20 => exact .short (utf8Size_of_beq (by assumption) rfl) (by assumption)
  | case5 | case10 | case13 => exact .cons (by assumption)
  | case6 _ _ _ _ _ ih => exact .read ['x'] ih
  | case7 _ _ _ _ _ ih => exact .read ['u', '\x7b'] ih
  | case8 _ _ _ _ _ _ ih => exact .read ['u'] ih
  | case9 _ _ _ _ _ ih => exact .read ['\r', '\n'] ih
  | case11 => exact .short (utf8Size_of_isOctalEscape (by assumption)) (by assumption)
  | case15 | case16 | case17 => exact .short (utf8Size_of_hexDigit? (by assumption)) (by assumption)

theorem scanString_reaches {p : Place} {c : Char} {rest : Text} (hp : p.rest = c :: rest)
    (hc : c.utf8Size = 1) : p.Reaches (scanString p).place := by
  obtain ⟨text, n⟩ := p
  obtain rfl : text = c :: rest := hp
  exact .short hc (stringFrom_reaches n hc ..)

/-- A piece of a template: the place where it stops, and the place after the sign that ends it. -/
theorem quasiFrom_reaches (text : Text) (n : Nat) (done : Text) :
    ∃ stop : Place, stop.offset = (quasiFrom text n done).stop ∧
      (Place.mk text n).Reaches stop ∧ stop.Reaches (quasiFrom text n done).place := by
  fun_induction quasiFrom text n done with
  | case1 n done => exact ⟨⟨[], n⟩, rfl, .refl _, .refl _⟩
  | case2 rest n done => exact ⟨⟨_, n⟩, rfl, .refl _, .read ['$', '\x7b'] (.refl _)⟩
  | case3 rest n done ih =>
    obtain ⟨stop, hstop, hreaches, hplace⟩ := ih
    exact ⟨stop, hstop, .read ['\\', '\r', '\n'] hreaches, hplace⟩
  | case4 c rest n done _ ih =>
    obtain ⟨stop, hstop, hreaches, hplace⟩ := ih
    exact ⟨stop, hstop, .short rfl (.cons hreaches), hplace⟩
  | case5 rest n done ih =>
    obtain ⟨stop, hstop, hreaches, hplace⟩ := ih
    exact ⟨stop, hstop, .read ['\r', '\n'] hreaches, hplace⟩
  | case6 c rest n done _ _ _ _ hquote =>
    have hc : c.utf8Size = 1 := utf8Size_eq_one (by rw [eq_of_beq hquote]; decide)
    exact ⟨⟨_, n⟩, rfl, .refl _, .short hc (.refl _)⟩
  | case7 c rest n done _ _ _ _ _ ih =>
    obtain ⟨stop, hstop, hreaches, hplace⟩ := ih
    exact ⟨stop, hstop, .cons hreaches, hplace⟩

theorem regexFrom_reaches {text : Text} {n : Nat} {done body : Text} {mode : RegexMode} {p : Place}
    (h : regexFrom text n done mode = some (body, p)) :
    (Place.mk text n).Reaches p := by
  induction text generalizing n done mode with
  | nil => cases h
  | cons c rest ih =>
    rw [regexFrom] at h
    split at h
    · cases h
    · cases mode with
      | escape inSet => exact .cons (ih h)
      | set =>
        dsimp only at h
        split at h
        · exact .cons (ih h)
        split at h
        · exact .cons (ih h)
        · exact .cons (ih h)
      | plain =>
        dsimp only at h
        split at h
        · next hslash =>
          cases h
          exact .short (utf8Size_of_beq hslash rfl) (.refl _)
        split at h
        · exact .cons (ih h)
        split at h
        · exact .cons (ih h)
        · exact .cons (ih h)

theorem scanRegex_reaches {p : Place} {regex : ScannedRegex} (h : scanRegex p = some regex) :
    p.Reaches regex.place := by
  unfold scanRegex at h
  split at h
  · cases h
  · next body place hbody =>
    cases h
    exact (regexFrom_reaches hbody).trans (scanNameParts_reaches place.rest place.offset)

/-! ## Punctuators -/

/-- A punctuator has as many bytes as characters, and none of them is missing. -/
theorem size_of_signOf {text : Text} {sign : Punct} {length : Nat}
    (h : signOf text = some (sign, length)) :
    Text.size (text.take length) = length ∧ StartsShort text := by
  unfold signOf at h
  split at h
  case h_59 =>
    split at h
    · next hquote =>
      cases h
      have hc := utf8Size_eq_one (Nat.lt_of_le_of_lt (Nat.le_of_eq (eq_of_beq hquote)) (by decide))
      exact ⟨by simp [hc], _, _, rfl, hc⟩
    · cases h
  case h_60 => cases h
  all_goals
    cases h
    exact ⟨rfl, _, _, rfl, rfl⟩

theorem scanSign_reaches {p q : Place} {sign : Punct} (h : scanSign p = some (sign, q)) :
    p.Reaches q ∧ StartsShort p.rest := by
  obtain ⟨⟨found, length⟩, hfound, heq⟩ := Option.map_eq_some_iff.mp h
  cases heq
  obtain ⟨hsize, hshort⟩ := size_of_signOf hfound
  exact ⟨⟨p.rest.take length, (List.take_append_drop ..).symm, by simp [hsize]⟩, hshort⟩

/-! ## Tokens -/

theorem wordKind_ne_punct (strict : Bool) (start : Nat) (name : ScannedName) (sign : Punct) :
    wordKind strict start name ≠ .punct sign := by
  unfold wordKind
  split
  · exact nofun
  extract_lets text
  split
  · exact nofun
  split
  · exact nofun
  · exact nofun

/-- The place after a token lies ahead, and a punctuator starts with a short character. -/
theorem scanKind_reaches (strict : Bool) (p : Place) :
    p.Reaches (scanKind strict p).2.2 ∧
      ∀ sign, (scanKind strict p).1 = .punct sign → StartsShort p.rest := by
  obtain ⟨text, n⟩ := p
  unfold scanKind
  split
  · exact ⟨.refl _, nofun⟩
  · next c rest hrest =>
    obtain rfl : text = c :: rest := hrest
    split
    · exact ⟨scanName_reaches _, fun sign h => absurd h (wordKind_ne_punct strict n _ sign)⟩
    split
    · next hdigit =>
      have hc : c.utf8Size = 1 := by
        rcases Bool.or_eq_true_iff.mp hdigit with h | h
        · exact utf8Size_of_isDigit h
        · exact utf8Size_of_beq (Bool.and_eq_true_iff.mp h).1 rfl
      exact ⟨scanNumber_reaches _, fun _ _ => ⟨c, rest, rfl, hc⟩⟩
    split
    · next hquote =>
      have hc : c.utf8Size = 1 := by
        rcases Bool.or_eq_true_iff.mp hquote with h | h
        · exact utf8Size_of_beq h rfl
        · exact utf8Size_of_beq h rfl
      exact ⟨scanString_reaches rfl hc, fun _ _ => ⟨c, rest, rfl, hc⟩⟩
    split
    · next hsign =>
      obtain ⟨hreaches, hshort⟩ := scanSign_reaches hsign
      exact ⟨hreaches, fun _ _ => hshort⟩
    · exact ⟨.cons (.refl _), nofun⟩

theorem scanToken_here (p : Place) (strict : Bool) :
    (scanToken p strict).here = (skipTrivia p).place := by
  unfold scanToken
  extract_lets trivia here
  split
  · rfl
  · rfl

/-- A token starts and ends ahead of the place where it is looked for. -/
theorem scanToken_reaches (p : Place) (strict : Bool) :
    p.Reaches (scanToken p strict).here ∧
      (scanToken p strict).here.Reaches (scanToken p strict).after := by
  refine ⟨scanToken_here p strict ▸ skipTrivia_reaches p, ?_⟩
  unfold scanToken
  extract_lets trivia here
  split
  · exact .refl _
  · exact (scanKind_reaches strict here).1

theorem scanToken_span (p : Place) (strict : Bool) :
    (scanToken p strict).token.start = (scanToken p strict).here.offset ∧
      (scanToken p strict).token.stop = (scanToken p strict).after.offset := by
  unfold scanToken
  extract_lets trivia here
  split
  · exact ⟨rfl, rfl⟩
  · exact ⟨rfl, rfl⟩

theorem startsShort_of_scanToken {p : Place} {strict : Bool} {sign : Punct}
    (h : (scanToken p strict).token.kind = .punct sign) :
    StartsShort (scanToken p strict).here.rest := by
  rw [scanToken_here]
  unfold scanToken at h
  extract_lets trivia here at h
  split at h
  · cases h
  · exact (scanKind_reaches strict here).2 sign h

end Retouch.Syntax
