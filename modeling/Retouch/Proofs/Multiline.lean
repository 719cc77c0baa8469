import Retouch.Proofs.Indenting
import Retouch.Proofs.Lexing

/-!
# Lexemes of several lines

Strings with a line continuation, pieces of templates, and strings and text in markup may hold line
feeds. Names, numbers, signs and regular expressions may not.

- `OnLine`: what has been read of a text holds no line feed.
- `Lexeme.Takes.onLine_or_ink`: a lexeme is part of a line, or it ends with ink.
- `Lexeme.Takes.moved`: a lexeme stays one of its kind when its lines are moved.
-/

namespace Retouch.Syntax

open Text (isSpace isIndent)

/-! ## Scanners that stay on a line -/

/-- What has been read of a text, up to the rest of it, holds no line feed. -/
def OnLine (text rest : Text) : Prop := ∃ read, text = read ++ rest ∧ '\n' ∉ read

namespace OnLine

variable {x y z : Text}

theorem refl (x : Text) : OnLine x x := ⟨[], rfl, nofun⟩

theorem trans (h : OnLine x y) (h' : OnLine y z) : OnLine x z := by
  obtain ⟨first, rfl, hfirst⟩ := h
  obtain ⟨second, rfl, hsecond⟩ := h'
  exact ⟨first ++ second, (List.append_assoc ..).symm, by simp [hfirst, hsecond]⟩

/-- Reading a known piece of text first. -/
theorem read (piece : Text) (hpiece : '\n' ∉ piece) (h : OnLine x y) : OnLine (piece ++ x) y :=
  trans ⟨piece, rfl, hpiece⟩ h

/-- Reading a character first that belongs to a class without the line feed. -/
theorem cons {c : Char} {p : Char → Bool} (hc : p c = true) (hp : p '\n' = false)
    (h : OnLine x y) : OnLine (c :: x) y := by
  refine read [c] ?_ h
  rw [List.mem_singleton]
  rintro rfl
  cases hp.symm.trans hc

theorem not_mem {w : Text} (h : OnLine (w ++ y) y) : '\n' ∉ w := by
  obtain ⟨read, hread, hnot⟩ := h
  rwa [List.append_cancel_right hread]

end OnLine

theorem hexDigit?_onLine {c : Char} {d : Nat} {x y : Text} (hc : hexDigit? c = some d)
    (h : OnLine x y) : OnLine (c :: x) y :=
  .cons (p := fun c => (hexDigit? c).isSome) (by rw [hc]; rfl) (by decide) h

theorem nameFrom_onLine (text : Text) (n : Nat) (name : NameSoFar) (mode : NameMode) :
    OnLine text (nameFrom text n name mode).place.rest := by
  fun_induction nameFrom text n name mode with
  | case1 | case2 | case3 | case7 | case8 | case9 | case13 | case14 | case16 => exact .refl _
  | case4 _ _ _ ih => exact .read ['\\', 'u', '\x7b'] (by decide) ih
  | case5 _ _ _ _ ih => exact .read ['\\', 'u'] (by decide) ih
  | case6 => exact .cons (p := isNamePart) (by assumption) (by decide) (by assumption)
  | case10 | case11 | case12 => exact hexDigit?_onLine (by assumption) (by assumption)
  | case15 => exact .cons (p := (· == '\x7d')) (by assumption) (by decide) (by assumption)

theorem scanNameParts_onLine (text : Text) (n : Nat) : OnLine text (scanNameParts text n).2.rest := by
  fun_induction scanNameParts text n with
  | case1 | case3 => exact .refl _
  | case2 n c rest hpart chars place hrest ih =>
    rw [hrest] at ih
    exact .cons hpart (by decide) ih

theorem digitsFrom_onLine (base start : Nat) (text : Text) (n value count : Nat) (bad : Bool) :
    OnLine text (digitsFrom base start text n value count bad).place.rest := by
  fun_induction digitsFrom base start text n value count bad with
  | case1 | case4 => exact .refl _
  | case2 =>
    exact .cons (continuesNumber_of_digitIn? (by assumption)) (by decide) (by assumption)
  | case3 => exact .cons (p := (· == '_')) (by assumption) (by decide) (by assumption)

theorem scanDigits_onLine (base : Nat) (text : Text) (n : Nat) :
    OnLine text (scanDigits base ⟨text, n⟩).place.rest :=
  digitsFrom_onLine base n text n 0 0 false

theorem orBigint_onLine (value offset : Nat) (notes : List SyntaxError)
    {other : Text → ScannedNumber} {text : Text} (hother : OnLine text (other text).place.rest) :
    OnLine text (orBigint value notes offset other text).place.rest := by
  unfold orBigint
  split
  · rw [endNumber_place]
    exact .read ['n'] (by decide) (.refl _)
  · exact hother

theorem scanRadix_onLine (base : Nat) (text : Text) (n : Nat) :
    OnLine text (scanRadix base ⟨text, n⟩).place.rest := by
  have hdigits := scanDigits_onLine base text n
  rw [scanRadix_eq]
  split
  · exact hdigits
  · refine hdigits.trans (orBigint_onLine _ _ _ ?_)
    rw [endNumber_place]
    exact .refl _

theorem scanExponent_onLine (text : Text) (n : Nat) :
    OnLine text (scanExponent ⟨text, n⟩).place.rest := by
  cases text with
  | nil => exact .refl _
  | cons c rest =>
    rw [scanExponent_cons]
    split
    · next hletter =>
      refine .cons (p := fun c => c == 'e' || c == 'E') hletter (by decide) ?_
      unfold afterSign
      split
      · exact .read ['-'] (by decide) (scanDigits_onLine 10 _ (n + 2))
      · exact .read ['+'] (by decide) (scanDigits_onLine 10 _ (n + 2))
      · exact scanDigits_onLine 10 rest (n + 1)
    · exact .refl _

theorem fractionOf_onLine (whole n : Nat) (text : Text) :
    OnLine text (fractionOf whole n text).place.rest := by
  unfold fractionOf
  split
  · exact .read ['.'] (by decide) (digitsFrom_onLine ..)
  · exact .refl _

theorem scanFraction_onLine (whole : Nat) (notes : List SyntaxError) (text : Text) (n : Nat) :
    OnLine text (scanFraction whole notes ⟨text, n⟩).place.rest := by
  rw [scanFraction_eq, numberOf_place]
  exact (fractionOf_onLine whole n text).trans (scanExponent_onLine _ _)

theorem decimal_onLine (text : Text) (n : Nat) :
    OnLine text (scanNumber.decimal ⟨text, n⟩).place.rest := by
  rw [decimal_eq]
  exact (scanDigits_onLine 10 text n).trans (orBigint_onLine _ _ _ (scanFraction_onLine ..))

theorem legacyNumber_onLine (text : Text) (n : Nat) :
    OnLine text (legacyNumber ⟨text, n⟩).place.rest := by
  unfold legacyNumber
  split
  · rw [endNumber_place]
    exact scanDigits_onLine 8 text n
  · exact (scanDigits_onLine 10 text n).trans (scanFraction_onLine ..)

theorem scanNumber_onLine (text : Text) (n : Nat) :
    OnLine text (scanNumber ⟨text, n⟩).place.rest := by
  cases text with
  | nil => exact decimal_onLine [] n
  | cons c text =>
    by_cases hzero : c = '0' → text.head?.any joinsZero = false
    · rw [scanNumber_decimal n hzero]
      exact decimal_onLine _ n
    · obtain ⟨rfl, hjoins⟩ : c = '0' ∧ text.head?.any joinsZero ≠ false := by
        simpa using hzero
      cases text with
      | nil => exact absurd rfl hjoins
      | cons x rest =>
        have hx : continuesNumber x = true :=
          continuesNumber_of_joinsZero (by simpa using hjoins)
        rw [scanNumber_zero]
        split
        · exact .read ['0'] (by decide) (.cons hx (by decide) (scanRadix_onLine _ rest (n + 2)))
        · split
          · exact legacyNumber_onLine _ n
          · exact decimal_onLine _ n

theorem regexFrom_onLine {text body : Text} {n : Nat} {done : Text} {mode : RegexMode} {p : Place}
    (h : regexFrom text n done mode = some (body, p)) : OnLine text p.rest := by
  induction text generalizing n done mode with
  | nil => cases h
  | cons c rest ih =>
    rw [regexFrom_cons] at h
    split at h
    · cases h
    · next hbreak =>
      refine .cons (p := fun c => !isLineBreak c) (by simpa using hbreak) (by decide) ?_
      split at h
      · cases h
        exact .refl _
      · exact ih h

theorem skipUntil_onLine {test : Char → Bool} (htest : test '\n' = true) (text : Text) (n : Nat) :
    OnLine text (Parser.skipUntil test text n).rest := by
  induction text generalizing n with
  | nil => exact .refl _
  | cons c rest ih =>
    rw [Parser.skipUntil]
    split
    · exact .refl _
    · next hc =>
      exact .cons (p := fun c => !test c) (by simpa using hc) (by rw [htest]; rfl) (ih _)

/-! ## Strings -/

theorem isSpace_quote {c : Char} (hc : (c == '"' || c == '\x27') = true) :
    isSpace c = false ∧ c.utf8Size = 1 := by
  rcases Bool.or_eq_true_iff.mp hc with h | h
  · rw [eq_of_beq h]
    decide
  · rw [eq_of_beq h]
    decide

/-- A mode with another place of its escape. -/
def StringMode.at (k : Nat) : StringMode → StringMode
  | .plain => .plain
  | .escape _ => .escape k
  | .fixed _ short left value => .fixed k short left value
  | .braced _ count value => .braced k count value

/-- A string has been read up to a text. -/
def ScannedString.EndsAt (string : ScannedString) (y : Text) : Prop :=
  string.kind.isBad = false ∧ string.place.rest = y

section

variable {start : Nat} {quote : Char} {n : Nat} {done : CodePoints} {notes : List SyntaxError}

theorem stringFrom_plain {c : Char} (hquote : (c == quote) = false) (hescape : (c == '\\') = false)
    (hbreak : (c == '\n' || c == '\r') = false) (rest : Text) :
    stringFrom start quote (c :: rest) n done notes .plain =
      stringFrom start quote rest (n + c.utf8Size) (c.toNat :: done) notes .plain := by
  simp [stringFrom, hquote, hescape, Bool.or_eq_false_iff.mp hbreak]

/-- Behind a backslash, a character that does not start a number is passed over. -/
theorem exists_stringFrom_escape {c : Char} {rest : Text} (hx : c ≠ 'x') (hu : c ≠ 'u')
    (hr : c = '\r' → rest.head? ≠ some '\n') (k : Nat) :
    ∃ n' done' notes', stringFrom start quote (c :: rest) n done notes (.escape k) =
      stringFrom start quote rest n' done' notes' .plain := by
  rw [stringFrom.eq_7 start quote n done notes c rest k hx (fun _ h => absurd h hu) hu
    fun rest' hc h => hr hc (by rw [h]; rfl)]
  split
  · exact ⟨_, _, _, rfl⟩
  split
  · exact ⟨_, _, _, rfl⟩
  split
  · exact ⟨_, _, _, rfl⟩
  · exact ⟨_, _, _, rfl⟩

/-- Indentation in a string is passed over. -/
theorem stringFrom_indent {q t y : Text} (hquote : isSpace quote = false)
    (hq : ∀ d ∈ q, isIndent d = true)
    (h : ∀ start n done notes, (stringFrom start quote t n done notes .plain).EndsAt y) :
    (stringFrom start quote (q ++ t) n done notes .plain).EndsAt y := by
  induction q generalizing n done with
  | nil => exact h start n done notes
  | cons d q ih =>
    have hd := hq d List.mem_cons_self
    have hspace := isSpace_of_isLineSpace (isLineSpace_of_isIndent hd)
    have hne (c : Char) (hc : isIndent c = false) : (d == c) = false := by
      rw [beq_eq_false_iff_ne]
      rintro rfl
      cases hc.symm.trans hd
    have hend : (d == quote) = false := by
      rw [beq_eq_false_iff_ne]
      rintro rfl
      cases hquote.symm.trans hspace
    rw [List.cons_append, stringFrom_plain hend (hne '\\' (by decide))
      (by rw [hne '\n' (by decide), hne '\r' (by decide)]; rfl)]
    exact ih fun d hd => hq d (List.mem_cons_of_mem _ hd)

end

/-- The rest of a string, from a mode on, ends with the closing quote, and still does when its lines
are moved. -/
def ClosesMoved (quote : Char) (y w : Text) (mode : StringMode) : Prop :=
  [quote] <:+ w ∧ ∀ b u, Moved b w u → (b = true → mode = .plain) → ∀ start n done notes k,
    (stringFrom start quote (u ++ y) n done notes (mode.at k)).EndsAt y

namespace ClosesMoved

variable {quote c : Char} {y more : Text} {mode mode' : StringMode}

theorem close (hquote : isSpace quote = false) : ClosesMoved quote y [quote] .plain := by
  have hnewline : quote ≠ '\n' := by
    rintro rfl
    cases hquote
  refine ⟨List.suffix_refl _, fun b u hmoved _ start n done notes k => ?_⟩
  obtain ⟨q, t, rfl, hq, -, ⟨t', rfl, ht⟩ | ⟨-, hspace, -⟩⟩ := hmoved.exists_of_cons
  · rw [beq_eq_false_iff_ne.mpr hnewline] at ht
    rw [ht.eq_nil, List.append_assoc]
    refine stringFrom_indent hquote hq fun start n done notes => ?_
    simp [stringFrom, ScannedString.EndsAt, TokenKind.isBad]
  · cases hquote.symm.trans (isSpace_of_isLineSpace hspace)

/-- One step inside an escape, which reads a character and maybe others before it. -/
theorem escape (h : ClosesMoved quote y more mode') (piece : Text) (hpiece : '\n' ∉ piece)
    (hplain : mode ≠ .plain) (hline : c = '\n' → mode' = .plain)
    (hstep : ∀ t start n done notes k, (c ≠ '\n' → t.head? = more.head?) →
      ∃ n' done' notes' k', stringFrom start quote (piece ++ c :: (t ++ y)) n done notes (mode.at k) =
        stringFrom start quote (t ++ y) n' done' notes' (mode'.at k')) :
    ClosesMoved quote y (piece ++ c :: more) mode := by
  refine ⟨h.1.trans ((List.suffix_cons c more).trans (List.suffix_append piece _)), ?_⟩
  intro b u hmoved hb start n done notes k
  obtain rfl : b = false := Bool.eq_false_iff.mpr fun h => hplain (hb h)
  obtain ⟨_, rfl, hkept⟩ := hmoved.exists_append hpiece
  obtain ⟨t, rfl, ht⟩ := hkept.exists_cons
  have hhead (hc : c ≠ '\n') : t.head? = more.head? := by
    rw [beq_eq_false_iff_ne.mpr hc] at ht
    exact ht.head?_eq
  obtain ⟨n', done', notes', k', hstep⟩ := hstep t start n done notes k hhead
  rw [List.append_assoc, List.cons_append, hstep]
  exact h.2 _ t ht (fun hc => hline (eq_of_beq hc)) start n' done' notes' k'

/-- One step outside of escapes. White space that is dropped was part of the string. -/
theorem plain (h : ClosesMoved quote y more mode') (hquote : isSpace quote = false) (hc : c ≠ '\n')
    (hdrop : isLineSpace c = true → mode' = .plain)
    (hstep : ∀ t start n done notes, ∃ n' done' k', stringFrom start quote (c :: t) n done notes .plain =
      stringFrom start quote t n' done' notes (mode'.at k')) :
    ClosesMoved quote y (c :: more) .plain := by
  refine ⟨h.1.trans (List.suffix_cons c more), fun b u hmoved _ start n done notes _ => ?_⟩
  obtain ⟨q, t, rfl, hq, -, ⟨t, rfl, ht⟩ | ⟨-, hspace, ht⟩⟩ := hmoved.exists_of_cons
  · rw [List.append_assoc]
    refine stringFrom_indent hquote hq fun start n done notes => ?_
    obtain ⟨n', done', k', hstep⟩ := hstep (t ++ y) start n done notes
    rw [List.cons_append, hstep]
    rw [beq_eq_false_iff_ne.mpr hc] at ht
    exact h.2 false t ht nofun start n' done' notes k'
  · obtain rfl := hdrop hspace
    rw [List.append_assoc]
    exact stringFrom_indent hquote hq fun start n done notes =>
      h.2 true t ht (fun _ => rfl) start n done notes n

end ClosesMoved

/-- A string is closed at the same quote when its lines are moved. A line feed in it stands behind a
backslash, so the white space that follows is part of the string. -/
theorem closesMoved_of_endsAt {start : Nat} {quote : Char} (hsize : quote.utf8Size = 1)
    (hquote : isSpace quote = false) {w y : Text} {n : Nat}
    {done : CodePoints} {notes : List SyntaxError} {mode : StringMode}
    (h : (stringFrom start quote (w ++ y) n done notes mode).EndsAt y) :
    ClosesMoved quote y w mode := by
  have hread (read : Text) {rest : Text} {n' : Nat} {done' : CodePoints}
      {notes' : List SyntaxError} {mode' : StringMode} {w : Text} (htext : w ++ y = read ++ rest)
      (h : (stringFrom start quote rest n' done' notes' mode').EndsAt y) :
      ∃ more, w = read ++ more ∧ rest = more ++ y ∧ more ≠ [] := by
    have hlength := (stringFrom_reaches start hsize rest n' done' notes' mode').length_le
    rw [h.2] at hlength
    obtain ⟨more, rfl, rfl⟩ := exists_split read htext hlength
    refine ⟨more, rfl, rfl, ?_⟩
    rintro rfl
    exact stringFrom_ne hsize h.1 h.2
  -- what an escape of one character looks at is the same in the moved text
  have hescape {c : Char} {more : Text} {backslash : Nat} (hmore : more ≠ []) (hx : c ≠ 'x')
      (hu : c ≠ 'u') (hr : ∀ rest, c = '\r' → more ++ y = '\n' :: rest → False)
      (h : ClosesMoved quote y more .plain) : ClosesMoved quote y ([c] ++ more) (.escape backslash) := by
    refine h.escape [] List.not_mem_nil (by rintro ⟨⟩) (fun _ => rfl)
      fun t start n done notes k hhead => ?_
    obtain ⟨d, more, rfl⟩ := List.exists_cons_of_ne_nil hmore
    have hnot (hc : c = '\r') : (t ++ y).head? ≠ some '\n' := by
      have ht : t.head? = some d := hhead (by rw [hc]; decide)
      obtain ⟨t, rfl⟩ := List.head?_eq_some_iff.mp ht
      intro hd
      exact hr (more ++ y) hc (by rw [Option.some.inj hd]; rfl)
    obtain ⟨n', done', notes', hstep⟩ := exists_stringFrom_escape hx hu hnot k
    exact ⟨n', done', notes', 0, hstep⟩
  have hdigit {c : Char} {d : Nat} (hd : hexDigit? c = some d) : c ≠ '\n' := by
    rintro rfl
    cases hd
  generalize htext : w ++ y = text at h
  fun_induction stringFrom start quote text n done notes mode generalizing w with
  | case1 | case4 | case14 | case18 | case19 | case21 => cases h.1
  | case2 c rest n done notes hc =>
    obtain rfl : rest = y := h.2
    obtain rfl : w = [c] := List.append_cancel_right htext
    obtain rfl : c = quote := eq_of_beq hc
    exact .close hquote
  | case3 c rest n done notes hc hbackslash ih =>
    obtain ⟨more, rfl, rfl, -⟩ := hread [c] htext h
    obtain rfl : c = '\\' := eq_of_beq hbackslash
    refine (ih rfl h).plain hquote (by decide) (fun hspace => absurd hspace (by decide))
      fun t start n done notes => ⟨n + 1, done, n, ?_⟩
    simp [stringFrom, hc, StringMode.at]
  | case5 c rest n done notes hc hbackslash hbreak ih =>
    obtain ⟨more, rfl, rfl, -⟩ := hread [c] htext h
    simp only [Bool.not_eq_true] at hc hbackslash hbreak
    refine (ih rfl h).plain hquote ?_ (fun _ => rfl) fun t start n done notes =>
      ⟨_, _, 0, stringFrom_plain hc hbackslash hbreak t⟩
    rintro rfl
    cases hbreak
  | case6 rest n done notes backslash ih =>
    obtain ⟨more, rfl, rfl, -⟩ := hread ['x'] htext h
    exact (ih rfl h).escape [] List.not_mem_nil (by rintro ⟨⟩) (fun hc => absurd hc (by decide))
      fun t start n done notes k _ => ⟨n + 1, done, notes, k, rfl⟩
  | case7 rest n done notes backslash ih =>
    obtain ⟨more, rfl, rfl, -⟩ := hread ['u', '\x7b'] htext h
    exact (ih rfl h).escape ['u'] (by decide) (by rintro ⟨⟩) (fun hc => absurd hc (by decide))
      fun t start n done notes k _ => ⟨n + 2, done, notes, k, rfl⟩
  | case8 rest n done notes backslash hbrace ih =>
    obtain ⟨more, rfl, rfl, hmore⟩ := hread ['u'] htext h
    refine (ih rfl h).escape [] List.not_mem_nil (by rintro ⟨⟩) (fun hc => absurd hc (by decide))
      fun t start n done notes k hhead => ⟨n + 1, done, notes, k, ?_⟩
    obtain ⟨d, more, rfl⟩ := List.exists_cons_of_ne_nil hmore
    obtain ⟨t, rfl⟩ := List.head?_eq_some_iff.mp (hhead (by decide))
    exact stringFrom.eq_5 _ _ _ _ _ _ _ fun rest' h => hbrace (more ++ y) (by cases h; rfl)
  | case9 rest n done notes backslash ih =>
    obtain ⟨more, rfl, rfl, -⟩ := hread ['\r', '\n'] htext h
    exact (ih rfl h).escape ['\r'] (by decide) (by rintro ⟨⟩) (fun _ => rfl)
      fun t start n done notes k _ => ⟨n + 2, done, notes, k, rfl⟩
  | case10 c rest n done notes backslash hx _ hu hr hbreak ih
  | case11 c rest n done notes backslash hx _ hu hr hbreak hoctal ih
  | case12 c rest n done notes backslash hx _ hu hr hbreak hoctal hzero ih
  | case13 c rest n done notes backslash hx _ hu hr hbreak hoctal hzero ih =>
    obtain ⟨more, rfl, rfl, hmore⟩ := hread [c] htext h
    exact hescape hmore hx hu hr (ih rfl h)
  | case15 c rest n done notes backslash short left value d hd hleft ih =>
    obtain ⟨more, rfl, rfl, -⟩ := hread [c] htext h
    refine (ih rfl h).escape [] List.not_mem_nil (by rintro ⟨⟩) (fun hc => absurd hc (hdigit hd))
      fun t start n done notes k _ => ⟨n + 1, (16 * value + d) :: done, notes, k, ?_⟩
    simp [stringFrom, hd, hleft, StringMode.at]
  | case16 c rest n done notes backslash short left value d hd hleft ih =>
    obtain ⟨more, rfl, rfl, -⟩ := hread [c] htext h
    refine (ih rfl h).escape [] List.not_mem_nil (by rintro ⟨⟩) (fun hc => absurd hc (hdigit hd))
      fun t start n done notes k _ => ⟨n + 1, done, notes, k, ?_⟩
    simp [stringFrom, hd, hleft, StringMode.at]
  | case17 c rest n done notes backslash count value d hd ih =>
    obtain ⟨more, rfl, rfl, -⟩ := hread [c] htext h
    refine (ih rfl h).escape [] List.not_mem_nil (by rintro ⟨⟩) (fun hc => absurd hc (hdigit hd))
      fun t start n done notes k _ => ⟨n + 1, done, notes, k, ?_⟩
    simp [stringFrom, hd, StringMode.at]
  | case20 c rest n done notes backslash count value hd hcount hrange hbrace ih =>
    obtain ⟨more, rfl, rfl, -⟩ := hread [c] htext h
    refine (ih rfl h).escape [] List.not_mem_nil (by rintro ⟨⟩) (fun _ => rfl)
      fun t start n done notes k _ => ⟨n + 1, value :: done, notes, k, ?_⟩
    simp [stringFrom, hd, hcount, hrange, hbrace, StringMode.at]

/-! ## Pieces of templates -/

/-- A piece of a template has been read up to a text. -/
def ScannedQuasi.EndsAt (quasi : ScannedQuasi) (y : Text) : Prop :=
  quasi.ending ≠ .missing ∧ quasi.place.rest = y

section

variable {n : Nat} {done : Text}

/-- An ordinary character is passed over. -/
theorem exists_quasiFrom_plain (n : Nat) (done : Text) {c : Char} (rest : Text)
    (hdollar : c = '$' → rest.head? ≠ some '\x7b') (hescape : c ≠ '\\')
    (hreturn : c = '\r' → rest.head? ≠ some '\n') (hquote : (c.toNat == 0x60) = false) :
    ∃ n' done', quasiFrom (c :: rest) n done = quasiFrom rest n' done' := by
  rw [quasiFrom.eq_6 n done c rest (fun _ hc h => hdollar hc (by rw [h]; rfl))
    (fun _ hc => absurd hc hescape) (fun _ _ hc => absurd hc hescape)
    (fun _ hc h => hreturn hc (by rw [h]; rfl)), hquote]
  exact ⟨_, _, rfl⟩

/-- Indentation in a template is passed over. -/
theorem quasiFrom_indent {q t y : Text} (hq : ∀ d ∈ q, isIndent d = true)
    (h : ∀ n done, (quasiFrom t n done).EndsAt y) : (quasiFrom (q ++ t) n done).EndsAt y := by
  induction q generalizing n done with
  | nil => exact h n done
  | cons d q ih =>
    have hd := hq d List.mem_cons_self
    have hne {c : Char} (hc : isIndent c = false) : d ≠ c := by
      rintro rfl
      cases hc.symm.trans hd
    have hquote : (d.toNat == 0x60) = false := by
      rcases Bool.or_eq_true_iff.mp hd with h | h
      · rw [eq_of_beq h]
        rfl
      · rw [eq_of_beq h]
        rfl
    obtain ⟨n', done', hstep⟩ := exists_quasiFrom_plain n done (q ++ t)
      (fun hc => absurd hc (hne (by decide))) (hne (by decide))
      (fun hc => absurd hc (hne (by decide))) hquote
    rw [List.cons_append, hstep]
    exact ih fun d hd => hq d (List.mem_cons_of_mem _ hd)

end

/-- A piece of a template ends at the same sign when its lines are moved. -/
theorem quasiFrom_moved {w y : Text} {n : Nat} {done : Text}
    (h : (quasiFrom (w ++ y) n done).EndsAt y) :
    (∃ c, isSpace c = false ∧ [c] <:+ w) ∧ ∀ b u, Moved b w u → ∀ n' done',
      (quasiFrom (u ++ y) n' done').EndsAt y := by
  have hread (read : Text) {rest : Text} {n' : Nat} {done' : Text} {w : Text}
      (htext : w ++ y = read ++ rest) (h : (quasiFrom rest n' done').EndsAt y) :
      ∃ d more, w = read ++ d :: more ∧ rest = d :: more ++ y := by
    have hlength := (quasiFrom_place rest n' done').length_le
    rw [h.2] at hlength
    obtain ⟨more, rfl, rfl⟩ := exists_split read htext hlength
    cases more with
    | nil => exact absurd h.2 (quasiFrom_ne h.1)
    | cons d more => exact ⟨d, more, rfl, rfl⟩
  have hlater (p : Text) {more : Text} (h : ∃ c, isSpace c = false ∧ [c] <:+ more) :
      ∃ c, isSpace c = false ∧ [c] <:+ p ++ more :=
    h.imp fun c hc => ⟨hc.1, hc.2.trans (List.suffix_append p more)⟩
  generalize htext : w ++ y = text at h
  fun_induction quasiFrom text n done generalizing w with
  | case1 => exact absurd rfl h.1
  | case2 rest n done =>
    obtain rfl : rest = y := h.2
    obtain rfl : w = ['$', '\x7b'] := List.append_cancel_right htext
    refine ⟨⟨'\x7b', by decide, List.suffix_cons ..⟩, fun b u hmoved n' done' => ?_⟩
    obtain ⟨q, t, rfl, hq, -, ⟨t, rfl, ht⟩ | ⟨-, hspace, -⟩⟩ := hmoved.exists_of_cons
    · obtain rfl := ht.eq_of_not_mem (by decide)
      rw [List.append_assoc]
      exact quasiFrom_indent hq fun n done => ⟨by rintro ⟨⟩, rfl⟩
    · exact absurd hspace (by decide)
  | case3 rest n done ih =>
    obtain ⟨d, more, rfl, rfl⟩ := hread ['\\', '\r', '\n'] htext h
    obtain ⟨hlast, ih⟩ := ih rfl h
    refine ⟨hlater _ hlast, fun b u hmoved n' done' => ?_⟩
    obtain ⟨q, t, rfl, hq, -, ⟨t, rfl, ht⟩ | ⟨-, hspace, -⟩⟩ := hmoved.exists_of_cons
    · obtain ⟨_, rfl, hreturn⟩ := Moved.exists_cons ht
      obtain ⟨t, rfl, hmore⟩ := Moved.exists_cons hreturn
      rw [List.append_assoc]
      exact quasiFrom_indent hq fun n done => ih true t hmore _ _
    · exact absurd hspace (by decide)
  | case4 c rest n done hbreak ih =>
    obtain ⟨d, more, rfl, rfl⟩ := hread ['\\', c] htext h
    obtain ⟨hlast, ih⟩ := ih rfl h
    refine ⟨hlater _ hlast, fun b u hmoved n' done' => ?_⟩
    obtain ⟨q, t, rfl, hq, -, ⟨t, rfl, ht⟩ | ⟨-, hspace, -⟩⟩ := hmoved.exists_of_cons
    · obtain ⟨t, rfl, hmore⟩ := Moved.exists_cons ht
      rw [List.append_assoc]
      refine quasiFrom_indent hq fun n done => ?_
      have hstep := quasiFrom.eq_4 n done c (t ++ y) fun rest hc h => by
        subst hc
        obtain ⟨t, rfl, -⟩ := Moved.exists_cons hmore
        cases h
        exact hbreak _ rfl rfl
      rw [List.cons_append, List.cons_append, hstep]
      exact ih _ t hmore _ _
    · exact absurd hspace (by decide)
  | case5 rest n done ih =>
    obtain ⟨d, more, rfl, rfl⟩ := hread ['\r', '\n'] htext h
    obtain ⟨hlast, ih⟩ := ih rfl h
    refine ⟨hlater _ hlast, fun b u hmoved n' done' => ?_⟩
    obtain ⟨q, t, rfl, hq, -, ⟨_, rfl, ht⟩ | ⟨-, -, ht⟩⟩ := hmoved.exists_of_cons
    · obtain ⟨t, rfl, hmore⟩ := Moved.exists_cons ht
      rw [List.append_assoc]
      exact quasiFrom_indent hq fun n done => ih true t hmore _ _
    · -- the carriage return is dropped with the blank line that it ends
      obtain ⟨q', _, rfl, hq', -, ⟨t, rfl, hmore⟩ | ⟨-, hspace, -⟩⟩ := ht.exists_of_cons
      · rw [List.append_assoc, List.append_assoc]
        refine quasiFrom_indent hq fun n done => quasiFrom_indent hq' fun n done => ?_
        obtain ⟨n', done', hstep⟩ := exists_quasiFrom_plain n done (c := '\n') (t ++ y)
          (fun hc => absurd hc (by decide)) (by decide) (fun hc => absurd hc (by decide)) rfl
        rw [List.cons_append, hstep]
        exact ih true t hmore n' done'
      · exact absurd hspace (by decide)
  | case6 c rest n done _ _ _ _ hquote =>
    obtain rfl : rest = y := h.2
    obtain rfl : w = [c] := List.append_cancel_right htext
    obtain rfl : c = Char.ofNat 0x60 := by rw [← eq_of_beq hquote, Char.ofNat_toNat]
    refine ⟨⟨_, by decide, List.suffix_refl _⟩, fun b u hmoved n' done' => ?_⟩
    obtain ⟨q, t, rfl, hq, -, ⟨t, rfl, ht⟩ | ⟨-, hspace, -⟩⟩ := hmoved.exists_of_cons
    · obtain rfl := Moved.eq_nil ht
      rw [List.append_assoc]
      exact quasiFrom_indent hq fun n done => ⟨by rintro ⟨⟩, rfl⟩
    · exact absurd hspace (by decide)
  | case7 c rest n done hdollar _ hescape hreturn hquote ih =>
    obtain ⟨d, more, rfl, rfl⟩ := hread [c] htext h
    obtain ⟨hlast, ih⟩ := ih rfl h
    refine ⟨hlater [c] hlast, fun b u hmoved n' done' => ?_⟩
    obtain ⟨q, t, rfl, hq, -, ⟨t, rfl, ht⟩ | ⟨-, hspace, ht⟩⟩ := hmoved.exists_of_cons
    · -- the next character is the same, unless a line starts here
      have hhead (hc : c ≠ '\n') : (t ++ y).head? = some d := by
        rw [beq_eq_false_iff_ne.mpr hc] at ht
        obtain ⟨t, rfl, -⟩ := ht.exists_cons
        rfl
      have hdollar' (hc : c = '$') : (t ++ y).head? ≠ some '\x7b' := by
        rw [hhead (by rw [hc]; decide)]
        intro h
        exact hdollar (more ++ y) hc (by cases h; rfl)
      have hreturn' (hc : c = '\r') : (t ++ y).head? ≠ some '\n' := by
        rw [hhead (by rw [hc]; decide)]
        intro h
        exact hreturn (more ++ y) hc (by cases h; rfl)
      rw [List.append_assoc]
      refine quasiFrom_indent hq fun n done => ?_
      obtain ⟨n', done', hstep⟩ := exists_quasiFrom_plain n done (t ++ y) hdollar'
        (fun hc => hescape d (more ++ y) hc rfl) hreturn' (Bool.eq_false_iff.mpr hquote)
      rw [List.cons_append, hstep]
      exact ih _ t ht n' done'
    · rw [List.append_assoc]
      exact quasiFrom_indent hq fun n done => ih true t ht n done

/-! ## Strings and text in markup -/

/-- Text without a certain sign has none when its lines are moved. -/
theorem skipUntil_moved {test : Char → Bool} (hspace : ∀ c, isSpace c = true → test c = false)
    {b : Bool} {w u y : Text} {n : Nat} (hmoved : Moved b w u)
    (h : (Parser.skipUntil test (w ++ y) n).rest = y) (m : Nat) :
    (Parser.skipUntil test (u ++ y) m).rest = y := by
  have hstep {c : Char} {rest : Text} {n : Nat} (hc : test c = false) :
      Parser.skipUntil test (c :: rest) n = Parser.skipUntil test rest (n + c.utf8Size) := by
    rw [Parser.skipUntil, if_neg (by simp [hc])]
  have hnot {c : Char} {x : Text} {n : Nat} (h : (Parser.skipUntil test (c :: x ++ y) n).rest = y) :
      test c = false := by
    cases hc : test c with
    | false => rfl
    | true =>
      simp only [List.cons_append, Parser.skipUntil, hc, if_true] at h
      exact absurd (List.append_left_eq_self.mp h) (List.cons_ne_nil c x)
  induction hmoved generalizing n m with
  | nil =>
    cases y with
    | nil => rfl
    | cons c y =>
      cases hc : test c with
      | true => simp [Parser.skipUntil, hc]
      | false =>
        rw [List.nil_append, hstep hc] at h
        exact absurd h ((Parser.skipUntil_reaches test y _).rest_ne c [])
  | keep _ _ ih | newline _ ih =>
    have hc := hnot h
    rw [List.cons_append, hstep hc] at h ⊢
    exact ih h _
  | drop hc _ ih =>
    rw [List.cons_append, hstep (hspace _ (isSpace_of_isLineSpace hc))] at h
    exact ih h m
  | add hc _ ih =>
    rw [List.cons_append, hstep (hspace _ (isSpace_of_isLineSpace (isLineSpace_of_isIndent hc)))]
    exact ih h _

/-- A string in a tag ends at the same quote when its lines are moved. -/
theorem readTagString_moved {w y : Text}
    (h : (Manner.readTagString ⟨w ++ y, 0⟩).map Place.rest = some y) (hw : w ≠ []) :
    (∃ c, isSpace c = false ∧ [c] <:+ w) ∧
      ∀ u, Moved false w u → (Manner.readTagString ⟨u ++ y, 0⟩).map Place.rest = some y := by
  obtain ⟨quote, w, rfl⟩ := List.exists_cons_of_ne_nil hw
  rw [List.cons_append, Manner.readTagString] at h
  by_cases hquote : (quote == '"' || quote == '\x27') = true
  · have hspace := (isSpace_quote hquote).1
    have hne : quote ≠ '\n' := by
      rintro rfl
      cases hspace
    rw [if_pos hquote] at h
    cases hclose : Parser.skipUntil (· == quote) (w ++ y) (0 + 1) with
    | mk rest m =>
      rw [hclose] at h
      cases rest with
      | nil => cases h
      | cons q after =>
        obtain rfl : after = y := Option.some.inj h
        obtain ⟨body, hread, -⟩ := Parser.skipUntil_reaches (· == quote) (w ++ after) (0 + 1)
        rw [hclose] at hread
        obtain rfl : w = body ++ [q] :=
          List.append_cancel_right (hread.trans (List.append_cons body q after))
        have hq : (q == quote) = true :=
          @Parser.test_of_skipUntil (· == quote) _ _ _ _ (congrArg Place.rest hclose)
        obtain rfl : q = quote := eq_of_beq hq
        refine ⟨⟨q, hspace, List.suffix_append (q :: body) [q]⟩, fun u hmoved => ?_⟩
        obtain ⟨u, rfl, hbody⟩ := hmoved.exists_cons
        rw [beq_eq_false_iff_ne.mpr hne] at hbody
        obtain ⟨body', t, rfl, hbody', ht⟩ := hbody.exists_append_cons hspace
        obtain rfl := ht.eq_nil
        have hnot (c : Char) (hc : isSpace c = true) : (c == q) = false := by
          rw [beq_eq_false_iff_ne]
          rintro rfl
          cases hspace.symm.trans hc
        have hstop : (Parser.skipUntil (· == q) (body' ++ q :: after) (0 + 1)).rest = q :: after :=
          skipUntil_moved hnot hbody' (by rw [List.append_cons, hclose]) _
        rw [List.append_cons] at hstop
        rw [List.cons_append, Manner.readTagString, if_pos hquote]
        generalize Parser.skipUntil (· == q) (body' ++ [q] ++ after) (0 + 1) = close at hstop
        obtain ⟨rest, m'⟩ := close
        obtain rfl : rest = q :: after := hstop
        rfl
  · rw [if_neg hquote] at h
    cases h

/-! ## Lexemes -/

namespace Lexeme

/-- A string starts with a quote. -/
def isString (l : Lexeme) : Bool := l.text.head?.any fun c => c == '"' || c == '\x27'

/-- A plain lexeme is a string or part of a line. -/
theorem readToken_onLine {w y : Text} (hw : w ≠ [])
    (h : (readToken ⟨w ++ y, 0⟩).map Place.rest = some y) (hquote : isString ⟨.plain, w⟩ = false) :
    '\n' ∉ w := by
  obtain ⟨c, w, rfl⟩ := List.exists_cons_of_ne_nil hw
  replace hquote : (c == '"' || c == '\x27') = false := hquote
  apply OnLine.not_mem (y := y)
  rw [List.cons_append] at h ⊢
  cases hword : isNameStart c || c == '\\' with
  | true =>
    rw [readToken_eq_some, scanKind_word hword] at h
    have hline := nameFrom_onLine (c :: (w ++ y)) 0 {} .plain
    rwa [show (nameFrom (c :: (w ++ y)) 0 {} .plain).place.rest = y from h.2] at hline
  | false =>
    cases hdigit : startsNumber c (w ++ y) with
    | true =>
      rw [readToken_eq_some, scanKind_number hword hdigit] at h
      have hline := scanNumber_onLine (c :: (w ++ y)) 0
      rwa [show (scanNumber ⟨c :: (w ++ y), 0⟩).place.rest = y from h.2] at hline
    | false =>
      rw [readToken_sign hword hdigit hquote, ← List.cons_append] at h
      obtain ⟨p, hp, -⟩ := exists_sign h
      rw [← List.cons_append, hp]
      exact ⟨p.text.toList, rfl, by cases p <;> decide⟩

theorem readString_moved {w y : Text} (hw : w ≠ [])
    (h : (readToken ⟨w ++ y, 0⟩).map Place.rest = some y) (hquote : isString ⟨.plain, w⟩ = true) :
    (∃ c, isSpace c = false ∧ [c] <:+ w) ∧
      ∀ u, Moved false w u → (readToken ⟨u ++ y, 0⟩).map Place.rest = some y := by
  obtain ⟨c, w, rfl⟩ := List.exists_cons_of_ne_nil hw
  replace hquote : (c == '"' || c == '\x27') = true := hquote
  obtain ⟨hspace, hsize⟩ := isSpace_quote hquote
  have hfirst : (isNameStart c || c == '\\') = false ∧ c.isDigit = false ∧ (c == '.') = false := by
    rcases Bool.or_eq_true_iff.mp hquote with h | h
    · rw [eq_of_beq h]
      decide
    · rw [eq_of_beq h]
      decide
  have hnumber (rest : Text) : startsNumber c rest = false := by
    rw [startsNumber, hfirst.2.1, hfirst.2.2]
    rfl
  rw [List.cons_append, readToken_eq_some, scanKind_string hfirst.1 (hnumber _) hquote] at h
  obtain ⟨hlast, hclose⟩ := closesMoved_of_endsAt hsize hspace h
  refine ⟨⟨c, hspace, hlast.trans (List.suffix_cons c w)⟩, fun u hmoved => ?_⟩
  obtain ⟨u, rfl, hbody⟩ := hmoved.exists_cons
  rw [List.cons_append, readToken_eq_some, scanKind_string hfirst.1 (hnumber _) hquote]
  exact hclose _ u hbody (fun _ => rfl) 0 (0 + 1) [] [] 0

theorem readTemplate_moved {w y : Text} (hw : w ≠ [])
    (h : (Manner.readTemplate ⟨w ++ y, 0⟩).map Place.rest = some y) :
    (∃ c, isSpace c = false ∧ [c] <:+ w) ∧
      ∀ u, Moved false w u → (Manner.readTemplate ⟨u ++ y, 0⟩).map Place.rest = some y := by
  obtain ⟨c, w, rfl⟩ := List.exists_cons_of_ne_nil hw
  rw [List.cons_append, Manner.readTemplate] at h
  by_cases hc : (c.toNat == 0x60 || c == '\x7d') = true
  · rw [if_pos hc] at h
    by_cases hending : (scanQuasi ⟨w ++ y, 0 + 1⟩).ending = .missing
    · rw [if_pos hending] at h
      cases h
    · rw [if_neg hending] at h
      obtain ⟨⟨d, hd, hlast⟩, hmove⟩ := quasiFrom_moved ⟨hending, Option.some.inj h⟩
      refine ⟨⟨d, hd, hlast.trans (List.suffix_cons c w)⟩, fun u hmoved => ?_⟩
      obtain ⟨u, rfl, hbody⟩ := hmoved.exists_cons
      obtain ⟨hending', hrest⟩ := hmove _ u hbody (0 + 1) []
      rw [List.cons_append, Manner.readTemplate, if_pos hc,
        if_neg (show (scanQuasi ⟨u ++ y, 0 + 1⟩).ending ≠ .missing from hending')]
      exact congrArg some hrest
  · rw [if_neg hc] at h
    cases h

theorem readRegex_onLine {w y : Text} (h : (Manner.readRegex ⟨w ++ y, 0⟩).map Place.rest = some y) :
    '\n' ∉ w := by
  apply OnLine.not_mem (y := y)
  generalize w ++ y = text at h ⊢
  cases text with
  | nil => cases h
  | cons c rest =>
    rw [Manner.readRegex] at h
    split at h
    · next hc =>
      refine .cons (p := (· == '/')) hc (by decide) ?_
      unfold scanRegex at h
      split at h
      · cases h
      · next body place hbody =>
        cases h
        exact (regexFrom_onLine hbody).trans (scanNameParts_onLine ..)
    · cases h

theorem readTagWord_onLine {w y : Text}
    (h : (Manner.readTagWord ⟨w ++ y, 0⟩).map Place.rest = some y) : '\n' ∉ w := by
  apply OnLine.not_mem (y := y)
  generalize w ++ y = text at h ⊢
  cases text with
  | nil => cases h
  | cons c rest =>
    rw [Manner.readTagWord] at h
    split at h
    · next hc =>
      rw [Option.map_map] at h
      obtain ⟨after, hafter, hrest⟩ := Option.map_eq_some_iff.mp h
      have hname : OnLine (c :: rest) after.rest := by
        have hread := readToken_eq_some.mp (congrArg (Option.map Place.rest) hafter)
        rw [scanKind_word hc] at hread
        rw [← hread.2]
        exact nameFrom_onLine ..
      refine hname.trans ?_
      rw [← hrest, Function.comp, Manner.goOnTagWord]
      split
      · exact skipUntil_onLine (by decide) _ _
      · exact .refl _
    · cases h

/-- A lexeme is part of a line, or it still ends at the same place when its lines are moved. -/
theorem Takes.onLine_or_moved {l : Lexeme} {y : Text} (h : l.Takes y) :
    '\n' ∉ l.text ∨ (l.manner ≠ .markup → ∃ c, isSpace c = false ∧ [c] <:+ l.text) ∧
      ∀ u, Moved false l.text u → (l.manner.read ⟨u ++ y, 0⟩).map Place.rest = some y := by
  obtain ⟨manner, w⟩ := l
  obtain ⟨hw, hread, -⟩ := h
  cases manner with
  | plain =>
    cases hquote : isString ⟨.plain, w⟩ with
    | true =>
      obtain ⟨hlast, hmove⟩ := readString_moved hw hread hquote
      exact .inr ⟨fun _ => hlast, hmove⟩
    | false => exact .inl (readToken_onLine hw hread hquote)
  | angle =>
    obtain ⟨c, w, rfl⟩ := List.exists_cons_of_ne_nil hw
    replace hread : (Manner.readAngle ⟨c :: (w ++ y), 0⟩).map Place.rest = some y := hread
    rw [Manner.readAngle] at hread
    split at hread
    · next hc =>
      obtain rfl : w = [] := List.append_left_eq_self.mp (Option.some.inj hread)
      refine .inl fun hmem => ?_
      rw [← List.mem_singleton.mp hmem] at hc
      cases hc
    · cases hread
  | regex => exact .inl (readRegex_onLine hread)
  | template =>
    obtain ⟨hlast, hmove⟩ := readTemplate_moved hw hread
    exact .inr ⟨fun _ => hlast, hmove⟩
  | tagWord => exact .inl (readTagWord_onLine hread)
  | tagString =>
    obtain ⟨hlast, hmove⟩ := readTagString_moved hread hw
    exact .inr ⟨fun _ => hlast, hmove⟩
  | markup =>
    have hspace (c : Char) (hc : isSpace c = true) : endsMarkup c = false := by
      rw [Bool.eq_false_iff]
      intro hends
      simp only [endsMarkup, Bool.or_eq_true, beq_iff_eq] at hends
      rcases hends with ((rfl | rfl) | rfl) | rfl
      all_goals exact absurd hc (by decide)
    refine .inr ⟨fun h => absurd rfl h, fun u hmoved => ?_⟩
    exact congrArg some (skipUntil_moved hspace hmoved (Option.some.inj hread) 0)

/-- A lexeme other than text in markup is part of a line, or it ends with ink. -/
theorem Takes.onLine_or_ink {l : Lexeme} {y : Text} (h : l.Takes y) (hl : l.manner ≠ .markup) :
    '\n' ∉ l.text ∨ ∃ c, isSpace c = false ∧ [c] <:+ l.text :=
  h.onLine_or_moved.imp id fun hmove => hmove.1 hl

/-- A lexeme stays one of its kind when its lines are moved. -/
theorem Takes.moved {l : Lexeme} {u y : Text} (h : l.Takes y) (hmoved : Moved false l.text u) :
    Takes ⟨l.manner, u⟩ y := by
  rcases h.onLine_or_moved with hline | ⟨-, hmove⟩
  · rwa [hmoved.eq_of_not_mem hline]
  · obtain ⟨hne, -, hpoint⟩ := h
    refine ⟨?_, hmove u hmoved, fun hu => ?_⟩
    · rintro rfl
      exact hne (List.head?_eq_none_iff.mp hmoved.head?_eq.symm)
    · -- a single point holds no line feed, so that it was one before
      obtain ⟨hmanner, rfl⟩ := Lexeme.mk.inj hu
      have hline : '\n' ∉ l.text := fun hmem => absurd (hmoved.newline_mem_iff.mpr hmem) (by decide)
      have htext := hmoved.eq_of_not_mem hline
      obtain ⟨manner, text⟩ := l
      exact hpoint (by rw [← hu, htext])

end Lexeme

end Retouch.Syntax
