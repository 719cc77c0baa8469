import Retouch.Proofs.Scanning

/-!
# How far scanning looks ahead

-/

namespace Retouch.Syntax

/-- A text can stand in for another one behind a token: it starts with the same character, or with
none that the token goes on with. -/
def StandsIn (goesOn : Char → Bool) (y z : Text) : Prop :=
  z.head? = y.head? ∨ z.head?.any goesOn = false

theorem StandsIn.mono {goesOn less : Char → Bool} {y z : Text} (hz : StandsIn goesOn y z)
    (h : ∀ c, less c = true → goesOn c = true) : StandsIn less y z := by
  refine hz.imp_right fun hz => ?_
  cases z with
  | nil => rfl
  | cons c z =>
    cases hc : less c with
    | false => exact hc
    | true => exact absurd (h c hc) (Bool.eq_false_iff.mp hz)

/-- What has been read first is at the start of what has been read in all. -/
theorem exists_split (read : Text) {rest w y : Text} (h : w ++ y = read ++ rest)
    (hlength : y.length ≤ rest.length) : ∃ more, w = read ++ more ∧ rest = more ++ y := by
  rcases List.append_eq_append_iff.mp h with ⟨surplus, rfl, rfl⟩ | ⟨more, rfl, rfl⟩
  · rw [List.length_append] at hlength
    obtain rfl : surplus = [] := List.eq_nil_of_length_eq_zero (by omega)
    exact ⟨[], by simp, by simp⟩
  · exact ⟨more, rfl, rfl⟩

theorem Place.Reaches.length_le {rest : Text} {n : Nat} {q : Place}
    (h : (Place.mk rest n).Reaches q) : q.rest.length ≤ rest.length := by
  obtain ⟨read, hread, -⟩ := h
  obtain rfl : rest = read ++ q.rest := hread
  rw [List.length_append]
  omega

/-- Reading on never brings anything back. -/
theorem Place.Reaches.eq_nil {rest : Text} {n : Nat} {q : Place} {back : Text}
    (h : (Place.mk rest n).Reaches q) (hrest : q.rest = back ++ rest) : back = [] := by
  have hlength := h.length_le
  rw [hrest, List.length_append] at hlength
  exact List.eq_nil_of_length_eq_zero (by omega)

theorem Place.Reaches.rest_ne {rest : Text} {n : Nat} {q : Place}
    (h : (Place.mk rest n).Reaches q) (c : Char) (read : Text) : q.rest ≠ c :: read ++ rest :=
  fun hrest => absurd (h.eq_nil hrest) (List.cons_ne_nil c read)

/-! ## Names -/

/-- A name as it was read, before another text. -/
def ScannedName.before (name : ScannedName) (z : Text) : ScannedName :=
  { name with place := ⟨z, name.place.offset⟩ }

/-- Characters that a name goes on with. -/
def continuesName (c : Char) : Bool := isNamePart c || c == '\\'

theorem nameFrom_stop {z : Text} (hz : z.head?.any continuesName = false) (n : Nat)
    (name : NameSoFar) : nameFrom z n name .plain = name.finish ⟨z, n⟩ none := by
  cases z with
  | nil => rfl
  | cons c rest =>
    obtain ⟨hpart, hescape⟩ := Bool.or_eq_false_iff.mp hz
    rw [nameFrom]
    · rw [hpart, hescape]
      rfl
    · rintro rest' h
      cases h
      cases hescape
    · rintro rest' h
      cases h
      cases hescape

/-- The digits of an escape are read one by one. -/
theorem nameFrom_fixed_ne {text : Text} {n : Nat} {name : NameSoFar} {start left value : Nat}
    (herror : (nameFrom text n name (.fixed start left value)).error = none) :
    (nameFrom text n name (.fixed start left value)).place.rest ≠ text := by
  cases text with
  | nil => cases herror
  | cons c rest =>
    rw [nameFrom] at herror ⊢
    split
    · next hd =>
      rw [hd] at herror
      cases herror
    · split
      · exact (nameFrom_reaches rest (n + 1) _ _).rest_ne c []
      · exact (nameFrom_reaches rest (n + 1) _ _).rest_ne c []

theorem nameFrom_standsIn {w y z : Text} {n : Nat} {name : NameSoFar} {mode : NameMode}
    (hz : StandsIn continuesName y z) (hrest : (nameFrom (w ++ y) n name mode).place.rest = y)
    (herror : (nameFrom (w ++ y) n name mode).error = none) :
    nameFrom (w ++ z) n name mode = (nameFrom (w ++ y) n name mode).before z := by
  -- the place after the name is not before what has just been read
  have hread (read : Text) {rest : Text} {n' : Nat} {name' : NameSoFar} {mode' : NameMode}
      {w : Text} (htext : w ++ y = read ++ rest)
      (hrest : (nameFrom rest n' name' mode').place.rest = y) :
      ∃ more, w = read ++ more ∧ rest = more ++ y := by
    refine exists_split read htext ?_
    rw [← hrest]
    exact (nameFrom_reaches rest n' name' mode').length_le
  generalize htext : w ++ y = text at hrest herror
  fun_induction nameFrom text n name mode generalizing w with
  | case1 n name =>
    obtain ⟨rfl, rfl⟩ := List.append_eq_nil_iff.mp htext
    exact nameFrom_stop (hz.elim (fun h => by rw [h]; rfl) id) n name
  | case2 | case3 | case7 | case9 | case13 | case14 | case16 => cases herror
  | case4 rest n name ih =>
    obtain ⟨more, rfl, rfl⟩ := hread ['\\', 'u', '\x7b'] htext hrest
    exact ih rfl hrest herror
  | case5 rest n name hbrace ih =>
    obtain ⟨more, rfl, rfl⟩ := hread ['\\', 'u'] htext hrest
    cases more with
    | nil => exact absurd hrest (nameFrom_fixed_ne herror)
    | cons c more =>
      rw [← ih rfl hrest herror]
      exact nameFrom.eq_5 _ _ _ fun rest' h => hbrace (more ++ y) (by cases h; rfl)
  | case6 c rest n name _ _ hpart ih =>
    obtain ⟨more, rfl, rfl⟩ := hread [c] htext hrest
    rw [← ih rfl hrest herror]
    exact nameFrom_part hpart (more ++ z) n name
  | case8 c rest n name _ _ hpart hescape =>
    obtain rfl : c :: rest = y := hrest
    obtain rfl : w = [] := by simpa using htext
    have hc : continuesName c = false := by
      rw [continuesName, Bool.or_eq_false_iff]
      exact ⟨eq_false_of_ne_true hpart, eq_false_of_ne_true hescape⟩
    exact nameFrom_stop (hz.elim (fun h => by rw [h]; exact hc) id) n name
  | case10 c rest n name start left value d hd hleft ih =>
    obtain ⟨more, rfl, rfl⟩ := hread [c] htext hrest
    rw [← ih rfl hrest herror]
    simp [nameFrom, hd, hleft]
  | case11 c rest n name start left value d hd hleft ih =>
    obtain ⟨more, rfl, rfl⟩ := hread [c] htext hrest
    rw [← ih rfl hrest herror]
    simp [nameFrom, hd, hleft]
  | case12 c rest n name start count value d hd ih =>
    obtain ⟨more, rfl, rfl⟩ := hread [c] htext hrest
    rw [← ih rfl hrest herror]
    simp [nameFrom, hd]
  | case15 c rest n name start count value hd hcount hrange hbrace ih =>
    obtain ⟨more, rfl, rfl⟩ := hread [c] htext hrest
    rw [← ih rfl hrest herror]
    simp [nameFrom, hd, hcount, hrange, hbrace]

/-- A name that is read goes on as far as it can. -/
theorem nameFrom_rest {text : Text} {n : Nat} {name : NameSoFar} {mode : NameMode}
    (herror : (nameFrom text n name mode).error = none) :
    (nameFrom text n name mode).place.rest.head?.any continuesName = false := by
  fun_induction nameFrom text n name mode with
  | case1 => rfl
  | case2 | case3 | case7 | case9 | case13 | case14 | case16 => cases herror
  | case8 c rest n name _ _ hpart hescape =>
    exact Bool.or_eq_false_iff.mpr ⟨eq_false_of_ne_true hpart, eq_false_of_ne_true hescape⟩
  | case4 _ _ _ ih | case5 _ _ _ _ ih | case6 _ _ _ _ _ _ _ ih | case10 _ _ _ _ _ _ _ _ _ _ ih
  | case11 _ _ _ _ _ _ _ _ _ _ ih | case12 _ _ _ _ _ _ _ _ _ ih
  | case15 _ _ _ _ _ _ _ _ _ _ _ ih => exact ih herror

/-! ## Strings -/

/-- Whether a token is none. -/
def TokenKind.isBad : TokenKind → Bool
  | .bad _ => true
  | _ => false

/-- A string as it was read, before another text. -/
def ScannedString.before (string : ScannedString) (z : Text) : ScannedString :=
  { string with place := ⟨z, string.place.offset⟩ }

theorem stringFrom_ne {start : Nat} {quote : Char} (hquote : quote.utf8Size = 1) {text : Text}
    {n : Nat} {done : CodePoints} {notes : List SyntaxError} {mode : StringMode}
    (hkind : (stringFrom start quote text n done notes mode).kind.isBad = false) :
    (stringFrom start quote text n done notes mode).place.rest ≠ text := by
  fun_induction stringFrom start quote text n done notes mode with
  | case1 | case4 | case14 | case18 | case19 | case21 => cases hkind
  | case2 c rest => exact (List.cons_ne_self c rest).symm
  | case6 rest => exact (stringFrom_reaches start hquote rest _ _ _ _).rest_ne 'x' []
  | case7 rest => exact (stringFrom_reaches start hquote rest _ _ _ _).rest_ne 'u' ['\x7b']
  | case8 rest => exact (stringFrom_reaches start hquote rest _ _ _ _).rest_ne 'u' []
  | case9 rest => exact (stringFrom_reaches start hquote rest _ _ _ _).rest_ne '\r' ['\n']
  | case3 c rest | case5 c rest | case10 c rest | case11 c rest | case12 c rest | case13 c rest
  | case15 c rest | case16 c rest | case17 c rest | case20 c rest =>
    exact (stringFrom_reaches start hquote rest _ _ _ _).rest_ne c []

theorem stringFrom_standsIn {start : Nat} {quote : Char} (hquote : quote.utf8Size = 1)
    {w y : Text} (z : Text) {n : Nat} {done : CodePoints} {notes : List SyntaxError}
    {mode : StringMode}
    (hrest : (stringFrom start quote (w ++ y) n done notes mode).place.rest = y)
    (hkind : (stringFrom start quote (w ++ y) n done notes mode).kind.isBad = false) :
    stringFrom start quote (w ++ z) n done notes mode =
      (stringFrom start quote (w ++ y) n done notes mode).before z := by
  have hread (read : Text) {rest : Text} {n' : Nat} {done' : CodePoints}
      {notes' : List SyntaxError} {mode' : StringMode} {w : Text} (htext : w ++ y = read ++ rest)
      (hrest : (stringFrom start quote rest n' done' notes' mode').place.rest = y)
      (hkind : (stringFrom start quote rest n' done' notes' mode').kind.isBad = false) :
      ∃ more, w = read ++ more ∧ rest = more ++ y ∧ more ≠ [] := by
    have hlength := (stringFrom_reaches start hquote rest n' done' notes' mode').length_le
    rw [hrest] at hlength
    obtain ⟨more, rfl, rfl⟩ := exists_split read htext hlength
    refine ⟨more, rfl, rfl, ?_⟩
    rintro rfl
    exact stringFrom_ne hquote hkind hrest
  -- the character of an escape sees only the one behind it, which is still there
  have hescape {c d : Char} {more : Text} {n : Nat} {done : CodePoints} {notes : List SyntaxError}
      {backslash : Nat} (hx : c ≠ 'x') (hu : c ≠ 'u')
      (hr : ∀ rest, c = '\r' → d :: more ++ y = '\n' :: rest → False) :=
    stringFrom.eq_7 start quote n done notes c (d :: more ++ z) backslash hx
      (fun _ h => absurd h hu) hu fun rest hc h => hr (more ++ y) hc (by cases h; rfl)
  generalize htext : w ++ y = text at hrest hkind
  fun_induction stringFrom start quote text n done notes mode generalizing w with
  | case1 | case4 | case14 | case18 | case19 | case21 => cases hkind
  | case2 c rest n done notes hc =>
    obtain rfl : rest = y := hrest
    obtain rfl : w = [c] := List.append_cancel_right htext
    simp [stringFrom, hc, ScannedString.before]
  | case3 c rest n done notes hc hescape ih =>
    obtain ⟨more, rfl, rfl, -⟩ := hread [c] htext hrest hkind
    rw [← ih rfl hrest hkind]
    simp [stringFrom, hc, hescape]
  | case5 c rest n done notes hc hescape hbreak ih =>
    obtain ⟨more, rfl, rfl, -⟩ := hread [c] htext hrest hkind
    rw [← ih rfl hrest hkind]
    simp [stringFrom, hc, hescape, hbreak]
  | case6 rest n done notes backslash ih =>
    obtain ⟨more, rfl, rfl, -⟩ := hread ['x'] htext hrest hkind
    exact ih rfl hrest hkind
  | case7 rest n done notes backslash ih =>
    obtain ⟨more, rfl, rfl, -⟩ := hread ['u', '\x7b'] htext hrest hkind
    exact ih rfl hrest hkind
  | case8 rest n done notes backslash hbrace ih =>
    obtain ⟨more, rfl, rfl, hmore⟩ := hread ['u'] htext hrest hkind
    obtain ⟨d, more, rfl⟩ := List.exists_cons_of_ne_nil hmore
    rw [← ih rfl hrest hkind]
    exact stringFrom.eq_5 _ _ _ _ _ _ _ fun rest' h => hbrace (more ++ y) (by cases h; rfl)
  | case9 rest n done notes backslash ih =>
    obtain ⟨more, rfl, rfl, -⟩ := hread ['\r', '\n'] htext hrest hkind
    exact ih rfl hrest hkind
  | case10 c rest n done notes backslash hx _ hu hr hbreak ih =>
    obtain ⟨more, rfl, rfl, hmore⟩ := hread [c] htext hrest hkind
    obtain ⟨d, more, rfl⟩ := List.exists_cons_of_ne_nil hmore
    rw [← ih rfl hrest hkind]
    exact (hescape hx hu hr).trans (if_pos hbreak)
  | case11 c rest n done notes backslash hx _ hu hr hbreak hoctal ih =>
    obtain ⟨more, rfl, rfl, hmore⟩ := hread [c] htext hrest hkind
    obtain ⟨d, more, rfl⟩ := List.exists_cons_of_ne_nil hmore
    rw [← ih rfl hrest hkind]
    exact (hescape hx hu hr).trans ((if_neg hbreak).trans (if_pos hoctal))
  | case12 c rest n done notes backslash hx _ hu hr hbreak hoctal hzero ih =>
    obtain ⟨more, rfl, rfl, hmore⟩ := hread [c] htext hrest hkind
    obtain ⟨d, more, rfl⟩ := List.exists_cons_of_ne_nil hmore
    rw [← ih rfl hrest hkind]
    exact (hescape hx hu hr).trans ((if_neg hbreak).trans ((if_neg hoctal).trans (if_pos hzero)))
  | case13 c rest n done notes backslash hx _ hu hr hbreak hoctal hzero ih =>
    obtain ⟨more, rfl, rfl, hmore⟩ := hread [c] htext hrest hkind
    obtain ⟨d, more, rfl⟩ := List.exists_cons_of_ne_nil hmore
    rw [← ih rfl hrest hkind]
    exact (hescape hx hu hr).trans ((if_neg hbreak).trans ((if_neg hoctal).trans (if_neg hzero)))
  | case15 c rest n done notes backslash short left value d hd hleft ih =>
    obtain ⟨more, rfl, rfl, -⟩ := hread [c] htext hrest hkind
    rw [← ih rfl hrest hkind]
    simp [stringFrom, hd, hleft]
  | case16 c rest n done notes backslash short left value d hd hleft ih =>
    obtain ⟨more, rfl, rfl, -⟩ := hread [c] htext hrest hkind
    rw [← ih rfl hrest hkind]
    simp [stringFrom, hd, hleft]
  | case17 c rest n done notes backslash count value d hd ih =>
    obtain ⟨more, rfl, rfl, -⟩ := hread [c] htext hrest hkind
    rw [← ih rfl hrest hkind]
    simp [stringFrom, hd]
  | case20 c rest n done notes backslash count value hd hcount hrange hbrace ih =>
    obtain ⟨more, rfl, rfl, -⟩ := hread [c] htext hrest hkind
    rw [← ih rfl hrest hkind]
    simp [stringFrom, hd, hcount, hrange, hbrace]

/-! ## Numbers -/

/-- Characters that a number goes on with, or that may not follow one. -/
def continuesNumber (c : Char) : Bool := isNamePart c || isNameStart c || c == '.'

theorem isNamePart_of_hexDigit? {c : Char} {d : Nat} (h : hexDigit? c = some d) :
    isNamePart c = true := by
  have hall : ∀ n < 128, (hexDigit? (Char.ofNat n)).isSome = true →
      isNamePart (Char.ofNat n) = true := by decide
  have hc := hall c.toNat (toNat_lt_of_hexDigit? h)
  rw [Char.ofNat_toNat, h] at hc
  exact hc rfl

theorem continuesNumber_of_digitIn? {base : Nat} {c : Char} {d : Nat}
    (h : digitIn? base c = some d) : continuesNumber c = true := by
  unfold digitIn? at h
  split at h
  · next hhex => simp [continuesNumber, isNamePart_of_hexDigit? hhex]
  · cases h

/-- A character that no number goes on with is no digit in any base. -/
theorem digitIn?_eq_none {c : Char} (hc : continuesNumber c = false) (base : Nat) :
    digitIn? base c = none := by
  cases hd : digitIn? base c with
  | none => rfl
  | some d =>
    rw [continuesNumber_of_digitIn? hd] at hc
    cases hc

theorem ne_of_continuesNumber {c d : Char} (hc : continuesNumber c = false)
    (hd : continuesNumber d = true) : (c == d) = false := by
  cases h : c == d with
  | false => rfl
  | true =>
    rw [eq_of_beq h, hd] at hc
    cases hc

/-- Digits as they were read, before another text. -/
def Digits.before (digits : Digits) (z : Text) : Digits :=
  { digits with place := ⟨z, digits.place.offset⟩ }

/-- A number as it was read, before another text. -/
def ScannedNumber.before (number : ScannedNumber) (z : Text) : ScannedNumber :=
  { number with place := ⟨z, number.place.offset⟩ }

/-- Whether a digit of a base stands at the start of a text. -/
def startsWithDigit (base : Nat) (text : Text) : Bool :=
  text.head?.any fun d => (digitIn? base d).isSome

theorem digitsFrom_cons (base start : Nat) (c : Char) (rest : Text) (n value count : Nat)
    (bad : Bool) :
    digitsFrom base start (c :: rest) n value count bad =
      match digitIn? base c with
      | some d => digitsFrom base start rest (n + 1) (base * value + d) (count + 1) bad
      | none =>
        if c == '_' then
          digitsFrom base start rest (n + 1) value count (bad || !startsWithDigit base rest)
        else ⟨start, value, count, bad, ⟨c :: rest, n⟩⟩ := by
  cases rest with
  | nil => rfl
  | cons d rest => rfl

theorem digitsFrom_stop {base start : Nat} {z : Text} (hz : z.head?.any continuesNumber = false)
    (n value count : Nat) (bad : Bool) :
    digitsFrom base start z n value count bad = ⟨start, value, count, bad, ⟨z, n⟩⟩ := by
  cases z with
  | nil => rfl
  | cons c rest =>
    have hc : continuesNumber c = false := hz
    rw [digitsFrom_cons, digitIn?_eq_none hc base, ne_of_continuesNumber hc (by decide)]
    rfl

/-- Where a run of digits stops at once, it does so before whatever starts alike. -/
theorem digitsFrom_eq_of_rest {base start : Nat} {y z : Text} {n value count : Nat} {bad : Bool}
    (hz : StandsIn continuesNumber y z)
    (h : (digitsFrom base start y n value count bad).place.rest = y) (bad' : Bool) :
    digitsFrom base start z n value count bad' = ⟨start, value, count, bad', ⟨z, n⟩⟩ ∧
      startsWithDigit base z = false := by
  rcases hz with hz | hz
  · cases z with
    | nil => exact ⟨rfl, rfl⟩
    | cons c z =>
      cases y with
      | nil => cases hz
      | cons d rest =>
        obtain rfl : c = d := Option.some.inj hz
        rw [digitsFrom_cons] at h ⊢
        cases hd : digitIn? base c with
        | some d =>
          rw [hd] at h
          exact absurd h ((digitsFrom_reaches ..).rest_ne c [])
        | none =>
          rw [hd] at h
          dsimp only at h ⊢
          split at h
          · exact absurd h ((digitsFrom_reaches ..).rest_ne c [])
          · next hscore =>
            rw [if_neg hscore]
            exact ⟨rfl, by rw [startsWithDigit]; simp [hd]⟩
  · refine ⟨digitsFrom_stop hz n value count bad', ?_⟩
    cases z with
    | nil => rfl
    | cons c z =>
      rw [startsWithDigit, List.head?_cons, Option.any_some, digitIn?_eq_none hz]
      rfl

/-- A run of digits that stops at or before the end of a piece of text does so whatever follows. -/
theorem digitsFrom_standsIn {base start : Nat} {w r y z : Text} {n value count : Nat} {bad : Bool}
    (hz : StandsIn continuesNumber y z)
    (hrest : (digitsFrom base start (w ++ y) n value count bad).place.rest = r ++ y) :
    digitsFrom base start (w ++ z) n value count bad =
      (digitsFrom base start (w ++ y) n value count bad).before (r ++ z) := by
  induction w generalizing n value count bad with
  | nil =>
    rw [List.nil_append] at hrest
    obtain rfl := (digitsFrom_reaches ..).eq_nil hrest
    rw [List.nil_append, List.nil_append, (digitsFrom_eq_of_rest (.inl rfl) hrest bad).1]
    exact (digitsFrom_eq_of_rest hz hrest bad).1
  | cons c w ih =>
    rw [List.cons_append, digitsFrom_cons] at hrest
    rw [List.cons_append, List.cons_append, digitsFrom_cons, digitsFrom_cons]
    cases hd : digitIn? base c with
    | some d =>
      rw [hd] at hrest
      exact ih hrest
    | none =>
      rw [hd] at hrest
      dsimp only at hrest ⊢
      by_cases hscore : (c == '_') = true
      · rw [if_pos hscore] at hrest
        rw [if_pos hscore, if_pos hscore]
        -- a separator sees the character behind it
        have hnext : startsWithDigit base (w ++ z) = startsWithDigit base (w ++ y) := by
          cases w with
          | cons c w => rfl
          | nil =>
            rw [List.nil_append] at hrest
            obtain rfl := (digitsFrom_reaches ..).eq_nil hrest
            rw [List.nil_append, List.nil_append, (digitsFrom_eq_of_rest hz hrest bad).2,
              (digitsFrom_eq_of_rest (.inl rfl) hrest bad).2]
        rw [hnext]
        exact ih hrest
      · rw [if_neg hscore] at hrest
        rw [if_neg hscore, if_neg hscore]
        obtain rfl : c :: w = r := List.append_cancel_right hrest
        rfl

/-- What starts with a character that a number goes on with keeps that character. -/
theorem StandsIn.head_eq {y z : Text} (hz : StandsIn continuesNumber y z) {c : Char}
    (hc : continuesNumber c = true) {rest : Text} (h : z = c :: rest) :
    ∃ rest', y = c :: rest' := by
  subst h
  rcases hz with hz | hz
  · exact List.head?_eq_some_iff.mp hz.symm
  · rw [List.head?_cons, Option.any_some, hc] at hz
    cases hz

theorem endNumber_standsIn {kind : TokenKind} {notes : List SyntaxError} {r y z : Text} {n : Nat}
    (hz : StandsIn continuesNumber y z)
    (hrest : (endNumber kind notes ⟨r ++ y, n⟩).place.rest = y)
    (hkind : (endNumber kind notes ⟨r ++ y, n⟩).kind.isBad = false) :
    endNumber kind notes ⟨r ++ z, n⟩ = (endNumber kind notes ⟨r ++ y, n⟩).before z := by
  obtain rfl : r = [] := by
    rw [endNumber_place] at hrest
    exact List.append_left_eq_self.mp hrest
  simp only [List.nil_append] at hkind ⊢
  have hname (c : Char) (rest : Text) (h : y = c :: rest) : isNameStart c = false := by
    subst h
    cases hc : isNameStart c with
    | false => rfl
    | true =>
      rw [endNumber] at hkind
      simp [hc, TokenKind.isBad] at hkind
  have hend (t : Text) (ht : ∀ c rest, t = c :: rest → isNameStart c = false) :
      endNumber kind notes ⟨t, n⟩ = ⟨kind, notes, ⟨t, n⟩⟩ := by
    cases t with
    | nil => rfl
    | cons c rest => simp [endNumber, ht c rest rfl]
  rw [hend y hname]
  refine hend z fun c rest h => ?_
  cases hc : isNameStart c with
  | false => rfl
  | true =>
    have hcontinues : continuesNumber c = true := by simp [continuesNumber, hc]
    obtain ⟨rest', hy⟩ := hz.head_eq hcontinues h
    exact hc.symm.trans (hname c rest' hy)

/-- The mark of an integer of any size behind its digits, or what else may stand there. -/
def orBigint (value : Nat) (notes : List SyntaxError) (offset : Nat)
    (other : Text → ScannedNumber) : Text → ScannedNumber
  | 'n' :: rest => endNumber (.bigint value) notes ⟨rest, offset + 1⟩
  | text => other text

theorem orBigint_other (value offset : Nat) (notes : List SyntaxError)
    (other : Text → ScannedNumber) {text : Text} (h : ∀ rest, text ≠ 'n' :: rest) :
    orBigint value notes offset other text = other text := by
  unfold orBigint
  split
  · next rest => exact absurd rfl (h rest)
  · rfl

theorem orBigint_suffix (value offset : Nat) (notes : List SyntaxError)
    {other : Text → ScannedNumber} {text : Text} (hother : (other text).place.rest <:+ text) :
    (orBigint value notes offset other text).place.rest <:+ text := by
  unfold orBigint
  split
  · rw [endNumber_place]
    exact List.suffix_cons ..
  · exact hother

theorem orBigint_standsIn {value offset : Nat} {notes : List SyntaxError}
    {other : Text → ScannedNumber} {r y z : Text} (hz : StandsIn continuesNumber y z)
    (hother : (other (r ++ y)).place.rest = y → (other (r ++ y)).kind.isBad = false →
      other (r ++ z) = (other (r ++ y)).before z)
    (hrest : (orBigint value notes offset other (r ++ y)).place.rest = y)
    (hkind : (orBigint value notes offset other (r ++ y)).kind.isBad = false) :
    orBigint value notes offset other (r ++ z) =
      (orBigint value notes offset other (r ++ y)).before z := by
  by_cases hn : ∃ rest, r ++ y = 'n' :: rest
  · obtain ⟨rest, hn⟩ := hn
    rw [hn, orBigint, endNumber_place] at hrest
    obtain rfl : rest = y := hrest
    obtain rfl : r = ['n'] := List.append_cancel_right hn
    exact endNumber_standsIn hz (by rw [endNumber_place]; rfl) hkind
  · have hy (rest : Text) : r ++ y ≠ 'n' :: rest := fun h => hn ⟨rest, h⟩
    have hz' (rest : Text) : r ++ z ≠ 'n' :: rest := by
      intro h
      cases r with
      | nil => exact hn (hz.head_eq (by decide) h)
      | cons c r => exact hn ⟨r ++ y, by rw [(List.cons.inj h).1]; rfl⟩
    rw [orBigint_other value offset notes other hy] at hrest hkind ⊢
    rw [orBigint_other value offset notes other hz']
    exact hother hrest hkind

theorem scanRadix_eq (base : Nat) (p : Place) :
    scanRadix base p =
      if (scanDigits base p).count == 0 then
        ⟨.bad (missingDigit base (scanDigits base p).start), (scanDigits base p).notes,
          (scanDigits base p).place⟩
      else
        orBigint (scanDigits base p).value (scanDigits base p).notes
          (scanDigits base p).place.offset
          (fun text => endNumber (.number (Numeral.ofNat (scanDigits base p).value))
            (scanDigits base p).notes ⟨text, (scanDigits base p).place.offset⟩)
          (scanDigits base p).place.rest := by
  unfold scanRadix
  extract_lets digits notes
  split
  · rfl
  · split
    · next rest h => rw [h, orBigint]
    · next h => rw [orBigint_other _ _ _ _ h]

theorem scanRadix_standsIn {base : Nat} {w y z : Text} {n : Nat} (hz : StandsIn continuesNumber y z)
    (hrest : (scanRadix base ⟨w ++ y, n⟩).place.rest = y)
    (hkind : (scanRadix base ⟨w ++ y, n⟩).kind.isBad = false) :
    scanRadix base ⟨w ++ z, n⟩ = (scanRadix base ⟨w ++ y, n⟩).before z := by
  have hdigits {r : Text} (hr : (scanDigits base ⟨w ++ y, n⟩).place.rest = r ++ y) :
      scanDigits base ⟨w ++ z, n⟩ = (scanDigits base ⟨w ++ y, n⟩).before (r ++ z) :=
    digitsFrom_standsIn hz hr
  rw [scanRadix_eq] at hrest hkind
  rw [scanRadix_eq, scanRadix_eq]
  generalize scanDigits base ⟨w ++ y, n⟩ = digits at hdigits hrest hkind ⊢
  split at hkind
  · cases hkind
  · next hcount =>
    rw [if_neg hcount] at hrest
    obtain ⟨r, hr⟩ : y <:+ digits.place.rest := by
      rw [← hrest]
      exact orBigint_suffix _ _ _ (by simpa only [endNumber_place] using List.suffix_refl _)
    rw [hdigits hr.symm]
    obtain ⟨start, value, count, bad, ⟨rest, offset⟩⟩ := digits
    obtain rfl : r ++ y = rest := hr
    rw [if_neg hcount]
    exact (if_neg hcount).trans
      (orBigint_standsIn hz (fun hrest hkind => endNumber_standsIn hz hrest hkind) hrest hkind)

/-- An exponent as it was read, before another text. -/
def Exponent.before (exponent : Exponent) (z : Text) : Exponent :=
  { exponent with place := ⟨z, exponent.place.offset⟩ }

/-- The sign of an exponent and the place of its digits, behind the letter at an offset. -/
def afterSign (rest : Text) (n : Nat) : Bool × Place :=
  match rest with
  | '-' :: rest => (true, ⟨rest, n + 2⟩)
  | '+' :: rest => (false, ⟨rest, n + 2⟩)
  | _ => (false, ⟨rest, n + 1⟩)

theorem afterSign_cons (c : Char) (w : Text) (n : Nat) :
    ∃ negative more offset, ∀ z, afterSign (c :: w ++ z) n = (negative, ⟨more ++ z, offset⟩) := by
  by_cases hminus : c = '-'
  · subst hminus
    exact ⟨true, w, n + 2, fun z => rfl⟩
  by_cases hplus : c = '+'
  · subst hplus
    exact ⟨false, w, n + 2, fun z => rfl⟩
  · exact ⟨false, c :: w, n + 1, fun z => by simp [afterSign, hminus, hplus]⟩

theorem afterSign_cases (rest : Text) (n : Nat) :
    (∃ sign more negative, rest = sign :: more ∧ afterSign rest n = (negative, ⟨more, n + 2⟩)) ∨
      afterSign rest n = (false, ⟨rest, n + 1⟩) := by
  unfold afterSign
  split
  · exact .inl ⟨_, _, true, rfl, rfl⟩
  · exact .inl ⟨_, _, false, rfl, rfl⟩
  · exact .inr rfl

/-- What an exponent is once its digits are known. -/
def exponentOf (rest : Text) (start : Bool × Place) : Exponent :=
  let digits := scanDigits 10 start.2
  ⟨if start.1 then -digits.value else digits.value, digits.notes,
    if rest.isEmpty then some ⟨start.2.offset, "Expected +, - or decimal digit after e"⟩
    else if digits.count == 0 then some (missingDigit 10 digits.start)
    else none,
    digits.place⟩

theorem scanExponent_cons (c : Char) (rest : Text) (n : Nat) :
    scanExponent ⟨c :: rest, n⟩ =
      if c == 'e' || c == 'E' then exponentOf rest (afterSign rest n)
      else ⟨0, [], none, ⟨c :: rest, n⟩⟩ := by
  rfl

/-- An exponent has digits, so its letter is not all that has been read. -/
theorem exponentOf_suffix {rest : Text} {n : Nat}
    (herror : (exponentOf rest (afterSign rest n)).error = none) :
    (exponentOf rest (afterSign rest n)).place.rest <:+ rest ∧
      (exponentOf rest (afterSign rest n)).place.rest ≠ rest := by
  have hdigits (p : Place) : (scanDigits 10 p).place.rest <:+ p.rest := by
    obtain ⟨read, hread, -⟩ := scanDigits_reaches 10 p
    exact ⟨read, hread.symm⟩
  rcases afterSign_cases rest n with ⟨sign, more, negative, rfl, hsign⟩ | hsign
  · rw [hsign]
    exact ⟨(hdigits ⟨more, n + 2⟩).trans (List.suffix_cons ..),
      (scanDigits_reaches 10 ⟨more, n + 2⟩).rest_ne sign []⟩
  · rw [hsign] at herror ⊢
    refine ⟨hdigits ⟨rest, n + 1⟩, fun h => ?_⟩
    have hnone : scanDigits 10 ⟨rest, n + 1⟩ = _ := (digitsFrom_eq_of_rest (.inl rfl) h false).1
    unfold exponentOf at herror
    rw [hnone] at herror
    by_cases hempty : rest.isEmpty = true
    · simp [hempty] at herror
    · simp [hempty] at herror

theorem scanExponent_none {z : Text} (n : Nat) (hz : ∀ c rest, z = c :: rest → c ≠ 'e' ∧ c ≠ 'E') :
    scanExponent ⟨z, n⟩ = ⟨0, [], none, ⟨z, n⟩⟩ := by
  cases z with
  | nil => rfl
  | cons c rest =>
    obtain ⟨hsmall, hlarge⟩ := hz c rest rfl
    rw [scanExponent_cons, if_neg (by simp [hsmall, hlarge])]

theorem scanExponent_standsIn {w y z : Text} {n : Nat} (hz : StandsIn continuesNumber y z)
    (hrest : (scanExponent ⟨w ++ y, n⟩).place.rest = y)
    (herror : (scanExponent ⟨w ++ y, n⟩).error = none) :
    scanExponent ⟨w ++ z, n⟩ = (scanExponent ⟨w ++ y, n⟩).before z := by
  cases w with
  | nil =>
    -- no exponent: its letter would have been read
    rw [List.nil_append] at hrest
    have hy (c : Char) (rest : Text) (h : y = c :: rest) : c ≠ 'e' ∧ c ≠ 'E' := by
      subst h
      rw [List.nil_append, scanExponent_cons] at herror
      rw [scanExponent_cons] at hrest
      by_cases hletter : (c == 'e' || c == 'E') = true
      · rw [if_pos hletter] at hrest herror
        have hlength := (exponentOf_suffix herror).1.length_le
        rw [hrest, List.length_cons] at hlength
        omega
      · simpa using hletter
    rw [List.nil_append, List.nil_append, scanExponent_none n hy]
    refine scanExponent_none n fun c rest h => ⟨?_, ?_⟩
    · rintro rfl
      obtain ⟨rest', hrest'⟩ := hz.head_eq (by decide) h
      exact (hy 'e' rest' hrest').1 rfl
    · rintro rfl
      obtain ⟨rest', hrest'⟩ := hz.head_eq (by decide) h
      exact (hy 'E' rest' hrest').2 rfl
  | cons c w =>
    rw [List.cons_append, scanExponent_cons] at hrest herror
    rw [List.cons_append, List.cons_append, scanExponent_cons, scanExponent_cons]
    by_cases hletter : (c == 'e' || c == 'E') = true
    · rw [if_pos hletter] at hrest herror
      rw [if_pos hletter, if_pos hletter]
      cases w with
      | nil => exact absurd hrest (exponentOf_suffix herror).2
      | cons d w =>
        obtain ⟨negative, more, offset, hsign⟩ := afterSign_cons d w n
        rw [hsign] at hrest herror ⊢
        rw [hsign]
        have hdigits : scanDigits 10 ⟨more ++ z, offset⟩ =
            (scanDigits 10 ⟨more ++ y, offset⟩).before ([] ++ z) := digitsFrom_standsIn hz hrest
        unfold exponentOf
        simp only [hdigits]
        rfl
    · rw [if_neg hletter] at hrest
      exact absurd (List.append_left_eq_self.mp hrest) (List.cons_ne_nil c w)

/-- The digits behind the point of a fraction, if there is one. -/
def fractionOf (whole n : Nat) : Text → Digits
  | '.' :: rest => digitsFrom 10 (n + 1) rest (n + 1) whole 0 false
  | text => ⟨n, whole, 0, false, ⟨text, n⟩⟩

theorem fractionOf_other (whole n : Nat) {text : Text} (h : ∀ rest, text ≠ '.' :: rest) :
    fractionOf whole n text = ⟨n, whole, 0, false, ⟨text, n⟩⟩ := by
  unfold fractionOf
  split
  · next rest => exact absurd rfl (h rest)
  · rfl

theorem fractionOf_standsIn {whole n : Nat} {w r y z : Text} (hz : StandsIn continuesNumber y z)
    (hrest : (fractionOf whole n (w ++ y)).place.rest = r ++ y) :
    fractionOf whole n (w ++ z) = (fractionOf whole n (w ++ y)).before (r ++ z) := by
  by_cases hpoint : ∃ rest, w ++ y = '.' :: rest
  · obtain ⟨rest, hpoint⟩ := hpoint
    rw [hpoint] at hrest ⊢
    obtain ⟨more, rfl, rfl⟩ := exists_split ['.'] hpoint (by
      have hlength := (digitsFrom_reaches 10 (n + 1) rest (n + 1) whole 0 false).length_le
      rw [show (digitsFrom 10 (n + 1) rest (n + 1) whole 0 false).place.rest = r ++ y from hrest,
        List.length_append] at hlength
      omega)
    exact digitsFrom_standsIn hz hrest
  · have hy (rest : Text) : w ++ y ≠ '.' :: rest := fun h => hpoint ⟨rest, h⟩
    have hz' (rest : Text) : w ++ z ≠ '.' :: rest := by
      intro h
      cases w with
      | nil => exact hpoint (hz.head_eq (by decide) h)
      | cons c w => exact hpoint ⟨w ++ y, by rw [(List.cons.inj h).1]; rfl⟩
    rw [fractionOf_other whole n hy] at hrest ⊢
    rw [fractionOf_other whole n hz']
    obtain rfl : w = r := List.append_cancel_right hrest
    rfl

/-- A number, given its digits behind the point and its exponent. -/
def numberOf (notes : List SyntaxError) (fraction : Digits) (exponent : Exponent) : ScannedNumber :=
  match exponent.error with
  | some e => ⟨.bad e, notes ++ fraction.notes ++ exponent.notes, exponent.place⟩
  | none =>
    endNumber (.number (Numeral.ofDecimal fraction.value (exponent.value - fraction.count)))
      (notes ++ fraction.notes ++ exponent.notes) exponent.place

theorem numberOf_place (notes : List SyntaxError) (fraction : Digits) (exponent : Exponent) :
    (numberOf notes fraction exponent).place = exponent.place := by
  unfold numberOf
  split
  · rfl
  · rw [endNumber_place]

theorem error_of_numberOf {notes : List SyntaxError} {fraction : Digits} {exponent : Exponent}
    (hkind : (numberOf notes fraction exponent).kind.isBad = false) : exponent.error = none := by
  unfold numberOf at hkind
  split at hkind
  · cases hkind
  · assumption

theorem numberOf_before {notes : List SyntaxError} {fraction : Digits} {exponent : Exponent}
    {y z : Text} (hz : StandsIn continuesNumber y z) (hrest : exponent.place.rest = y)
    (hkind : (numberOf notes fraction exponent).kind.isBad = false) (more : Text) :
    numberOf notes (fraction.before more) (exponent.before z) =
      (numberOf notes fraction exponent).before z := by
  obtain ⟨value, notes', error, ⟨rest, offset⟩⟩ := exponent
  obtain rfl : rest = y := hrest
  obtain rfl : error = none := error_of_numberOf hkind
  have hplace := congrArg Place.rest (numberOf_place notes fraction ⟨value, notes', none, ⟨rest, offset⟩⟩)
  exact endNumber_standsIn (r := []) hz hplace hkind

theorem scanFraction_eq (whole : Nat) (notes : List SyntaxError) (p : Place) :
    scanFraction whole notes p =
      numberOf notes (fractionOf whole p.offset p.rest)
        (scanExponent (fractionOf whole p.offset p.rest).place) := by
  have hfraction : fractionOf whole p.offset p.rest =
      match p.rest with
      | '.' :: rest => digitsFrom 10 (p.offset + 1) rest (p.offset + 1) whole 0 false
      | _ => ⟨p.offset, whole, 0, false, p⟩ := by
    split
    · next rest h => rw [h, fractionOf]
    · next h => rw [fractionOf_other whole p.offset h]
  rw [hfraction]
  rfl

theorem scanFraction_standsIn {whole n : Nat} {notes : List SyntaxError} {w y z : Text}
    (hz : StandsIn continuesNumber y z)
    (hrest : (scanFraction whole notes ⟨w ++ y, n⟩).place.rest = y)
    (hkind : (scanFraction whole notes ⟨w ++ y, n⟩).kind.isBad = false) :
    scanFraction whole notes ⟨w ++ z, n⟩ = (scanFraction whole notes ⟨w ++ y, n⟩).before z := by
  have hfraction {r : Text} (hr : (fractionOf whole n (w ++ y)).place.rest = r ++ y) :=
    fractionOf_standsIn hz hr
  rw [scanFraction_eq] at hrest hkind
  rw [scanFraction_eq, scanFraction_eq]
  dsimp only at hrest hkind ⊢
  generalize fractionOf whole n (w ++ y) = fraction at hfraction hrest hkind ⊢
  rw [numberOf_place] at hrest
  obtain ⟨r, hr, -⟩ := scanExponent_reaches fraction.place
  rw [hrest] at hr
  obtain ⟨start, value, count, bad, ⟨rest, offset⟩⟩ := fraction
  obtain rfl : rest = r ++ y := hr
  have hexponent := scanExponent_standsIn hz hrest (error_of_numberOf hkind)
  rw [hfraction rfl, ← numberOf_before hz hrest hkind (r ++ z), ← hexponent]
  rfl

theorem decimal_eq (p : Place) :
    scanNumber.decimal p =
      orBigint (scanDigits 10 p).value (scanDigits 10 p).notes (scanDigits 10 p).place.offset
        (fun text => scanFraction (scanDigits 10 p).value (scanDigits 10 p).notes
          ⟨text, (scanDigits 10 p).place.offset⟩)
        (scanDigits 10 p).place.rest := by
  unfold scanNumber.decimal
  extract_lets whole notes
  split
  · next rest h => rw [h, orBigint]
  · next h => rw [orBigint_other _ _ _ _ h]

theorem decimal_standsIn {w y z : Text} {n : Nat} (hz : StandsIn continuesNumber y z)
    (hrest : (scanNumber.decimal ⟨w ++ y, n⟩).place.rest = y)
    (hkind : (scanNumber.decimal ⟨w ++ y, n⟩).kind.isBad = false) :
    scanNumber.decimal ⟨w ++ z, n⟩ = (scanNumber.decimal ⟨w ++ y, n⟩).before z := by
  have hdigits {r : Text} (hr : (scanDigits 10 ⟨w ++ y, n⟩).place.rest = r ++ y) :
      scanDigits 10 ⟨w ++ z, n⟩ = (scanDigits 10 ⟨w ++ y, n⟩).before (r ++ z) :=
    digitsFrom_standsIn hz hr
  rw [decimal_eq] at hrest hkind
  rw [decimal_eq, decimal_eq]
  generalize scanDigits 10 ⟨w ++ y, n⟩ = digits at hdigits hrest hkind ⊢
  obtain ⟨start, value, count, bad, ⟨rest, offset⟩⟩ := digits
  obtain ⟨r, hr⟩ : y <:+ rest := by
    rw [← hrest]
    refine orBigint_suffix _ _ _ ?_
    obtain ⟨read, hread, -⟩ := scanFraction_reaches value
      (Digits.notes ⟨start, value, count, bad, ⟨rest, offset⟩⟩) ⟨rest, offset⟩
    exact ⟨read, hread.symm⟩
  subst hr
  rw [hdigits rfl]
  exact orBigint_standsIn hz (fun hrest hkind => scanFraction_standsIn hz hrest hkind) hrest hkind

theorem digitIn?_mono {base base' : Nat} {c : Char} {d : Nat} (hbase : base ≤ base')
    (h : digitIn? base c = some d) : digitIn? base' c = some d := by
  unfold digitIn? at h ⊢
  split at h
  · next hhex =>
    split at h
    · next hlt => rw [if_pos (Nat.lt_of_lt_of_le hlt hbase), h]
    · cases h
  · cases h

/-- Decimal digits go at least as far as octal ones, and there are more of them if they go
further. -/
theorem digitsFrom_octal (start : Nat) (text : Text) (n value value' count : Nat)
    (bad bad' : Bool) :
    let octal := digitsFrom 8 start text n value count bad
    let decimal := digitsFrom 10 start text n value' count bad'
    octal.place.Reaches decimal.place ∧ octal.count ≤ decimal.count ∧
      (octal.count = decimal.count → octal.place = decimal.place) := by
  have hcount (text : Text) (n value count : Nat) (bad : Bool) :
      count ≤ (digitsFrom 10 start text n value count bad).count := by
    fun_induction digitsFrom 10 start text n value count bad with
    | case1 => exact Nat.le_refl _
    | case2 _ _ _ _ _ _ _ _ ih => exact Nat.le_trans (Nat.le_succ _) ih
    | case3 _ _ _ _ _ _ _ _ _ ih => exact ih
    | case4 => exact Nat.le_refl _
  induction text generalizing n value value' count bad bad' with
  | nil => exact ⟨.refl _, Nat.le_refl _, fun _ => rfl⟩
  | cons c rest ih =>
    rw [digitsFrom_cons, digitsFrom_cons]
    cases hoctal : digitIn? 8 c with
    | some d =>
      rw [digitIn?_mono (by decide) hoctal]
      exact ih ..
    | none =>
      by_cases hscore : c = '_'
      · subst hscore
        exact ih ..
      · dsimp only
        rw [if_neg (mt eq_of_beq hscore)]
        cases hdecimal : digitIn? 10 c with
        | none =>
          dsimp only
          rw [if_neg (mt eq_of_beq hscore)]
          exact ⟨.refl _, Nat.le_refl _, fun _ => rfl⟩
        | some d =>
          have hmore := hcount rest (n + 1) (10 * value' + d) (count + 1) bad'
          refine ⟨.short (utf8Size_of_digitIn? hdecimal) (digitsFrom_reaches ..),
            Nat.le_of_succ_le hmore, fun h => ?_⟩
          rw [← show count = _ from h] at hmore
          exact absurd hmore (Nat.not_succ_le_self count)

/-- A number in the old style, which starts with a zero before another digit. -/
def legacyNumber (p : Place) : ScannedNumber :=
  if (scanDigits 8 p).count == (scanDigits 10 p).count then
    endNumber (.number (Numeral.ofNat (scanDigits 8 p).value))
      ((scanDigits 8 p).notes ++ [⟨p.offset,
        "Legacy octal literals are not available when targeting ECMAScript 5 and higher"⟩])
      (scanDigits 8 p).place
  else
    scanFraction (scanDigits 10 p).value
      ((scanDigits 10 p).notes ++
        [⟨p.offset, "Legacy decimal escape is not permitted in strict mode"⟩])
      (scanDigits 10 p).place

theorem legacyNumber_reaches (p : Place) :
    (scanDigits 10 p).place.Reaches (legacyNumber p).place := by
  unfold legacyNumber
  split
  · next h =>
    have hplace : (scanDigits 8 p).place = (scanDigits 10 p).place :=
      (digitsFrom_octal p.offset p.rest p.offset 0 0 0 false false).2.2 (eq_of_beq h)
    rw [endNumber_place, hplace]
    exact .refl _
  · exact scanFraction_reaches _ _ _

theorem legacyNumber_standsIn {w y z : Text} {n : Nat} (hz : StandsIn continuesNumber y z)
    (hrest : (legacyNumber ⟨w ++ y, n⟩).place.rest = y)
    (hkind : (legacyNumber ⟨w ++ y, n⟩).kind.isBad = false) :
    legacyNumber ⟨w ++ z, n⟩ = (legacyNumber ⟨w ++ y, n⟩).before z := by
  obtain ⟨r, hr, -⟩ := legacyNumber_reaches ⟨w ++ y, n⟩
  obtain ⟨r', hr', -⟩ := (digitsFrom_octal n (w ++ y) n 0 0 0 false false).1
  rw [hrest] at hr
  have hdecimal : scanDigits 10 ⟨w ++ z, n⟩ = (scanDigits 10 ⟨w ++ y, n⟩).before (r ++ z) :=
    digitsFrom_standsIn hz hr
  have hoctal : scanDigits 8 ⟨w ++ z, n⟩ =
      (scanDigits 8 ⟨w ++ y, n⟩).before (r' ++ r ++ z) := by
    refine digitsFrom_standsIn hz ?_
    rw [hr', List.append_assoc]
    exact congrArg (r' ++ ·) hr
  replace hr' : (scanDigits 8 ⟨w ++ y, n⟩).place.rest = r' ++ r ++ y := by
    rw [List.append_assoc, ← hr]
    exact hr'
  unfold legacyNumber at hrest hkind ⊢
  rw [hoctal, hdecimal]
  generalize scanDigits 8 ⟨w ++ y, n⟩ = octal at hrest hkind hr' ⊢
  generalize scanDigits 10 ⟨w ++ y, n⟩ = decimal at hrest hkind hr ⊢
  obtain ⟨start, value, count, bad, ⟨rest, offset⟩⟩ := octal
  obtain ⟨start', value', count', bad', ⟨rest', offset'⟩⟩ := decimal
  obtain rfl : rest = r' ++ r ++ y := hr'
  obtain rfl : rest' = r ++ y := hr
  dsimp only [Digits.before] at hrest hkind ⊢
  by_cases hcount : (count == count') = true
  · simp only [hcount, if_true] at hrest hkind ⊢
    exact endNumber_standsIn hz hrest hkind
  · simp only [hcount] at hrest hkind ⊢
    exact scanFraction_standsIn hz hrest hkind

/-- The base that a letter behind a zero announces. -/
def radixOf (x : Char) : Option Nat :=
  if x == 'x' || x == 'X' then some 16
  else if x == 'o' || x == 'O' then some 8
  else if x == 'b' || x == 'B' then some 2
  else none

/-- Whether a character behind a zero makes a number of the old style. -/
def isLegacy (x : Char) : Bool := x.isDigit || x == '_'

/-- A zero and the character behind it decide what kind of number this is. -/
theorem scanNumber_zero (x : Char) (rest : Text) (n : Nat) :
    scanNumber ⟨'0' :: x :: rest, n⟩ =
      match radixOf x with
      | some base => scanRadix base ⟨rest, n + 2⟩
      | none =>
        if isLegacy x then legacyNumber ⟨'0' :: x :: rest, n⟩
        else scanNumber.decimal ⟨'0' :: x :: rest, n⟩ := by
  by_cases h16 : (x == 'x' || x == 'X') = true
  · simp [scanNumber, radixOf, h16]
  by_cases h8 : (x == 'o' || x == 'O') = true
  · simp [scanNumber, radixOf, h16, h8]
  by_cases h2 : (x == 'b' || x == 'B') = true
  · simp [scanNumber, radixOf, h16, h8, h2]
  simp only [scanNumber, radixOf, isLegacy, if_neg h16, if_neg h8, if_neg h2]
  rfl

/-- Whether a character behind a zero belongs to the same number, other than as a decimal. -/
def joinsZero (x : Char) : Bool := (radixOf x).isSome || isLegacy x

/-- A zero and a character that joins it are read together. -/
theorem scanNumber_joins {x : Char} (hx : joinsZero x = true) (rest : Text) (n : Nat) :
    (Place.mk rest (n + 2)).Reaches (scanNumber ⟨'0' :: x :: rest, n⟩).place := by
  rw [scanNumber_zero]
  cases hradix : radixOf x with
  | some base => exact scanRadix_reaches base ⟨rest, n + 2⟩
  | none =>
    have hlegacy : isLegacy x = true := by rwa [joinsZero, hradix] at hx
    dsimp only
    rw [if_pos hlegacy]
    refine .trans ?_ (legacyNumber_reaches _)
    rw [scanDigits, digitsFrom_cons, show digitIn? 10 '0' = some 0 by decide]
    dsimp only
    rw [digitsFrom_cons]
    cases hdigit : digitIn? 10 x with
    | some d => exact digitsFrom_reaches ..
    | none =>
      have hscore : (x == '_') = true := by
        refine (Bool.or_eq_true_iff.mp hlegacy).resolve_left fun h => ?_
        obtain ⟨hlow, hhigh⟩ := Bool.and_eq_true_iff.mp h
        have hlow' : 48 ≤ x.toNat := UInt32.le_iff_toNat_le.mp (of_decide_eq_true hlow)
        have hhigh' : x.toNat ≤ 57 := UInt32.le_iff_toNat_le.mp (of_decide_eq_true hhigh)
        have hvalue : x.toNat - 48 < 10 := by omega
        simp [digitIn?, hexDigit?, hlow', hhigh', hvalue] at hdigit
      dsimp only
      rw [if_pos hscore]
      exact digitsFrom_reaches ..

theorem continuesNumber_of_joinsZero {x : Char} (h : joinsZero x = true) :
    continuesNumber x = true := by
  have hbeq (c : Char) (hc : continuesNumber c = true) (hx : (x == c) = true) :
      continuesNumber x = true := by rw [eq_of_beq hx, hc]
  rcases Bool.or_eq_true_iff.mp h with h | h
  · unfold radixOf at h
    split at h
    · next hx =>
      exact (Bool.or_eq_true_iff.mp hx).elim (hbeq 'x' (by decide)) (hbeq 'X' (by decide))
    split at h
    · next hx =>
      exact (Bool.or_eq_true_iff.mp hx).elim (hbeq 'o' (by decide)) (hbeq 'O' (by decide))
    split at h
    · next hx =>
      exact (Bool.or_eq_true_iff.mp hx).elim (hbeq 'b' (by decide)) (hbeq 'B' (by decide))
    · cases h
  · refine (Bool.or_eq_true_iff.mp h).elim (fun hx => ?_) (hbeq '_' (by decide))
    have hascii : x.toNat < 128 := by
      simp only [Char.isDigit, Bool.and_eq_true, decide_eq_true_eq] at hx
      have hle : x.toNat ≤ 57 := UInt32.le_iff_toNat_le.mp hx.2
      omega
    simp [continuesNumber, isNamePart, hascii, Char.isAlphanum, hx]

/-- A zero is read as a decimal number, unless it is part of another one. -/
theorem scanNumber_decimal {c : Char} {text : Text} (n : Nat)
    (h : c = '0' → text.head?.any joinsZero = false) :
    scanNumber ⟨c :: text, n⟩ = scanNumber.decimal ⟨c :: text, n⟩ := by
  by_cases hc : c = '0'
  · subst hc
    cases text with
    | nil => rfl
    | cons x rest =>
      have hx := h rfl
      rw [List.head?_cons, Option.any_some, joinsZero, Bool.or_eq_false_iff,
        Option.isSome_eq_false_iff, Option.isNone_iff_eq_none] at hx
      have hzero := scanNumber_zero x rest n
      rw [hx.1, hx.2] at hzero
      exact hzero
  · unfold scanNumber
    split
    · next x rest h => exact absurd (List.cons.inj h).1 hc
    · rfl

theorem scanNumber_standsIn {c : Char} {w y z : Text} {n : Nat} (hz : StandsIn continuesNumber y z)
    (hrest : (scanNumber ⟨c :: w ++ y, n⟩).place.rest = y)
    (hkind : (scanNumber ⟨c :: w ++ y, n⟩).kind.isBad = false) :
    scanNumber ⟨c :: w ++ z, n⟩ = (scanNumber ⟨c :: w ++ y, n⟩).before z := by
  have hdecimal (hy : c = '0' → (w ++ y).head?.any joinsZero = false)
      (hz' : c = '0' → (w ++ z).head?.any joinsZero = false) :
      scanNumber ⟨c :: w ++ z, n⟩ = (scanNumber ⟨c :: w ++ y, n⟩).before z := by
    have hscan : scanNumber ⟨c :: w ++ y, n⟩ = scanNumber.decimal ⟨c :: w ++ y, n⟩ :=
      scanNumber_decimal n hy
    rw [hscan] at hrest hkind ⊢
    rw [← decimal_standsIn hz hrest hkind]
    exact scanNumber_decimal n hz'
  by_cases hc : c = '0'
  · subst hc
    cases w with
    | nil =>
      -- a zero alone ends before `y`, so `y` starts with nothing that joins a zero
      have hy : y.head?.any joinsZero = false := by
        cases y with
        | nil => rfl
        | cons x rest =>
          cases hx : joinsZero x with
          | false => exact hx
          | true => exact absurd hrest ((scanNumber_joins hx rest n).rest_ne x [])
      refine hdecimal (fun _ => hy) fun _ => ?_
      rcases hz with hz | hz
      · rw [List.nil_append, hz]
        exact hy
      · cases z with
        | nil => rfl
        | cons x rest =>
          cases hx : joinsZero x with
          | false => exact hx
          | true =>
            rw [List.head?_cons, Option.any_some, continuesNumber_of_joinsZero hx] at hz
            cases hz
    | cons x w =>
      have hzero (t : Text) := scanNumber_zero x (w ++ t) n
      cases hradix : radixOf x with
      | some base =>
        rw [hradix] at hzero
        have hy : scanNumber ⟨'0' :: x :: w ++ y, n⟩ = _ := hzero y
        rw [hy] at hrest hkind ⊢
        exact (hzero z).trans (scanRadix_standsIn hz hrest hkind)
      | none =>
        cases hlegacy : isLegacy x with
        | true =>
          rw [hradix, hlegacy] at hzero
          have hy : scanNumber ⟨'0' :: x :: w ++ y, n⟩ = legacyNumber ⟨'0' :: x :: w ++ y, n⟩ :=
            hzero y
          rw [hy] at hrest hkind ⊢
          exact (hzero z).trans (legacyNumber_standsIn (w := '0' :: x :: w) hz hrest hkind)
        | false =>
          have hx : joinsZero x = false := by rw [joinsZero, hradix, hlegacy]; rfl
          exact hdecimal (fun _ => hx) fun _ => hx
  · exact hdecimal (fun h => absurd h hc) fun h => absurd h hc

end Retouch.Syntax
