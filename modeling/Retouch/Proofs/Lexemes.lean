import Retouch.Proofs.Lookahead
import Retouch.Proofs.Signs
import Retouch.Proofs.Parsing.Markup

/-!
# Texts as sequences of tokens
-/

namespace Retouch.Syntax

/-! ## Tokens -/

/-- Characters that make more of a point. -/
def continuesPoint (c : Char) : Bool := c == '.' || c.isDigit

/-- Characters that make more of a punctuator. -/
def continuesSign (w : Text) (c : Char) : Bool :=
  (signOf w).any (fun sign => (sign.1.extend? c).isSome) || w == ['.'] && continuesPoint c

/-- Whether a token is a number: a point starts one before a digit. -/
def startsNumber (c : Char) (rest : Text) : Bool :=
  c.isDigit || (c == '.' && rest.head?.any Char.isDigit)

/-- Characters that make another token of one. -/
def continuesToken (w : Text) (c : Char) : Bool :=
  match w with
  | [] => false
  | d :: rest =>
    if isNameStart d || d == '\\' then continuesName c
    else if startsNumber d rest then continuesNumber c
    else if d == '"' || d == '\x27' then false
    else continuesSign w c

/-- The place after the token at a place, if it is one. What is only complained about counts. -/
def readToken (p : Place) : Option Place :=
  if (scanKind false p).1.isBad then none else some (scanKind false p).2.2

theorem readToken_eq_some {p : Place} {y : Text} :
    (readToken p).map Place.rest = some y ↔
      (scanKind false p).1.isBad = false ∧ (scanKind false p).2.2.rest = y := by
  rw [readToken]
  cases hbad : (scanKind false p).1.isBad with
  | true => simp
  | false => simp

theorem readToken_reaches {p q : Place} (h : readToken p = some q) : p.Reaches q := by
  unfold readToken at h
  split at h
  · cases h
  · cases h
    exact (scanKind_reaches false p).1

section Kinds

variable {c : Char} {rest : Text} {n : Nat}

theorem scanKind_word (hword : (isNameStart c || c == '\\') = true) :
    scanKind false ⟨c :: rest, n⟩ =
      (wordKind false n (scanName ⟨c :: rest, n⟩), (scanName ⟨c :: rest, n⟩).notes,
        (scanName ⟨c :: rest, n⟩).place) := by
  simp only [scanKind, hword, if_true]

theorem scanKind_number (hword : (isNameStart c || c == '\\') = false)
    (hnumber : startsNumber c rest = true) :
    scanKind false ⟨c :: rest, n⟩ =
      ((scanNumber ⟨c :: rest, n⟩).kind, (scanNumber ⟨c :: rest, n⟩).notes,
        (scanNumber ⟨c :: rest, n⟩).place) := by
  rw [startsNumber] at hnumber
  simp only [scanKind, hword, hnumber, if_true, Bool.false_eq_true, if_false]

theorem scanKind_string (hword : (isNameStart c || c == '\\') = false)
    (hnumber : startsNumber c rest = false) (hquote : (c == '"' || c == '\x27') = true) :
    scanKind false ⟨c :: rest, n⟩ =
      ((stringFrom n c rest (n + 1) [] [] .plain).kind,
        (stringFrom n c rest (n + 1) [] [] .plain).notes,
        (stringFrom n c rest (n + 1) [] [] .plain).place) := by
  rw [startsNumber] at hnumber
  simp only [scanKind, hword, hnumber, hquote, if_true, Bool.false_eq_true, if_false, scanString]

theorem readToken_sign (hword : (isNameStart c || c == '\\') = false)
    (hnumber : startsNumber c rest = false) (hquote : (c == '"' || c == '\x27') = false) :
    readToken ⟨c :: rest, n⟩ = (scanSign ⟨c :: rest, n⟩).map Prod.snd := by
  rw [startsNumber] at hnumber
  simp only [readToken, scanKind, hword, hnumber, hquote, Bool.false_eq_true, if_false]
  cases scanSign ⟨c :: rest, n⟩ with
  | none => rfl
  | some sign => rfl

end Kinds

theorem error_of_wordKind {name : ScannedName} {strict : Bool} {n : Nat}
    (h : (wordKind strict n name).isBad = false) : name.error = none := by
  unfold wordKind at h
  split at h
  · cases h
  · assumption

theorem continuesToken_point (c : Char) : continuesToken ['.'] c = continuesPoint c := by
  have hpoint : isNameStart '.' = false := by decide
  simp [continuesToken, hpoint, startsNumber, continuesSign, signOf, Punct.extend?, continuesPoint]

theorem startsNumber_standsIn {c : Char} {w y z : Text}
    (hpoint : c :: w = ['.'] → y.head?.any continuesPoint = false)
    (hz : StandsIn (continuesToken (c :: w)) y z) :
    startsNumber c (w ++ z) = startsNumber c (w ++ y) := by
  have hdigit : ∀ {t : Text}, t.head?.any continuesPoint = false →
      t.head?.any Char.isDigit = false := by
    intro t ht
    cases t with
    | nil => rfl
    | cons d t => exact (Bool.or_eq_false_iff.mp ht).2
  cases w with
  | cons d w => rfl
  | nil =>
    by_cases hc : c = '.'
    · subst hc
      rcases hz with hz | hz
      · rw [startsNumber, startsNumber, List.nil_append, List.nil_append, hz]
      · rw [funext continuesToken_point] at hz
        rw [startsNumber, startsNumber, List.nil_append, List.nil_append, hdigit hz,
          hdigit (hpoint rfl)]
    · rw [startsNumber, startsNumber, beq_eq_false_iff_ne.mpr hc, Bool.false_and, Bool.false_and]

/-- The punctuator that ends before a text. -/
theorem exists_sign {w y : Text} {n : Nat}
    (h : ((scanSign ⟨w ++ y, n⟩).map Prod.snd).map Place.rest = some y) :
    ∃ p : Punct, w = p.text.toList ∧ signOf (w ++ y) = some (p, p.text.length) := by
  rw [scanSign] at h
  cases hsign : signOf (w ++ y) with
  | none => simp [hsign] at h
  | some sign =>
    obtain ⟨p, k⟩ := sign
    simp only [hsign, Option.map_some, Option.some.injEq] at h
    obtain ⟨rfl, hp⟩ := text_of_signOf hsign
    obtain ⟨t, ht⟩ := hp
    rw [← ht, ← String.length_toList, List.drop_left] at h
    subst h
    exact ⟨p, (List.append_cancel_right ht).symm, rfl⟩

theorem scanSign_rest {p : Punct} {z : Text} {n : Nat}
    (h : signOf (p.text.toList ++ z) = some (p, p.text.length)) :
    ((scanSign ⟨p.text.toList ++ z, n⟩).map Prod.snd).map Place.rest = some z := by
  rw [scanSign, h]
  simp only [Option.map_some, Option.some.injEq]
  rw [← String.length_toList, List.drop_left]

theorem signOf_standsIn {p : Punct} {y z : Text}
    (hsign : signOf (p.text.toList ++ y) = some (p, p.text.length))
    (hpoint : p.text.toList = ['.'] → y.head?.any continuesPoint = false)
    (hz : StandsIn (continuesSign p.text.toList) y z) :
    signOf (p.text.toList ++ z) = some (p, p.text.length) := by
  refine signOf_append p fun c rest hc => ?_
  subst hc
  rcases hz with hz | hz
  · cases y with
    | nil => cases hz
    | cons d y =>
      obtain rfl : c = d := Option.some.inj hz
      refine ⟨extend?_of_signOf hsign, fun hp hdot => ?_⟩
      subst hp hdot
      cases hpoint rfl
  · -- nothing follows the punctuator when it is read alone
    have halone := signOf_append p (z := []) nofun
    rw [List.append_nil] at halone
    obtain ⟨hextend, hdot⟩ := Bool.or_eq_false_iff.mp hz
    rw [halone, Option.any_some] at hextend
    refine ⟨Option.not_isSome_iff_eq_none.mp (Bool.eq_false_iff.mp hextend), fun hp hc => ?_⟩
    subst hp hc
    cases hdot

theorem continuesToken_word {c : Char} (hword : (isNameStart c || c == '\\') = true) (w : Text) :
    continuesToken (c :: w) = continuesName := by
  funext d
  simp only [continuesToken, hword, if_true]

/-- What follows a token matters to its reading by its first character only. -/
theorem readToken_standsIn {w y z : Text} (hw : w ≠ []) (n : Nat)
    (hread : (readToken ⟨w ++ y, n⟩).map Place.rest = some y)
    (hpoint : w = ['.'] → y.head?.any continuesPoint = false)
    (hz : StandsIn (continuesToken w) y z) :
    (readToken ⟨w ++ z, n⟩).map Place.rest = some z := by
  cases w with
  | nil => exact absurd rfl hw
  | cons c w =>
    have hnumber := startsNumber_standsIn hpoint hz
    have halone : startsNumber c w = startsNumber c (w ++ y) := by
      have h := startsNumber_standsIn (z := []) hpoint (.inr rfl)
      rwa [List.append_nil] at h
    rw [List.cons_append] at hread ⊢
    cases hword : isNameStart c || c == '\\' with
    | true =>
      rw [readToken_eq_some, scanKind_word hword] at hread ⊢
      obtain ⟨hkind, hrest⟩ := hread
      rw [continuesToken_word hword w] at hz
      have hscan : scanName ⟨c :: (w ++ z), n⟩ = (scanName ⟨c :: (w ++ y), n⟩).before z :=
        nameFrom_standsIn (w := c :: w) hz hrest (error_of_wordKind hkind)
      rw [hscan]
      exact ⟨hkind, rfl⟩
    | false =>
      cases hdigit : startsNumber c (w ++ y) with
      | true =>
        rw [readToken_eq_some, scanKind_number hword hdigit] at hread
        rw [readToken_eq_some, scanKind_number hword (hnumber.trans hdigit)]
        obtain ⟨hkind, hrest⟩ := hread
        have hjoin : continuesToken (c :: w) = continuesNumber := by
          funext d
          simp only [continuesToken, hword, halone, hdigit, if_true, Bool.false_eq_true, if_false]
        have hscan : scanNumber ⟨c :: w ++ z, n⟩ = (scanNumber ⟨c :: w ++ y, n⟩).before z :=
          scanNumber_standsIn (hjoin ▸ hz) hrest hkind
        rw [List.cons_append] at hscan
        rw [hscan]
        exact ⟨hkind, rfl⟩
      | false =>
        cases hquote : c == '"' || c == '\x27' with
        | true =>
          rw [readToken_eq_some, scanKind_string hword hdigit hquote] at hread
          rw [readToken_eq_some, scanKind_string hword (hnumber.trans hdigit) hquote]
          obtain ⟨hkind, hrest⟩ := hread
          have hsize : c.utf8Size = 1 := by
            rcases Bool.or_eq_true_iff.mp hquote with h | h
            · exact utf8Size_of_beq h rfl
            · exact utf8Size_of_beq h rfl
          rw [stringFrom_standsIn hsize z hrest hkind]
          exact ⟨hkind, rfl⟩
        | false =>
          rw [readToken_sign hword hdigit hquote] at hread
          rw [readToken_sign hword (hnumber.trans hdigit) hquote]
          have hjoin : continuesToken (c :: w) = continuesSign (c :: w) := by
            funext d
            simp only [continuesToken, hword, halone, hdigit, hquote, Bool.false_eq_true, if_false]
          rw [← List.cons_append] at hread ⊢
          obtain ⟨p, hp, hsign⟩ := exists_sign hread
          rw [hjoin] at hz
          rw [hp] at hsign hpoint hz ⊢
          exact scanSign_rest (signOf_standsIn hsign hpoint hz)

/-! ## Other ways of reading -/

section

variable {w y z : Text}

theorem scanNameParts_standsIn {n : Nat} (hz : StandsIn isNamePart y z)
    (hrest : (scanNameParts (w ++ y) n).2.rest = y) :
    (scanNameParts (w ++ z) n).2.rest = z := by
  induction w generalizing n with
  | nil =>
    cases z with
    | nil => rfl
    | cons c z =>
      have hc : isNamePart c = false := by
        rcases hz with hz | hz
        · obtain ⟨y, rfl⟩ := List.head?_eq_some_iff.mp hz.symm
          cases hc : isNamePart c with
          | false => rfl
          | true =>
            simp only [List.nil_append, scanNameParts, hc, if_true] at hrest
            exact absurd hrest ((scanNameParts_reaches y _).rest_ne c [])
        · exact hz
      simp [scanNameParts, hc]
  | cons c w ih =>
    cases hc : isNamePart c with
    | true =>
      simp only [List.cons_append, scanNameParts, hc, if_true] at hrest ⊢
      exact ih hrest
    | false =>
      simp only [List.cons_append, scanNameParts, hc, Bool.false_eq_true, if_false] at hrest
      exact absurd (List.append_left_eq_self.mp hrest) (List.cons_ne_nil c w)

/-- The mode behind a character of a regular expression, unless the character closes it. -/
def RegexMode.next : RegexMode → Char → Option RegexMode
  | .escape inSet, _ => some (if inSet then .set else .plain)
  | .set, c => some (if c == ']' then .plain else if c == '\\' then .escape true else .set)
  | .plain, c =>
    if c == '/' then none
    else some (if c == '[' then .set else if c == '\\' then .escape false else .plain)

theorem regexFrom_cons (c : Char) (rest : Text) (n : Nat) (done : Text) (mode : RegexMode) :
    regexFrom (c :: rest) n done mode =
      if isLineBreak c then none
      else match mode.next c with
        | none => some (done.reverse, ⟨rest, n + 1⟩)
        | some mode' => regexFrom rest (n + c.utf8Size) (c :: done) mode' := by
  rw [regexFrom]
  by_cases hbreak : isLineBreak c = true
  · rw [if_pos hbreak, if_pos hbreak]
  rw [if_neg hbreak, if_neg hbreak]
  cases mode with
  | escape inSet => rfl
  | set =>
    dsimp only [RegexMode.next]
    split
    · rfl
    · split
      · rfl
      · rfl
  | plain =>
    dsimp only [RegexMode.next]
    split
    · rfl
    · split
      · rfl
      · split
        · rfl
        · rfl

theorem length_of_regexFrom {text body : Text} {n : Nat} {done : Text} {mode : RegexMode} {p : Place}
    (h : regexFrom text n done mode = some (body, p)) : p.rest.length < text.length := by
  cases text with
  | nil => cases h
  | cons c rest =>
    rw [regexFrom_cons] at h
    split at h
    · cases h
    · split at h
      · cases h
        exact Nat.lt_succ_self _
      · exact Nat.lt_succ_of_le (regexFrom_reaches h).length_le

/-- A regular expression ends where it is closed, whatever follows. -/
theorem regexFrom_append {body flags : Text} {n m : Nat} {done : Text} {mode : RegexMode}
    (h : regexFrom (w ++ y) n done mode = some (body, ⟨flags ++ y, m⟩)) (z : Text) :
    regexFrom (w ++ z) n done mode = some (body, ⟨flags ++ z, m⟩) := by
  induction w generalizing n done mode with
  | nil =>
    have hlength := length_of_regexFrom h
    rw [List.nil_append, List.length_append] at hlength
    omega
  | cons c w ih =>
    rw [List.cons_append, regexFrom_cons] at h ⊢
    by_cases hbreak : isLineBreak c = true
    · rw [if_pos hbreak] at h
      cases h
    · rw [if_neg hbreak] at h ⊢
      cases hmode : mode.next c with
      | some mode' =>
        rw [hmode] at h
        exact ih h
      | none =>
        rw [hmode] at h
        dsimp only at h ⊢
        obtain ⟨hbody, hplace⟩ := Prod.mk.inj (Option.some.inj h)
        obtain ⟨hrest, hoffset⟩ := Place.mk.inj hplace
        obtain rfl : w = flags := List.append_cancel_right hrest
        rw [hbody, hoffset]

theorem skipUntil_standsIn {test : Char → Bool} {n : Nat} (hz : StandsIn (fun c => !test c) y z)
    (hrest : (Parser.skipUntil test (w ++ y) n).rest = y) (m : Nat) :
    (Parser.skipUntil test (w ++ z) m).rest = z := by
  induction w generalizing n m with
  | nil =>
    cases z with
    | nil => rfl
    | cons c z =>
      have hc : test c = true := by
        rcases hz with hz | hz
        · obtain ⟨y, rfl⟩ := List.head?_eq_some_iff.mp hz.symm
          cases hc : test c with
          | true => rfl
          | false =>
            simp only [List.nil_append, Parser.skipUntil, hc, Bool.false_eq_true, if_false] at hrest
            exact absurd hrest ((Parser.skipUntil_reaches test y _).rest_ne c [])
        · simpa using hz
      simp [Parser.skipUntil, hc]
  | cons c w ih =>
    cases hc : test c with
    | true =>
      simp only [List.cons_append, Parser.skipUntil, hc, if_true] at hrest
      exact absurd (List.append_left_eq_self.mp hrest) (List.cons_ne_nil c w)
    | false =>
      simp only [List.cons_append, Parser.skipUntil, hc, Bool.false_eq_true, if_false] at hrest ⊢
      exact ih hrest _

theorem quasiFrom_place (text : Text) (n : Nat) (done : Text) :
    (Place.mk text n).Reaches (quasiFrom text n done).place := by
  obtain ⟨stop, -, hstop, hplace⟩ := quasiFrom_reaches text n done
  exact hstop.trans hplace

theorem quasiFrom_ne {text : Text} {n : Nat} {done : Text}
    (hending : (quasiFrom text n done).ending ≠ .missing) :
    (quasiFrom text n done).place.rest ≠ text := by
  fun_induction quasiFrom text n done with
  | case1 => exact absurd rfl hending
  | case2 rest n => exact (Place.Reaches.refl ⟨rest, n⟩).rest_ne '$' ['\x7b']
  | case3 rest => exact (quasiFrom_place rest _ _).rest_ne '\\' ['\r', '\n']
  | case4 c rest => exact (quasiFrom_place rest _ _).rest_ne '\\' [c]
  | case5 rest => exact (quasiFrom_place rest _ _).rest_ne '\r' ['\n']
  | case6 c rest => exact (List.cons_ne_self c rest).symm
  | case7 c rest => exact (quasiFrom_place rest _ _).rest_ne c []

/-- A piece of a template ends where it is closed, whatever follows. -/
theorem quasiFrom_append {n : Nat} {done : Text} (hrest : (quasiFrom (w ++ y) n done).place.rest = y)
    (hending : (quasiFrom (w ++ y) n done).ending ≠ .missing) (z : Text) :
    (quasiFrom (w ++ z) n done).place.rest = z ∧ (quasiFrom (w ++ z) n done).ending ≠ .missing := by
  have hread (read : Text) {rest : Text} {n' : Nat} {done' : Text} {w : Text}
      (htext : w ++ y = read ++ rest) (hrest : (quasiFrom rest n' done').place.rest = y)
      (hending : (quasiFrom rest n' done').ending ≠ .missing) :
      ∃ d more, w = read ++ d :: more ∧ rest = d :: more ++ y := by
    have hlength := (quasiFrom_place rest n' done').length_le
    rw [hrest] at hlength
    obtain ⟨more, rfl, rfl⟩ := exists_split read htext hlength
    cases more with
    | nil => exact absurd hrest (quasiFrom_ne hending)
    | cons d more => exact ⟨d, more, rfl, rfl⟩
  generalize htext : w ++ y = text at hrest hending
  fun_induction quasiFrom text n done generalizing w with
  | case1 => exact absurd rfl hending
  | case2 rest n done =>
    obtain rfl : rest = y := hrest
    obtain rfl : w = ['$', '\x7b'] := List.append_cancel_right htext
    exact ⟨rfl, by rintro ⟨⟩⟩
  | case3 rest n done ih =>
    obtain ⟨d, more, rfl, rfl⟩ := hread ['\\', '\r', '\n'] htext hrest hending
    exact ih rfl hrest hending
  | case4 c rest n done hbreak ih =>
    obtain ⟨d, more, rfl, rfl⟩ := hread ['\\', c] htext hrest hending
    have hstep := quasiFrom.eq_4 n done c (d :: more ++ z)
      fun _ hc h => hbreak (more ++ y) hc (by cases h; rfl)
    rw [show ['\\', c] ++ d :: more ++ z = '\\' :: c :: (d :: more ++ z) from rfl, hstep]
    exact ih rfl hrest hending
  | case5 rest n done ih =>
    obtain ⟨d, more, rfl, rfl⟩ := hread ['\r', '\n'] htext hrest hending
    exact ih rfl hrest hending
  | case6 c rest n done _ _ _ _ hquote =>
    obtain rfl : rest = y := hrest
    obtain rfl : w = [c] := List.append_cancel_right htext
    have hne (d : Char) (hd : (d.toNat == 0x60) = false) : c ≠ d := by
      rintro rfl
      rw [hquote] at hd
      cases hd
    have hstep := quasiFrom.eq_6 n done c z (fun _ hc => absurd hc (hne _ rfl))
      (fun _ hc => absurd hc (hne _ rfl)) (fun _ _ hc => absurd hc (hne _ rfl))
      (fun _ hc => absurd hc (hne _ rfl))
    rw [List.singleton_append, hstep, if_pos hquote]
    exact ⟨rfl, by rintro ⟨⟩⟩
  | case7 c rest n done hdollar _ hescape hreturn hquote ih =>
    obtain ⟨d, more, rfl, rfl⟩ := hread [c] htext hrest hending
    have hstep := quasiFrom.eq_6 n done c (d :: more ++ z)
      (fun _ hc h => hdollar (more ++ y) hc (by cases h; rfl))
      (fun _ hc h => hescape d (more ++ y) hc rfl) (fun _ _ hc h => hescape d (more ++ y) hc rfl)
      (fun _ hc h => hreturn (more ++ y) hc (by cases h; rfl))
    rw [List.singleton_append, List.cons_append, hstep, if_neg hquote]
    exact ih rfl hrest hending

end

/-! ## Lexemes -/

/-- How a piece of text is read. The grammar asks for other readings than the plain one where a
regular expression, a piece of a template, an angle bracket of its own or markup may stand. -/
inductive Manner where
  | plain
  | angle
  | regex
  | template
  | tagWord
  | tagString
  | markup
deriving DecidableEq

/-- Characters that end the text between tags. -/
def endsMarkup (c : Char) : Bool := c == '<' || c == '\x7b' || c == '>' || c == '\x7d'

/-- Characters that end a name in a tag. -/
def endsTagWord (c : Char) : Bool := !(isNamePart c || c == '-')

namespace Manner

/-- The place after the angle bracket at a place. -/
def readAngle : Place → Option Place
  | ⟨c :: rest, n⟩ => if c == '<' || c == '>' then some ⟨rest, n + 1⟩ else none
  | ⟨[], _⟩ => none

/-- The place after the regular expression at a place. -/
def readRegex : Place → Option Place
  | ⟨c :: rest, n⟩ => if c == '/' then (scanRegex ⟨rest, n + 1⟩).map (·.place) else none
  | ⟨[], _⟩ => none

/-- The place after the piece of a template at a place, with the sign that opens it. -/
def readTemplate : Place → Option Place
  | ⟨c :: rest, n⟩ =>
    if c.toNat == 0x60 || c == '\x7d' then
      if (scanQuasi ⟨rest, n + 1⟩).ending = .missing then none
      else some (scanQuasi ⟨rest, n + 1⟩).place
    else none
  | ⟨[], _⟩ => none

/-- The place after a name that may go on with hyphens. -/
def goOnTagWord (after : Place) : Place :=
  if after.rest.head? == some '-' then Parser.skipUntil endsTagWord after.rest after.offset
  else after

/-- The place after the name at a place, in a tag. -/
def readTagWord : Place → Option Place
  | ⟨c :: rest, n⟩ =>
    if isNameStart c || c == '\\' then (readToken ⟨c :: rest, n⟩).map goOnTagWord else none
  | ⟨[], _⟩ => none

/-- The place after the string at a place, in a tag. -/
def readTagString : Place → Option Place
  | ⟨quote :: rest, n⟩ =>
    if quote == '"' || quote == '\x27' then
      match Parser.skipUntil (· == quote) rest (n + 1) with
      | ⟨_ :: after, m⟩ => some ⟨after, m + 1⟩
      | ⟨[], _⟩ => none
    else none
  | ⟨[], _⟩ => none

/-- The place after what stands at a place, read in a manner. -/
def read : Manner → Place → Option Place
  | .plain, p => readToken p
  | .angle, p => readAngle p
  | .regex, p => readRegex p
  | .template, p => readTemplate p
  | .tagWord, p => readTagWord p
  | .tagString, p => readTagString p
  | .markup, p => some (Parser.skipUntil endsMarkup p.rest p.offset)

section

variable {w y z : Text} {n : Nat}

theorem readAngle_append (hw : w ≠ []) (h : (readAngle ⟨w ++ y, n⟩).map Place.rest = some y)
    (z : Text) : (readAngle ⟨w ++ z, n⟩).map Place.rest = some z := by
  obtain ⟨c, w, rfl⟩ := List.exists_cons_of_ne_nil hw
  rw [List.cons_append, readAngle] at h ⊢
  by_cases hc : (c == '<' || c == '>') = true
  · rw [if_pos hc] at h ⊢
    obtain rfl : w = [] := List.append_left_eq_self.mp (Option.some.inj h)
    rfl
  · rw [if_neg hc] at h
    cases h

theorem scanRegex_standsIn (hz : StandsIn isNamePart y z) {regex : ScannedRegex}
    (h : scanRegex ⟨w ++ y, n⟩ = some regex) (hrest : regex.place.rest = y) :
    ∃ regex', scanRegex ⟨w ++ z, n⟩ = some regex' ∧ regex'.place.rest = z := by
  unfold scanRegex at h ⊢
  dsimp only at h ⊢
  cases hbody : regexFrom (w ++ y) n [] .plain with
  | none =>
    rw [hbody] at h
    cases h
  | some found =>
    obtain ⟨body, ⟨rest, m⟩⟩ := found
    rw [hbody] at h
    obtain rfl := Option.some.inj h
    obtain ⟨flags, hflags, -⟩ := scanNameParts_reaches rest m
    obtain rfl : rest = flags ++ y := by rw [show rest = _ from hflags]; exact congrArg _ hrest
    rw [regexFrom_append hbody z]
    exact ⟨_, rfl, scanNameParts_standsIn hz hrest⟩

theorem readRegex_standsIn (hw : w ≠ []) (hz : StandsIn isNamePart y z)
    (h : (readRegex ⟨w ++ y, n⟩).map Place.rest = some y) :
    (readRegex ⟨w ++ z, n⟩).map Place.rest = some z := by
  obtain ⟨c, w, rfl⟩ := List.exists_cons_of_ne_nil hw
  rw [List.cons_append, readRegex] at h ⊢
  by_cases hc : (c == '/') = true
  · rw [if_pos hc, Option.map_map] at h
    rw [if_pos hc, Option.map_map]
    obtain ⟨regex, hregex, hrest⟩ := Option.map_eq_some_iff.mp h
    obtain ⟨regex', hregex', hrest'⟩ := scanRegex_standsIn hz hregex hrest
    exact Option.map_eq_some_iff.mpr ⟨regex', hregex', hrest'⟩
  · rw [if_neg hc] at h
    cases h

theorem readTemplate_append (hw : w ≠ []) (h : (readTemplate ⟨w ++ y, n⟩).map Place.rest = some y)
    (z : Text) : (readTemplate ⟨w ++ z, n⟩).map Place.rest = some z := by
  obtain ⟨c, w, rfl⟩ := List.exists_cons_of_ne_nil hw
  rw [List.cons_append, readTemplate] at h ⊢
  by_cases hc : (c.toNat == 0x60 || c == '\x7d') = true
  · rw [if_pos hc] at h ⊢
    by_cases hending : (scanQuasi ⟨w ++ y, n + 1⟩).ending = .missing
    · rw [if_pos hending] at h
      cases h
    · rw [if_neg hending] at h
      obtain ⟨hrest, hending'⟩ := quasiFrom_append (Option.some.inj h) hending z
      rw [if_neg (show (scanQuasi ⟨w ++ z, n + 1⟩).ending ≠ .missing from hending')]
      exact congrArg some hrest
  · rw [if_neg hc] at h
    cases h

theorem readTagString_append (hw : w ≠ []) (h : (readTagString ⟨w ++ y, n⟩).map Place.rest = some y)
    (z : Text) : (readTagString ⟨w ++ z, n⟩).map Place.rest = some z := by
  obtain ⟨quote, w, rfl⟩ := List.exists_cons_of_ne_nil hw
  rw [List.cons_append, readTagString] at h ⊢
  by_cases hc : (quote == '"' || quote == '\x27') = true
  · rw [if_pos hc] at h ⊢
    cases hclose : Parser.skipUntil (· == quote) (w ++ y) (n + 1) with
    | mk rest m =>
      rw [hclose] at h
      cases rest with
      | nil => cases h
      | cons q after =>
        obtain rfl : after = y := Option.some.inj h
        obtain ⟨body, hbody, -⟩ := Parser.skipUntil_reaches (· == quote) (w ++ after) (n + 1)
        rw [hclose] at hbody
        obtain rfl : w = body ++ [q] :=
          List.append_cancel_right (hbody.trans (List.append_cons body q after))
        have hstop : (Parser.skipUntil (· == quote) (body ++ q :: z) (n + 1)).rest = q :: z :=
          skipUntil_standsIn (y := q :: after) (z := q :: z) (.inl rfl)
            (by rw [List.append_cons, hclose]) _
        rw [List.append_cons] at hstop
        generalize Parser.skipUntil (· == quote) (body ++ [q] ++ z) (n + 1) = close at hstop
        obtain ⟨rest, m'⟩ := close
        obtain rfl : rest = q :: z := hstop
        rfl
  · rw [if_neg hc] at h
    cases h

theorem readTagWord_standsIn (hw : w ≠ [])
    (hz : StandsIn (fun c => continuesName c || c == '-') y z)
    (h : (readTagWord ⟨w ++ y, n⟩).map Place.rest = some y) :
    (readTagWord ⟨w ++ z, n⟩).map Place.rest = some z := by
  obtain ⟨c, w, rfl⟩ := List.exists_cons_of_ne_nil hw
  rw [List.cons_append, readTagWord] at h ⊢
  by_cases hc : (isNameStart c || c == '\\') = true
  · rw [if_pos hc, Option.map_map] at h
    rw [if_pos hc, Option.map_map]
    have hpoint {w : Text} (h : c :: w = ['.']) : False := by
      rw [(List.cons.inj h).1] at hc
      exact absurd hc (by decide)
    obtain ⟨after, hafter, hrest⟩ := Option.map_eq_some_iff.mp h
    by_cases hdash : (after.rest.head? == some '-') = true
    · -- the name and the hyphen behind it are still there
      rw [Function.comp, goOnTagWord, if_pos hdash] at hrest
      obtain ⟨more, hmore, -⟩ := Parser.skipUntil_reaches endsTagWord after.rest after.offset
      obtain ⟨name, hname, -⟩ := readToken_reaches hafter
      rw [hrest] at hmore
      obtain ⟨after, m⟩ := after
      obtain rfl : after = more ++ y := hmore
      obtain ⟨d, more, rfl⟩ : ∃ d tail, more = d :: tail := by
        cases more with
        | cons d more => exact ⟨d, more, rfl⟩
        | nil =>
          obtain ⟨rest, rfl⟩ := List.head?_eq_some_iff.mp (eq_of_beq hdash)
          exact absurd hrest ((Parser.skipUntil_reaches endsTagWord rest _).rest_ne '-' [])
      obtain rfl : d = '-' := Option.some.inj (eq_of_beq hdash)
      have hsplit : c :: w = name ++ '-' :: more :=
        List.append_cancel_right (hname.trans (List.append_assoc ..).symm)
      have hname' : name ≠ [] := by
        rintro rfl
        rw [(List.cons.inj hsplit).1] at hc
        exact absurd hc (by decide)
      have hread : (readToken ⟨name ++ ('-' :: more ++ z), n⟩).map Place.rest =
          some ('-' :: more ++ z) := by
        refine readToken_standsIn (y := '-' :: more ++ y) hname' n ?_ (fun h => ?_) (.inl rfl)
        · rw [← show c :: (w ++ y) = name ++ ('-' :: more ++ y) from hname, hafter]
          rfl
        · rw [h] at hsplit
          exact (hpoint (congrArg (· :: []) (List.cons.inj hsplit).1)).elim
      rw [← List.append_assoc, ← hsplit] at hread
      obtain ⟨after', hafter', hrest'⟩ := Option.map_eq_some_iff.mp hread
      refine Option.map_eq_some_iff.mpr ⟨after', hafter', ?_⟩
      rw [Function.comp, goOnTagWord, hrest', if_pos (by rfl)]
      refine skipUntil_standsIn (hz.mono fun d hd => ?_) hrest _
      rw [endsTagWord, Bool.not_not] at hd
      rw [continuesName, Bool.or_right_comm, hd, Bool.true_or]
    · rw [Function.comp, goOnTagWord, if_neg hdash] at hrest
      have hname := readToken_standsIn (w := c :: w) (z := z) (List.cons_ne_nil c w) n
        (by rw [List.cons_append, hafter, Option.map_some, hrest]) (fun h => (hpoint h).elim)
        (hz.mono fun d hd => by rw [continuesToken_word hc] at hd; rw [hd, Bool.true_or])
      obtain ⟨after', hafter', hrest'⟩ := Option.map_eq_some_iff.mp hname
      refine Option.map_eq_some_iff.mpr ⟨after', hafter', ?_⟩
      rw [Function.comp, goOnTagWord, if_neg, hrest']
      rw [hrest']
      rw [hrest] at hdash
      rcases hz with hz | hz
      · rwa [hz]
      · intro h
        rw [eq_of_beq h] at hz
        exact absurd hz (by decide)
  · rw [if_neg hc] at h
    cases h

end

end Manner

/-- A piece of text that is read at once. -/
structure Lexeme where
  manner : Manner
  text : Text
deriving DecidableEq

namespace Lexeme

/-- Whether a lexeme ends before a text that follows it. Two points in a row are no tokens. -/
def Takes (l : Lexeme) (y : Text) : Prop :=
  l.text ≠ [] ∧ (l.manner.read ⟨l.text ++ y, 0⟩).map Place.rest = some y ∧
    (l = ⟨.plain, ['.']⟩ → y.head?.any continuesPoint = false)

instance (l : Lexeme) (y : Text) : Decidable (l.Takes y) :=
  inferInstanceAs (Decidable (_ ∧ _ ∧ _))

/-- Characters that make another lexeme of one. -/
def joins (l : Lexeme) (c : Char) : Bool :=
  match l.manner with
  | .plain => continuesToken l.text c
  | .regex => isNamePart c
  | .tagWord => continuesName c || c == '-'
  | .markup => !endsMarkup c
  | .angle | .template | .tagString => false

/-- What follows a lexeme matters to its reading by its first character only. -/
theorem Takes.standsIn {l : Lexeme} {y z : Text} (h : l.Takes y) (hz : StandsIn l.joins y z) :
    l.Takes z := by
  obtain ⟨manner, w⟩ := l
  obtain ⟨hw, hread, hpoint⟩ := h
  refine ⟨hw, ?_, fun hl => ?_⟩
  · cases manner with
    | plain => exact readToken_standsIn hw 0 hread (fun h => hpoint (congrArg _ h)) hz
    | angle => exact Manner.readAngle_append hw hread z
    | regex => exact Manner.readRegex_standsIn hw hz hread
    | template => exact Manner.readTemplate_append hw hread z
    | tagWord => exact Manner.readTagWord_standsIn hw hz hread
    | tagString => exact Manner.readTagString_append hw hread z
    | markup =>
      exact congrArg some (skipUntil_standsIn hz (Option.some.inj hread) 0)
  · rcases hz with hz | hz
    · rw [hz]
      exact hpoint hl
    · rw [hl, show joins ⟨.plain, ['.']⟩ = continuesPoint from funext continuesToken_point] at hz
      exact hz

/-- A space, line feed, semicolon or comma makes no other lexeme of one, unless it is text between
tags. -/
theorem joins_eq_false {l : Lexeme} (hl : l.manner ≠ .markup) {c : Char}
    (hc : c = ' ' ∨ c = '\n' ∨ c = ';' ∨ c = ',') : l.joins c = false := by
  have hname : isNamePart c = false ∧ continuesName c = false ∧ continuesNumber c = false ∧
      continuesPoint c = false ∧ (c == '-') = false := by
    rcases hc with rfl | rfl | rfl | rfl
    · decide
    · decide
    · decide
    · decide
  have hextend (p : Punct) : p.extend? c = none := by
    rcases hc with rfl | rfl | rfl | rfl
    · cases p <;> rfl
    · cases p <;> rfl
    · cases p <;> rfl
    · cases p <;> rfl
  obtain ⟨manner, w⟩ := l
  cases manner with
  | angle | template | tagString => rfl
  | regex => exact hname.1
  | tagWord => exact Bool.or_eq_false_iff.mpr ⟨hname.2.1, hname.2.2.2.2⟩
  | markup => exact absurd rfl hl
  | plain =>
    show continuesToken w c = false
    unfold continuesToken
    split
    · rfl
    · split
      · exact hname.2.1
      split
      · exact hname.2.2.1
      split
      · rfl
      · simp [continuesSign, hextend, hname.2.2.2.1]

theorem Takes.apart {l : Lexeme} {y : Text} {c : Char} (h : l.Takes y) (hl : l.manner ≠ .markup)
    (hc : c = ' ' ∨ c = '\n' ∨ c = ';' ∨ c = ',') (z : Text) : l.Takes (c :: z) :=
  h.standsIn (.inr (joins_eq_false hl hc))

/-- Whether a lexeme is a name or keyword. -/
def isWord (l : Lexeme) : Bool :=
  l.manner == .plain && l.text.head?.any fun c => isNameStart c || c == '\\'

/-- A word goes on with what a name goes on with. -/
theorem joins_of_isWord {l : Lexeme} (hl : l.isWord = true) : l.joins = continuesName := by
  obtain ⟨manner, w⟩ := l
  obtain ⟨hmanner, hw⟩ := Bool.and_eq_true_iff.mp hl
  obtain rfl : manner = .plain := eq_of_beq hmanner
  cases w with
  | nil => cases hw
  | cons d w => exact continuesToken_word hw w

/-- A word ends only where no name can go on. -/
theorem Takes.not_continuesName {l : Lexeme} {y : Text} (h : l.Takes y) (hword : l.isWord = true) :
    y.head?.any continuesName = false := by
  obtain ⟨manner, w⟩ := l
  obtain ⟨hmanner, hw⟩ := Bool.and_eq_true_iff.mp hword
  obtain rfl : manner = .plain := eq_of_beq hmanner
  obtain ⟨hne, hread, -⟩ := h
  obtain ⟨c, w, rfl⟩ := List.exists_cons_of_ne_nil hne
  have hread' := readToken_eq_some.mp hread
  rw [List.cons_append, scanKind_word hw] at hread'
  obtain ⟨hkind, hrest⟩ := hread'
  have hend := nameFrom_rest (error_of_wordKind hkind)
  rwa [show (nameFrom _ _ _ _).place.rest = y from hrest] at hend

end Lexeme

end Retouch.Syntax
