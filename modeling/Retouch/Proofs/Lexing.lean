import Retouch.Proofs.Lexemes

/-!
# Texts as sequences of lexemes

-/

namespace Retouch.Syntax

/-! ## Edges -/

/-- What has been read last: white space or a closed comment, part of a line comment, or a lexeme.
Without a lexeme, it matters whether a line has ended since the last one. -/
inductive Edge where
  | blank (broken : Bool)
  | comment (broken : Bool)
  | lexeme (l : Lexeme)
deriving DecidableEq

namespace Edge

/-- Whether a line has ended since the last lexeme. -/
def broken : Edge → Bool
  | .blank b | .comment b => b
  | .lexeme _ => false

/-- Whether a lexeme may start here. -/
def isOpen : Edge → Bool
  | .comment _ => false
  | .blank _ | .lexeme _ => true

/-- Where the reading of a text starts: a first line that starts with `#!` is a comment. -/
def first (text : Text) : Edge :=
  if ['#', '!'].isPrefixOf text then .comment true else .blank true

/-- Where the reading of a text starts depends on its first two characters. -/
theorem first_append {x : Text} (hx : x ≠ []) (hlong : x.head? ≠ some '#' ∨ 2 ≤ x.length)
    (y z : Text) : first (x ++ y) = first (x ++ z) := by
  obtain ⟨c, x, rfl⟩ := List.exists_cons_of_ne_nil hx
  cases x with
  | cons d x => rfl
  | nil =>
    rcases hlong with hc | hlong
    · have hne : '#' ≠ c := fun h => hc (congrArg some h.symm)
      simp [first, hne]
    · exact absurd hlong (by simp)

end Edge

/-- What opens a comment up to the end of the line. The marks of a failed merge, and one of the old
signs, do so only at the start of a line. -/
def lineOpeners (broken : Bool) : List Text :=
  ["//".toList, "<!--".toList] ++
    if broken then ["-->".toList, "<<<<<<< ".toList, ">>>>>>> ".toList, "=======".toList] else []

/-- What opens a comment. -/
def openers (broken : Bool) : List Text := "/*".toList :: lineOpeners broken

theorem openers_subset (b : Bool) : openers b ⊆ openers true := by
  cases b with
  | true => exact List.Subset.refl _
  | false => decide

/-- Whether a character separates lexemes. -/
def isGap (c : Char) : Bool := isLineBreak c || isSeparator c

/-- Whether a text starts with something other than a lexeme. -/
def opensTrivia (broken : Bool) (text : Text) : Bool :=
  text.head?.any isGap || (openers broken).any (·.isPrefixOf text)

theorem opensTrivia_cons {c : Char} (hc : isGap c = true) (b : Bool) (x : Text) :
    opensTrivia b (c :: x) = true := by
  rw [opensTrivia, List.head?_cons, Option.any_some, hc, Bool.true_or]

theorem opensTrivia_append {b : Bool} {o : Text} (ho : o ∈ openers b) (x : Text) :
    opensTrivia b (o ++ x) = true := by
  refine Bool.or_eq_true_iff.mpr (.inr (List.any_eq_true.mpr ⟨o, ho, ?_⟩))
  exact List.isPrefixOf_iff_prefix.mpr (List.prefix_append o x)

/-- A character that no opener starts with, and no white space, starts a lexeme. -/
theorem opensTrivia_cons_eq_false {c : Char} (hc : isGap c = false)
    (hopeners : ∀ o ∈ openers true, o.head? ≠ some c) (b : Bool) (x : Text) :
    opensTrivia b (c :: x) = false := by
  refine Bool.or_eq_false_iff.mpr ⟨hc, List.any_eq_false.mpr fun o ho hprefix => ?_⟩
  obtain ⟨rest, hrest⟩ := List.isPrefixOf_iff_prefix.mp hprefix
  cases o with
  | nil => exact absurd (openers_subset b ho) (by decide)
  | cons d o => exact hopeners _ (openers_subset b ho) (congrArg some (List.cons.inj hrest).1)

/-- The codes of the characters that separate lexemes. -/
def gapCodes : List Nat :=
  [0xA, 0xD, 0x2028, 0x2029, 0x20, 0x9, 0xB, 0xC, 0xA0, 0xFEFF, 0x1680, 0x202F, 0x205F, 0x3000] ++
    List.range' 0x2000 11

theorem mem_gapCodes {c : Char} (hc : isGap c = true) : c.toNat ∈ gapCodes := by
  have hfeed : ('\n' : Char).toNat = 0xA := rfl
  have hreturn : ('\r' : Char).toNat = 0xD := rfl
  have hchar (d : Char) : (c == d) = true ↔ c.toNat = d.toNat := by
    rw [beq_iff_eq, Char.toNat_inj]
  simp only [isGap, isLineBreak, isSeparator, Bool.or_eq_true, Bool.and_eq_true, decide_eq_true_eq,
    hchar, beq_iff_eq] at hc
  simp only [gapCodes, List.mem_append, List.mem_cons, List.not_mem_nil, List.mem_range'_1]
  omega

/-- Names start with neither white space nor the start of a comment. -/
theorem opensTrivia_word {l : Lexeme} (hl : l.isWord = true) (b : Bool) (x : Text) :
    opensTrivia b (l.text ++ x) = false := by
  obtain ⟨manner, w⟩ := l
  have hhead := (Bool.and_eq_true_iff.mp hl).2
  obtain ⟨c, w, rfl⟩ : ∃ c rest, w = c :: rest := by
    cases w with
    | nil => cases hhead
    | cons c w => exact ⟨c, w, rfl⟩
  replace hhead : (isNameStart c || c == '\\') = true := hhead
  have hgaps : ∀ n ∈ gapCodes, (isNameStart (Char.ofNat n) || Char.ofNat n == '\\') = false := by
    decide +kernel
  have hopeners : ∀ o ∈ openers true, o.head?.any (fun c => isNameStart c || c == '\\') = false := by
    decide
  refine opensTrivia_cons_eq_false ?_ (fun o ho hfirst => ?_) b _
  · rw [Bool.eq_false_iff]
    intro hgap
    have hno := hgaps c.toNat (mem_gapCodes hgap)
    rw [Char.ofNat_toNat, hhead] at hno
    cases hno
  · have hno := hopeners o ho
    rw [hfirst, Option.any_some, hhead] at hno
    cases hno

/-- What starts with a lexeme where a line has ended does so everywhere. -/
theorem opensTrivia_mono {x : Text} (h : opensTrivia true x = false) (b : Bool) :
    opensTrivia b x = false := by
  obtain ⟨hhead, hopeners⟩ := Bool.or_eq_false_iff.mp h
  rw [List.any_eq_false] at hopeners
  exact Bool.or_eq_false_iff.mpr
    ⟨hhead, List.any_eq_false.mpr fun o ho => hopeners o (openers_subset b ho)⟩

/-- A text before another one, read from one edge to the next, is a sequence of lexemes. -/
inductive Lexes (after : Text) : Edge → Text → List Lexeme → Edge → Prop where
  | nil (e : Edge) : Lexes after e [] [] e
  | separator {e e' : Edge} {c : Char} {x : Text} {ls : List Lexeme}
      (hopen : e.isOpen = true) (hc : isSeparator c = true)
      (hx : Lexes after (.blank e.broken) x ls e') : Lexes after e (c :: x) ls e'
  | lineBreak {e e' : Edge} {c : Char} {x : Text} {ls : List Lexeme} (hc : isLineBreak c = true)
      (hx : Lexes after (.blank true) x ls e') : Lexes after e (c :: x) ls e'
  | lineComment {e e' : Edge} {opener x : Text} {ls : List Lexeme}
      (hopen : e.isOpen = true) (hopener : opener ∈ lineOpeners e.broken)
      (hx : Lexes after (.comment e.broken) x ls e') : Lexes after e (opener ++ x) ls e'
  | inComment {b : Bool} {e' : Edge} {c : Char} {x : Text} {ls : List Lexeme}
      (hc : isLineBreak c = false) (hx : Lexes after (.comment b) x ls e') :
      Lexes after (.comment b) (c :: x) ls e'
  | blockComment {e e' : Edge} {body x : Text} {ls : List Lexeme}
      (hopen : e.isOpen = true) (hbody : ¬"*/".toList <:+: body)
      (hx : Lexes after (.blank (e.broken || body.any isLineBreak)) x ls e') :
      Lexes after e ("/*".toList ++ body ++ "*/".toList ++ x) ls e'
  | lexeme {e e' : Edge} {l : Lexeme} {x : Text} {ls : List Lexeme}
      (hopen : e.isOpen = true) (hmanner : l.manner ≠ .markup)
      (hink : opensTrivia e.broken (l.text ++ (x ++ after)) = false)
      (htakes : l.Takes (x ++ after)) (hx : Lexes after (.lexeme l) x ls e') :
      Lexes after e (l.text ++ x) (l :: ls) e'
  | markup {k : Lexeme} {e' : Edge} {text x : Text} {ls : List Lexeme}
      (htakes : Lexeme.Takes ⟨.markup, text⟩ (x ++ after))
      (hx : Lexes after (.lexeme ⟨.markup, text⟩) x ls e') :
      Lexes after (.lexeme k) (text ++ x) (⟨.markup, text⟩ :: ls) e'

variable {after x y : Text} {e e' e'' : Edge} {ls ls' : List Lexeme}

namespace Lexes

theorem append (h : Lexes (y ++ after) e x ls e') (h' : Lexes after e' y ls' e'') :
    Lexes after e (x ++ y) (ls ++ ls') e'' := by
  induction h with
  | nil e => exact h'
  | separator hopen hc _ ih => exact .separator hopen hc (ih h')
  | lineBreak hc _ ih => exact .lineBreak hc (ih h')
  | lineComment hopen hopener _ ih =>
    rw [List.append_assoc]
    exact .lineComment hopen hopener (ih h')
  | inComment hc _ ih => exact .inComment hc (ih h')
  | blockComment hopen hbody _ ih =>
    rw [List.append_assoc]
    exact .blockComment hopen hbody (ih h')
  | @lexeme _ _ l x _ hopen hmanner hink htakes _ ih =>
    rw [← List.append_assoc x] at hink htakes
    rw [List.append_assoc]
    exact .lexeme hopen hmanner hink htakes (ih h')
  | markup htakes _ ih =>
    rw [← List.append_assoc] at htakes
    rw [List.append_assoc]
    exact .markup htakes (ih h')

theorem eq_of_nil (h : Lexes after e x ls e') (hx : x = []) : ls = [] ∧ e' = e := by
  cases h with
  | nil => exact ⟨rfl, rfl⟩
  | separator | lineBreak | inComment | blockComment => cases hx
  | @lineComment _ _ opener _ _ _ hopener =>
    rw [(List.append_eq_nil_iff.mp hx).1] at hopener
    exact absurd hopener (by cases e.broken <;> decide)
  | lexeme _ _ _ htakes => exact absurd (List.append_eq_nil_iff.mp hx).1 htakes.1
  | markup htakes => exact absurd (List.append_eq_nil_iff.mp hx).1 htakes.1

end Lexes

/-! ## The scanner between lexemes -/

theorem not_isLineBreak_of_isSeparator {c : Char} (h : isSeparator c = true) :
    isLineBreak c = false := by
  rw [Bool.eq_false_iff]
  intro hbreak
  rw [isLineBreak, Bool.or_eq_true, Bool.or_eq_true, Bool.or_eq_true] at hbreak
  rcases hbreak with ((hc | hc) | hc) | hc
  · rw [eq_of_beq hc] at h
    exact absurd h (by decide)
  · rw [eq_of_beq hc] at h
    exact absurd h (by decide)
  · rw [isSeparator, eq_of_beq hc] at h
    exact absurd h (by decide)
  · rw [isSeparator, eq_of_beq hc] at h
    exact absurd h (by decide)

section Trivia

variable {c : Char} {b : Bool} {text : Text} {n : Nat} {notes : List SyntaxError}

/-- The scanner stops where a lexeme starts. -/
theorem triviaFrom_stop (h : opensTrivia b text = false) :
    triviaFrom text n b notes .blank = ⟨⟨text, n⟩, b, notes, none⟩ := by
  cases text with
  | nil => rfl
  | cons c rest =>
    have hopener {o tail : Text} (ho : o ∈ openers b) (hrest : c :: rest = o ++ tail) : False := by
      rw [hrest, opensTrivia_append ho] at h
      cases h
    have hgap : isGap c = false := by
      cases hc : isGap c with
      | false => rfl
      | true => cases h.symm.trans (opensTrivia_cons hc b rest)
    rw [isGap, Bool.or_eq_false_iff] at hgap
    have hmark : (b && isMergeMark (c :: rest)) = false := by
      rw [Bool.eq_false_iff]
      intro hboth
      obtain ⟨rfl, hmark⟩ := Bool.and_eq_true_iff.mp hboth
      rw [isMergeMark, Bool.or_eq_true, Bool.or_eq_true, List.isPrefixOf_iff_prefix,
        List.isPrefixOf_iff_prefix, List.isPrefixOf_iff_prefix] at hmark
      rcases hmark with (⟨tail, htail⟩ | ⟨tail, htail⟩) | ⟨tail, htail⟩
      · exact hopener (by decide) htail.symm
      · exact hopener (by decide) htail.symm
      · exact hopener (by decide) htail.symm
    rw [triviaFrom.eq_10]
    · simp only [hgap.1, hgap.2, hmark, Bool.false_eq_true, if_false]
    · rintro tail rfl rfl
      exact hopener (o := ['/', '/']) (by cases b <;> decide) rfl
    · rintro tail rfl rfl
      exact hopener (o := ['/', '*']) (by cases b <;> decide) rfl
    · rintro tail rfl rfl
      exact hopener (o := ['<', '!', '-', '-']) (by cases b <;> decide) rfl
    · rintro tail rfl rfl rfl
      exact hopener (o := ['-', '-', '>']) (by decide) rfl

theorem triviaFrom_gap (hc : isGap c = true) :
    triviaFrom (c :: text) n b notes .blank =
      triviaFrom text (n + c.utf8Size) (b || isLineBreak c) notes .blank := by
  have hne {d : Char} (hd : isGap d = false) : c ≠ d := by
    rintro rfl
    cases hd.symm.trans hc
  rw [triviaFrom.eq_10 _ _ _ _ _ (fun _ h => absurd h (hne (by decide)))
    (fun _ h => absurd h (hne (by decide))) (fun _ h => absurd h (hne (by decide)))
    (fun _ _ h => absurd h (hne (by decide)))]
  cases hbreak : isLineBreak c with
  | true => simp
  | false =>
    rw [isGap, hbreak, Bool.false_or] at hc
    simp [hc]

end Trivia

/-! ## Borders -/

/-- A text and the next one hold the parts of something that opens a comment. -/
def Straddles (x y : Text) : Prop :=
  ∃ o ∈ openers true, ∃ k ∈ List.range' 1 (o.length - 1), o.take k <:+ x ∧ o.drop k <+: y

instance (x y : Text) : Decidable (Straddles x y) :=
  inferInstanceAs (Decidable (∃ o ∈ openers true, _))

theorem straddles_of_mem {s t x y : Text} (ho : s ++ t ∈ openers true) (hs : s ≠ []) (ht : t ≠ [])
    (hx : s <:+ x) (hy : t <+: y) : Straddles x y := by
  refine ⟨s ++ t, ho, s.length, ?_, ?_, ?_⟩
  · have hs' := List.length_pos_iff.mpr hs
    have ht' := List.length_pos_iff.mpr ht
    rw [List.mem_range'_1, List.length_append]
    omega
  · rwa [List.take_left]
  · rwa [List.drop_left]

/-- What starts with a character of no opener completes none. -/
theorem not_straddles_cons {c : Char} (hc : ∀ o ∈ openers true, c ∉ o) (x y : Text) :
    ¬Straddles x (c :: y) := by
  rintro ⟨o, ho, k, hk, -, hdrop⟩
  rw [List.mem_range'_1] at hk
  cases hrest : o.drop k with
  | nil =>
    have hlength := congrArg List.length hrest
    rw [List.length_drop, List.length_nil] at hlength
    omega
  | cons d rest =>
    rw [hrest] at hdrop
    obtain rfl : d = c := (List.cons_prefix_cons.mp hdrop).1
    exact hc o ho (List.mem_of_mem_drop (hrest ▸ List.mem_cons_self))

theorem not_straddles_nil (x : Text) : ¬Straddles x [] := by
  rintro ⟨o, -, k, hk, -, hdrop⟩
  rw [List.mem_range'_1] at hk
  have hlength := congrArg List.length (List.prefix_nil.mp hdrop)
  rw [List.length_drop, List.length_nil] at hlength
  omega

/-- What has been read up to an edge stays as it is before a text. -/
def Edge.Meets (e : Edge) (x y : Text) : Prop :=
  match e with
  | .blank _ | .comment _ => True
  | .lexeme l => y.head?.any l.joins = false ∧ ¬Straddles x y

instance (e : Edge) (x y : Text) : Decidable (e.Meets x y) :=
  match e with
  | .blank _ | .comment _ => inferInstanceAs (Decidable True)
  | .lexeme _ => inferInstanceAs (Decidable (_ ∧ _))

theorem Edge.meets_nil (e : Edge) (x : Text) : e.Meets x [] := by
  cases e with
  | blank | comment => trivial
  | lexeme l => exact ⟨rfl, not_straddles_nil x⟩

theorem Edge.Meets.of_append {z p : Text} (h : e.Meets (p ++ x) z) : e.Meets x z := by
  cases e with
  | blank | comment => trivial
  | lexeme l =>
    refine ⟨h.1, fun hs => h.2 ?_⟩
    obtain ⟨o, ho, k, hk, hx, hz⟩ := hs
    exact ⟨o, ho, k, hk, hx.trans (List.suffix_append p x), hz⟩

/-- A beginning of what opens a comment holds no white space, closes no comment and opens none up
to the end of the line. -/
theorem not_mem_openers {s t : Text} (ho : s ++ t ∈ openers true) (ht : t ≠ []) :
    (∀ c ∈ s, isGap c = false) ∧ ¬"*/".toList <:+ s ∧ ∀ o ∈ lineOpeners true, ¬o <:+: s := by
  have hall : ∀ o ∈ openers true, ∀ k ∈ List.range o.length,
      (o.take k).any isGap = false ∧ ¬"*/".toList <:+ o.take k ∧
        ∀ o' ∈ lineOpeners true, ¬o' <:+: o.take k := by
    decide +kernel
  have hk : s.length ∈ List.range (s ++ t).length := by
    have ht' := List.length_pos_iff.mpr ht
    rw [List.mem_range, List.length_append]
    omega
  have h := hall _ ho _ hk
  rw [List.take_left, List.any_eq_false] at h
  exact ⟨fun c hc => Bool.eq_false_iff.mpr (h.1 c hc), h.2⟩

namespace Lexes

/-- White space ends with a separator or a line break, a closed comment with its last sign. -/
theorem endsBlank {b : Bool} (h : Lexes after e x ls e') (he : e' = .blank b) (hx : x ≠ []) :
    (∃ c, isGap c = true ∧ [c] <:+ x) ∨ "*/".toList <:+ x := by
  have hrest {f f' : Edge} {x : Text} {ls : List Lexeme} (hx : Lexes after f x ls f')
      (hf : f ≠ .blank b) (hf' : f' = .blank b) : x ≠ [] :=
    fun h => hf ((hx.eq_of_nil h).2.symm.trans hf')
  have hlast {p x : Text} (hx : (∃ c, isGap c = true ∧ [c] <:+ x) ∨ "*/".toList <:+ x) :
      (∃ c, isGap c = true ∧ [c] <:+ p ++ x) ∨ "*/".toList <:+ p ++ x :=
    hx.imp (fun ⟨c, hc, h⟩ => ⟨c, hc, h.trans (List.suffix_append p x)⟩)
      fun h => h.trans (List.suffix_append p x)
  induction h with
  | nil => exact absurd rfl hx
  | @separator _ _ c x _ _ hc _ ih =>
    by_cases hx : x = []
    · subst hx
      exact .inl ⟨c, by rw [isGap, hc, Bool.or_true], List.suffix_refl _⟩
    · exact hlast (p := [c]) (ih he hx)
  | @lineBreak _ _ c x _ hc _ ih =>
    by_cases hx : x = []
    · subst hx
      exact .inl ⟨c, by rw [isGap, hc, Bool.true_or], List.suffix_refl _⟩
    · exact hlast (p := [c]) (ih he hx)
  | lineComment _ _ hx' ih => exact hlast (ih he (hrest hx' nofun he))
  | @inComment _ _ c _ _ _ hx' ih => exact hlast (p := [c]) (ih he (hrest hx' nofun he))
  | @blockComment _ _ body x _ _ _ _ ih =>
    by_cases hx : x = []
    · subst hx
      rw [List.append_nil]
      exact .inr (List.suffix_append _ _)
    · exact hlast (ih he hx)
  | lexeme _ _ _ _ hx' ih => exact hlast (ih he (hrest hx' nofun he))
  | markup _ hx' ih => exact hlast (ih he (hrest hx' nofun he))

/-- A line comment that is not over has been opened. -/
theorem endsComment {b : Bool} (h : Lexes after e x ls e') (he : e' = .comment b)
    (hopen : e.isOpen = true) : ∃ o ∈ lineOpeners true, o <:+: x := by
  have hlater {p x : Text} (hx : ∃ o ∈ lineOpeners true, o <:+: x) :
      ∃ o ∈ lineOpeners true, o <:+: p ++ x :=
    hx.imp fun o ho => ⟨ho.1, ho.2.trans (List.suffix_append p x).isInfix⟩
  induction h with
  | nil e =>
    rw [he] at hopen
    cases hopen
  | inComment => cases hopen
  | @lineComment e _ opener x _ _ hopener _ _ =>
    refine ⟨opener, ?_, (List.prefix_append opener x).isInfix⟩
    cases hb : e.broken with
    | true => rwa [hb] at hopener
    | false =>
      rw [hb] at hopener
      exact (by decide : lineOpeners false ⊆ lineOpeners true) hopener
  | @separator _ _ c _ _ _ _ _ ih | @lineBreak _ _ c _ _ _ _ ih =>
    exact hlater (p := [c]) (ih he rfl)
  | blockComment _ _ _ ih | lexeme _ _ _ _ _ ih | markup _ _ ih => exact hlater (ih he rfl)

/-- A line comment goes on up to the end of the line. -/
theorem comment_goesOn {b : Bool} (h : Lexes after e x ls e') (he : e = .comment b)
    (hx : ∀ c ∈ x, isLineBreak c = false) : e' = .comment b := by
  induction h with
  | nil => exact he
  | inComment _ _ ih => exact ih he fun c hc => hx c (List.mem_cons_of_mem _ hc)
  | lineBreak hc => cases hc.symm.trans (hx _ List.mem_cons_self)
  | separator hopen | lineComment hopen | blockComment hopen | lexeme hopen =>
    rw [he] at hopen
    cases hopen
  | markup => cases he

theorem not_isPrefix {z t : Text} (h : Lexes after e x ls e') (hopen : e.isOpen = true)
    (hx : x ≠ []) (hz : e'.Meets x z) (ho : x ++ t ∈ openers true) (ht : t ≠ []) : ¬t <+: z := by
  intro hprefix
  obtain ⟨hgap, hclose, hline⟩ := not_mem_openers ho ht
  cases e' with
  | lexeme l => exact hz.2 (straddles_of_mem ho hx ht (List.suffix_refl x) hprefix)
  | blank b =>
    rcases h.endsBlank rfl hx with ⟨c, hc, hlast⟩ | hlast
    · exact absurd hc (Bool.eq_false_iff.mp (hgap c (hlast.subset List.mem_cons_self)))
    · exact hclose hlast
  | comment b =>
    obtain ⟨o, ho', hoccurs⟩ := h.endsComment rfl hopen
    exact hline o ho' hoccurs

/-- What stands at the start of a text before another one still stands there before a third. -/
theorem opensTrivia_retarget {b : Bool} {z : Text} (h : Lexes after e x ls e')
    (hopen : e.isOpen = true) (hx : x ≠ []) (hz : e'.Meets x z)
    (hink : opensTrivia b (x ++ after) = false) :
    opensTrivia b (x ++ z) = false := by
  obtain ⟨hhead, hopeners⟩ := Bool.or_eq_false_iff.mp hink
  rw [List.any_eq_false] at hopeners
  refine Bool.or_eq_false_iff.mpr ⟨?_, List.any_eq_false.mpr fun o ho hprefix => ?_⟩
  · obtain ⟨c, x, rfl⟩ := List.exists_cons_of_ne_nil hx
    exact hhead
  · have hwhole : ¬o <+: x := fun h =>
      hopeners o ho (List.isPrefixOf_iff_prefix.mpr (h.trans (List.prefix_append x after)))
    obtain ⟨r, hr⟩ := List.isPrefixOf_iff_prefix.mp hprefix
    rcases List.append_eq_append_iff.mp hr with ⟨more, rfl, -⟩ | ⟨t, rfl, rfl⟩
    · exact hwhole (List.prefix_append o more)
    · have ht : t ≠ [] := by
        rintro rfl
        exact hwhole (by simpa only [List.append_nil] using List.prefix_refl x)
      exact h.not_isPrefix hopen hx hz (openers_subset b ho) ht (List.prefix_append t r)

theorem standsIn_retarget {l : Lexeme} {z : Text} (h : Lexes after (.lexeme l) x ls e')
    (hz : e'.Meets x z) : StandsIn l.joins (x ++ after) (x ++ z) := by
  cases x with
  | cons c x => exact .inl rfl
  | nil =>
    rw [(h.eq_of_nil rfl).2] at hz
    exact .inr hz.1

/-- What follows matters to the reading of a text only at the border. -/
theorem retarget {z : Text} (h : Lexes after e x ls e') (hz : e'.Meets x z) :
    Lexes z e x ls e' := by
  induction h with
  | nil e => exact .nil e
  | @separator _ _ c _ _ hopen hc _ ih =>
    exact .separator hopen hc (ih (hz.of_append (p := [c])))
  | @lineBreak _ _ c _ _ hc _ ih => exact .lineBreak hc (ih (hz.of_append (p := [c])))
  | lineComment hopen hopener _ ih => exact .lineComment hopen hopener (ih hz.of_append)
  | @inComment _ _ c _ _ hc _ ih => exact .inComment hc (ih (hz.of_append (p := [c])))
  | blockComment hopen hbody _ ih => exact .blockComment hopen hbody (ih hz.of_append)
  | @lexeme e _ l x _ hopen hmanner hink htakes hx ih =>
    have hne : l.text ++ x ≠ [] := List.append_ne_nil_of_left_ne_nil htakes.1 x
    have hink' := (lexeme hopen hmanner hink htakes hx).opensTrivia_retarget hopen hne hz
      (by rwa [List.append_assoc])
    rw [List.append_assoc] at hink'
    exact .lexeme hopen hmanner hink' (htakes.standsIn (hx.standsIn_retarget hz.of_append))
      (ih hz.of_append)
  | markup htakes hx ih =>
    exact .markup (htakes.standsIn (hx.standsIn_retarget hz.of_append)) (ih hz.of_append)

/-- A text that starts with a lexeme is read from any edge at which a lexeme may start; so is one
that starts with a comment or white space, where a line has ended or not as before. -/
theorem restart {f : Edge} (h : Lexes after e x ls e')
    (hstarts : ∃ l ∈ ls.head?, l.manner ≠ .markup) (he : e.isOpen = true) (hf : f.isOpen = true)
    (hbroken : f.broken = e.broken ∨ opensTrivia true (x ++ after) = false) :
    Lexes after f x ls e' := by
  cases h with
  | nil =>
    obtain ⟨l, hl, -⟩ := hstarts
    cases hl
  | inComment => cases he
  | lineBreak hc hx => exact .lineBreak hc hx
  | markup =>
    obtain ⟨l, hl, hmanner⟩ := hstarts
    cases hl
    exact absurd rfl hmanner
  | separator _ hc hx =>
    rcases hbroken with hbroken | hink
    · exact .separator hf hc (hbroken ▸ hx)
    · cases hink.symm.trans (opensTrivia_cons (by rw [isGap, hc, Bool.or_true]) true _)
  | lineComment _ hopener hx =>
    rcases hbroken with hbroken | hink
    · exact .lineComment hf (hbroken ▸ hopener) (hbroken ▸ hx)
    · rw [List.append_assoc, opensTrivia_append
        (openers_subset e.broken (List.mem_cons_of_mem _ hopener))] at hink
      cases hink
  | blockComment _ hbody hx =>
    rcases hbroken with hbroken | hink
    · exact .blockComment hf hbody (hbroken ▸ hx)
    · rw [List.append_assoc, List.append_assoc, List.append_assoc,
        opensTrivia_append List.mem_cons_self] at hink
      cases hink
  | lexeme _ hmanner hink htakes hx =>
    refine .lexeme hf hmanner ?_ htakes hx
    rcases hbroken with hbroken | hink'
    · rwa [hbroken]
    · rw [List.append_assoc] at hink'
      exact opensTrivia_mono hink' f.broken

/-- Behind a lexeme, it does not matter behind which. -/
theorem relexeme {k : Lexeme} (h : Lexes after (.lexeme k) x ls e') (hx : x ≠ []) (k' : Lexeme) :
    Lexes after (.lexeme k') x ls e' := by
  cases h with
  | nil => exact absurd rfl hx
  | separator _ hc hx => exact .separator rfl hc hx
  | lineBreak hc hx => exact .lineBreak hc hx
  | lineComment _ hopener hx => exact .lineComment rfl hopener hx
  | blockComment _ hbody hx => exact .blockComment rfl hbody hx
  | lexeme _ hmanner hink htakes hx => exact .lexeme rfl hmanner hink htakes hx
  | markup htakes hx => exact .markup htakes hx

/-- What has been read last ends before what follows the text. -/
theorem last {l : Lexeme} (h : Lexes after e x ls e') (he : e' = .lexeme l) (hx : x ≠ []) :
    l.Takes after ∧ ls.getLast? = some l ∧ l.text <:+ x := by
  have hrest {f f' : Edge} {x : Text} {ls : List Lexeme} (hx : Lexes after f x ls f')
      (hf : f ≠ .lexeme l) (hf' : f' = .lexeme l) : x ≠ [] :=
    fun h => hf ((hx.eq_of_nil h).2.symm.trans hf')
  have hlater {p x : Text} {ls : List Lexeme}
      (hx : l.Takes after ∧ ls.getLast? = some l ∧ l.text <:+ x) :
      l.Takes after ∧ ls.getLast? = some l ∧ l.text <:+ p ++ x :=
    ⟨hx.1, hx.2.1, hx.2.2.trans (List.suffix_append p x)⟩
  have hstep {k : Lexeme} {text x : Text} {ls : List Lexeme} {e' : Edge} (htext : k.text = text)
      (htakes : k.Takes (x ++ after)) (hx : Lexes after (.lexeme k) x ls e') (he : e' = .lexeme l)
      (ih : e' = .lexeme l → x ≠ [] → l.Takes after ∧ ls.getLast? = some l ∧ l.text <:+ x) :
      l.Takes after ∧ (k :: ls).getLast? = some l ∧ l.text <:+ text ++ x := by
    by_cases hne : x = []
    · subst hne htext
      obtain ⟨rfl, he'⟩ := hx.eq_of_nil rfl
      obtain rfl := Edge.lexeme.inj (he.symm.trans he')
      exact ⟨htakes, rfl, by simpa only [List.append_nil] using List.suffix_refl _⟩
    · obtain ⟨htakes, hlast, hsuffix⟩ := hlater (p := text) (ih he hne)
      exact ⟨htakes, by rw [List.getLast?_cons, hlast]; rfl, hsuffix⟩
  induction h with
  | nil => exact absurd rfl hx
  | @separator _ _ c _ _ _ _ hx' ih | @lineBreak _ _ c _ _ _ hx' ih
  | @inComment _ _ c _ _ _ hx' ih => exact hlater (p := [c]) (ih he (hrest hx' nofun he))
  | lineComment _ _ hx' ih | blockComment _ _ hx' ih => exact hlater (ih he (hrest hx' nofun he))
  | lexeme _ _ _ htakes hx' ih => exact hstep rfl htakes hx' he ih
  | markup htakes hx' ih => exact hstep rfl htakes hx' he ih

/-- Every lexeme stands in the text and ends before what follows it there. -/
theorem exists_of_mem {l : Lexeme} (h : Lexes after e x ls e') (hl : l ∈ ls) :
    ∃ pre post, x = pre ++ l.text ++ post ∧ l.Takes (post ++ after) := by
  have hread (p : Text) {x : Text} (hx : ∃ pre post, x = pre ++ l.text ++ post ∧
      l.Takes (post ++ after)) : ∃ pre post, p ++ x = pre ++ l.text ++ post ∧
      l.Takes (post ++ after) := by
    obtain ⟨pre, post, rfl, htakes⟩ := hx
    exact ⟨p ++ pre, post, by simp only [List.append_assoc], htakes⟩
  induction h with
  | nil => cases hl
  | @separator _ _ c _ _ _ _ _ ih | @lineBreak _ _ c _ _ _ _ ih | @inComment _ _ c _ _ _ _ ih =>
    exact hread [c] (ih hl)
  | lineComment _ _ _ ih | blockComment _ _ _ ih => exact hread _ (ih hl)
  | @lexeme _ _ k x _ _ _ _ htakes _ ih =>
    rcases List.mem_cons.mp hl with rfl | hl
    · exact ⟨[], x, rfl, htakes⟩
    · exact hread _ (ih hl)
  | @markup _ _ text x _ htakes _ ih =>
    rcases List.mem_cons.mp hl with rfl | hl
    · exact ⟨[], x, rfl, htakes⟩
    · exact hread _ (ih hl)

theorem separators {b : Bool} (hx : ∀ c ∈ x, isSeparator c = true) :
    Lexes after (.blank b) x [] (.blank b) := by
  induction x with
  | nil => exact .nil _
  | cons c x ih =>
    exact .separator rfl (hx c List.mem_cons_self) (ih fun d hd => hx d (List.mem_cons_of_mem c hd))

/-- A word that goes on wherever it stands in a text is no lexeme of the text. -/
theorem not_mem_of_continues {w : Text} (h : Lexes [] e x ls e')
    (hword : Lexeme.isWord ⟨.plain, w⟩ = true)
    (hon : ∀ k ∈ List.range (x.length + 1), w.isPrefixOf (x.drop k) = true →
      ((x.drop k).drop w.length).head?.any continuesName = true) : ⟨.plain, w⟩ ∉ ls := by
  intro hmem
  obtain ⟨pre, post, rfl, htakes⟩ := h.exists_of_mem hmem
  have hend := htakes.not_continuesName hword
  have hlength : pre.length ∈ List.range ((pre ++ w ++ post).length + 1) := by
    rw [List.mem_range, List.length_append, List.length_append]
    omega
  have hgo := hon _ hlength
  rw [List.append_assoc, List.drop_left, List.drop_left] at hgo
  rw [List.append_nil] at hend
  rw [hgo (List.isPrefixOf_iff_prefix.mpr (List.prefix_append w post))] at hend
  cases hend

end Lexes

end Retouch.Syntax
