import Retouch.Proofs.Branching
import Retouch.Proofs.Multiline
import Retouch.Proofs.Stretches

/-!
# What re-indenting makes of lexemes

A statement that moves into a case is re-indented as text, line by line. Between lexemes, this only
changes how much white space there is. A lexeme of several lines is changed like any other text.

- `Lexeme.reindented`: what re-indenting makes of a lexeme.
- `Lexes.reindent`: a re-indented text is read as the re-indented lexemes.
- `Switch.switch_reindents_lexemes`: how the statements of a chain are read in their cases.
-/

namespace Retouch

namespace Syntax

open Text (isSpace isIndent)

/-- What re-indenting makes of a lexeme. -/
def Lexeme.reindented (old new : Text) (l : Lexeme) : Lexeme :=
  ⟨l.manner, reindentBefore l.text old new⟩

/-- Lexemes within a line are copied. -/
theorem Lexeme.reindented_of_not_mem {l : Lexeme} (hl : '\n' ∉ l.text) (old new : Text) :
    l.reindented old new = l := by
  rw [reindented, reindentBefore_of_not_mem hl]

/-- An edge in a re-indented text. -/
def Edge.reindented (old new : Text) : Edge → Edge
  | .blank b => .blank b
  | .comment b => .comment b
  | .lexeme l => .lexeme (l.reindented old new)

@[simp] theorem Edge.broken_reindented (old new : Text) (e : Edge) :
    (e.reindented old new).broken = e.broken := by
  cases e <;> rfl

@[simp] theorem Edge.isOpen_reindented (old new : Text) (e : Edge) :
    (e.reindented old new).isOpen = e.isOpen := by
  cases e <;> rfl

/-! ## White space behind line feeds -/

/-- The only white space of a line that separates no lexemes is the next-line character. -/
theorem isGap_or_of_isLineSpace {c : Char} (hc : isLineSpace c = true) :
    isGap c = true ∨ c = Char.ofNat 0x85 := by
  have hspace := isSpace_of_isLineSpace hc
  rw [← Char.toNat_inj, show (Char.ofNat 0x85).toNat = 0x85 from rfl]
  simp only [isSpace, Bool.or_eq_true, Bool.and_eq_true, decide_eq_true_eq, beq_iff_eq] at hspace
  simp only [isGap, isLineBreak, isSeparator, Bool.or_eq_true, Bool.and_eq_true, decide_eq_true_eq,
    beq_iff_eq]
  have hfeed : c.toNat = 0xA → c = '\n' := fun h => Char.toNat_inj.mp h
  have hreturn : c.toNat = 0xD → c = '\r' := fun h => Char.toNat_inj.mp h
  by_cases hc' : c.toNat = 0xA
  · exact .inl (.inl (.inl (.inl (.inl (hfeed hc')))))
  by_cases hc'' : c.toNat = 0xD
  · exact .inl (.inl (.inl (.inl (.inr (hreturn hc'')))))
  omega

/-- No lexeme starts with the next-line character. -/
theorem Lexeme.Takes.ne_nextLine {l : Lexeme} {y rest : Text} (h : l.Takes y)
    (hl : l.manner ≠ .markup) : l.text ≠ Char.ofNat 0x85 :: rest := by
  obtain ⟨manner, w⟩ := l
  rintro rfl
  obtain ⟨hw, hread, -⟩ := h
  cases manner with
  | plain =>
    have hword : (isNameStart (Char.ofNat 0x85) || Char.ofNat 0x85 == '\\') = false := by decide
    replace hread : (readToken ⟨Char.ofNat 0x85 :: (rest ++ y), 0⟩).map Place.rest = some y := hread
    rw [readToken_sign hword rfl rfl, ← List.cons_append] at hread
    obtain ⟨p, hp, -⟩ := exists_sign hread
    have hfirst : p.text.toList.head? ≠ some (Char.ofNat 0x85) := by cases p <;> decide
    exact hfirst (by rw [← hp]; rfl)
  | angle | regex | template | tagString => cases hread
  | tagWord =>
    have hword : (isNameStart (Char.ofNat 0x85) || Char.ofNat 0x85 == '\\') = false := by decide
    replace hread : (Manner.readTagWord ⟨Char.ofNat 0x85 :: (rest ++ y), 0⟩).map Place.rest = some y :=
      hread
    rw [Manner.readTagWord, hword] at hread
    cases hread
  | markup => exact absurd rfl hl

/-- White space at the start of a line does not matter. -/
theorem Lexes.of_spaces {after p x : Text} {ls : List Lexeme} {e' : Edge}
    (h : Lexes after (.blank true) (p ++ x) ls e') (hp : ∀ c ∈ p, isLineSpace c = true) :
    Lexes after (.blank true) x ls e' := by
  induction p with
  | nil => exact h
  | cons c p ih =>
    have hc := hp c List.mem_cons_self
    have hspace := isSpace_of_isLineSpace hc
    have hp' : ∀ d ∈ p, isLineSpace d = true := fun d hd => hp d (List.mem_cons_of_mem c hd)
    -- nothing but white space and line breaks starts with white space
    have hopener {o rest : Text} (ho : o ∈ openers true) (htext : c :: p ++ x = o ++ rest) : False := by
      have hall : ∀ o ∈ openers true, o.head?.any (fun c => !isSpace c) = true := by decide
      cases o with
      | nil => exact absurd (hall _ ho) (by decide)
      | cons d o =>
        obtain rfl : c = d := (List.cons.inj htext).1
        have hno := hall _ ho
        rw [List.head?_cons, Option.any_some, hspace] at hno
        cases hno
    generalize htext : c :: p ++ x = text at h hopener
    generalize hedge : Edge.blank true = e at h
    cases h with
    | nil => cases htext
    | separator _ _ hx =>
      subst hedge
      cases htext
      exact ih hx hp'
    | lineBreak _ hx =>
      subst hedge
      cases htext
      exact ih hx hp'
    | lineComment _ ho =>
      subst hedge
      exact (hopener (List.mem_cons_of_mem _ ho) rfl).elim
    | inComment | markup => cases hedge
    | @blockComment _ _ body y =>
      have hsame : "/*".toList ++ body ++ "*/".toList ++ y =
          "/*".toList ++ (body ++ ("*/".toList ++ y)) := by
        simp only [List.append_assoc]
      exact (hopener List.mem_cons_self hsame).elim
    | @lexeme _ _ l y _ _ hmanner hink htakes =>
      obtain ⟨d, w, hw⟩ := List.exists_cons_of_ne_nil htakes.1
      rw [hw] at htext hink
      obtain rfl : c = d := (List.cons.inj htext).1
      rcases isGap_or_of_isLineSpace hc with hgap | rfl
      · cases hink.symm.trans (opensTrivia_cons hgap e.broken _)
      · exact absurd hw (htakes.ne_nextLine hmanner)

/-! ## Re-indented texts -/

/-- What starts with a lexeme does so after its lines have been moved. -/
theorem opensTrivia_moved {b : Bool} {x y : Text} (hmoved : Moved false x y)
    (h : opensTrivia b x = false) : opensTrivia b y = false := by
  obtain ⟨hhead, hopeners⟩ := Bool.or_eq_false_iff.mp h
  rw [List.any_eq_false] at hopeners
  have hlines : ∀ o ∈ openers true, '\n' ∉ o := by decide
  refine Bool.or_eq_false_iff.mpr ⟨by rwa [hmoved.head?_eq], List.any_eq_false.mpr fun o ho h => ?_⟩
  have hprefix := hmoved.prefix_of_prefix (hlines o (openers_subset b ho))
    (List.isPrefixOf_iff_prefix.mp h)
  exact hopeners o ho (List.isPrefixOf_iff_prefix.mpr hprefix)

/-- A comment holds a line break when its lines have been moved, if it held one before. -/
theorem any_isLineBreak_moved {x y : Text} (hmoved : Moved false x y) :
    y.any isLineBreak = x.any isLineBreak := by
  by_cases hx : '\n' ∈ x
  · have hx' : x.any isLineBreak = true := List.any_eq_true.mpr ⟨_, hx, by decide⟩
    have hy' : y.any isLineBreak = true :=
      List.any_eq_true.mpr ⟨_, hmoved.newline_mem_iff.mpr hx, by decide⟩
    rw [hx', hy']
  · rw [hmoved.eq_of_not_mem hx]

section

variable {old new : Text}

theorem Lexes.spaces_append {after q x : Text} {ls : List Lexeme} {e' : Edge}
    (hq : ∀ c ∈ q, isIndent c = true) (h : Lexes after (.blank true) x ls e') :
    Lexes after (.blank true) (q ++ x) ls e' :=
  (Lexes.separators fun c hc => Stretch.isSeparator_of_isIndent (hq c hc)).append h

theorem Lexeme.Takes.reindent_append {l : Lexeme} {y x : Text} (h : l.Takes y)
    (hl : l.manner ≠ .markup) (old new : Text) :
    Retouch.reindent (l.text ++ x) old new =
      (l.reindented old new).text ++ Retouch.reindent x old new := by
  rcases h.onLine_or_ink hl with hline | ⟨c, hc, hlast⟩
  · rw [Retouch.reindent_append hline, reindented_of_not_mem hline]
  · exact reindent_append_of_suffix hc hlast x old new

/-- A lexeme is still read where its text and what follows have been re-indented. -/
theorem Lexeme.Takes.reindent {l : Lexeme} {x : Text} (h : l.Takes x)
    (hnew : ∀ c ∈ new, isIndent c = true) (old : Text) :
    (l.reindented old new).Takes (Retouch.reindent x old new) := by
  have hmoved := h.moved (moved_reindentBefore hnew l.text old)
  exact hmoved.standsIn (.inl (moved_reindent hnew x old).head?_eq)

/-- **A re-indented text is read as the re-indented lexemes.** -/
theorem Lexes.reindent {e e' : Edge} {x : Text} {ls : List Lexeme}
    (hnew : ∀ c ∈ new, isIndent c = true) (old : Text) (h : Lexes [] e x ls e')
    (hend : ∀ l, e' = .lexeme l → l.manner ≠ .markup) :
    Lexes [] (e.reindented old new) (Retouch.reindent x old new)
      (ls.map (Lexeme.reindented old new)) (e'.reindented old new) := by
  -- the white space behind a line feed is passed over, so the recursion is on the length
  induction hlength : x.length using Nat.strongRecOn generalizing e x ls with
  | _ n ih =>
    cases h with
    | nil =>
      rw [reindent_nil]
      exact .nil _
    | @separator _ _ c x _ hopen hc hx =>
      have hne : c ≠ '\n' := by
        rintro rfl
        cases hc
      rw [reindent_cons hne]
      refine .separator (by rwa [Edge.isOpen_reindented]) hc ?_
      rw [Edge.broken_reindented]
      exact ih _ (by rw [← hlength]; exact Nat.lt_succ_self _) hx rfl
    | @lineBreak _ _ c x _ hc hx =>
      by_cases hne : c = '\n'
      · subst hne
        obtain ⟨p, q, rest, rfl, hmove, hp, hq⟩ := exists_reindent_newline x old new
        have hshort : rest.length < n := by
          rw [← hlength, List.length_cons, List.length_append]
          omega
        have hindent : ∀ c ∈ q, isIndent c = true := by
          rcases hq with rfl | rfl
          · exact nofun
          · exact hnew
        rw [hmove]
        exact .lineBreak hc ((ih _ hshort (hx.of_spaces hp) rfl).spaces_append hindent)
      · rw [reindent_cons hne]
        exact .lineBreak hc (ih _ (by rw [← hlength]; exact Nat.lt_succ_self _) hx rfl)
    | @lineComment _ _ opener x _ hopen hopener hx =>
      have hlines : ∀ o ∈ openers true, '\n' ∉ o ∧ 0 < o.length := by decide
      obtain ⟨hline, hpos⟩ := hlines opener (openers_subset e.broken (List.mem_cons_of_mem _ hopener))
      rw [Retouch.reindent_append hline]
      refine .lineComment (by rwa [Edge.isOpen_reindented]) (by rwa [Edge.broken_reindented]) ?_
      rw [Edge.broken_reindented]
      exact ih _ (by rw [← hlength, List.length_append]; omega) hx rfl
    | @inComment b _ c x _ hc hx =>
      have hne : c ≠ '\n' := by
        rintro rfl
        cases hc
      rw [reindent_cons hne]
      exact .inComment hc (ih _ (by rw [← hlength]; exact Nat.lt_succ_self _) hx rfl)
    | @blockComment _ _ body x _ hopen hbody hx =>
      have hmoved := moved_reindentBefore hnew body old
      have htext : Retouch.reindent ("/*".toList ++ body ++ "*/".toList ++ x) old new =
          "/*".toList ++ reindentBefore body old new ++ "*/".toList ++ Retouch.reindent x old new := by
        rw [List.append_assoc, List.append_assoc, Retouch.reindent_append (by decide),
          show "*/".toList ++ x = '*' :: ('/' :: x) from rfl, reindent_append_cons (by decide),
          show '*' :: '/' :: x = "*/".toList ++ x from rfl, Retouch.reindent_append (by decide)]
        simp only [List.append_assoc]
      rw [htext]
      refine .blockComment (by rwa [Edge.isOpen_reindented])
        (fun h => hbody (hmoved.infix_of_infix (by decide) h)) ?_
      rw [Edge.broken_reindented, any_isLineBreak_moved hmoved]
      refine ih _ ?_ hx rfl
      rw [← hlength]
      simp only [List.length_append]
      have hpos : 0 < "/*".toList.length := by decide
      omega
    | @lexeme _ _ l x ls hopen hmanner hink htakes hx =>
      rw [List.append_nil] at hink htakes
      have hink' := opensTrivia_moved (moved_reindent hnew (l.text ++ x) old) hink
      rw [htakes.reindent_append hmanner] at hink' ⊢
      refine .lexeme (by rwa [Edge.isOpen_reindented]) hmanner ?_ ?_ (ih _ ?_ hx rfl)
      · rwa [Edge.broken_reindented, List.append_nil]
      · rw [List.append_nil]
        exact htakes.reindent hnew old
      · have hpos := List.length_pos_iff.mpr htakes.1
        rw [← hlength, List.length_append]
        omega
    | @markup k _ text x ls htakes hx =>
      rw [List.append_nil] at htakes
      -- text between tags is not the last of the lexemes, so a sign follows it
      obtain ⟨c, x, rfl⟩ : ∃ c rest, x = c :: rest := by
        cases x with
        | nil => exact absurd rfl (hend _ (hx.eq_of_nil rfl).2)
        | cons c x => exact ⟨c, x, rfl⟩
      have hc : isSpace c = false := by
        have hends : endsMarkup c = true := Parser.test_of_skipUntil (Option.some.inj htakes.2.1)
        simp only [endsMarkup, Bool.or_eq_true, beq_iff_eq] at hends
        rcases hends with ((rfl | rfl) | rfl) | rfl
        all_goals decide
      rw [reindent_append_cons hc]
      refine .markup ?_ (ih _ ?_ hx rfl)
      · rw [List.append_nil]
        exact htakes.reindent hnew old
      · have hpos := List.length_pos_iff.mpr htakes.1
        rw [← hlength, List.length_append]
        exact Nat.lt_add_of_pos_left hpos

end

end Syntax

namespace Switch

open Syntax
open Text (isIndent)

/-! ## The statements of a case -/

/-- The text of a construct is read as lexemes, from the first to the last character of it. -/
def ReadAs (d : Document) (n : Node) (ls : List Lexeme) : Prop :=
  ∃ (text after : Text) (e e' : Edge), d.slice (d.range n.span) = .ok text ∧ e.isOpen = true ∧
    Lexes after e text ls e' ∧ Stretch.IsPhrase ⟨text, ls, e'⟩

/-- A statement in its case is read as its re-indented lexemes, whatever follows. -/
theorem lexes_statementText {d : Document} {n : Node} {ls : List Lexeme} {new part : Text}
    (hnew : ∀ c ∈ new, isIndent c = true) (hread : ReadAs d n ls)
    (hpart : statementText d new n = .ok part) (after : Text) :
    Lexes after (.blank true) part (ls.map (Lexeme.reindented (indentOf d n) new)) (.blank true) := by
  obtain ⟨text, behind, e, e', hslice, hopen, hlexes, hphrase⟩ := hread
  obtain ⟨text', hslice', hpart⟩ := Outcome.bind_eq_ok hpart
  obtain rfl : text' = text := Except.ok.inj (hslice'.symm.trans hslice)
  cases hpart
  obtain ⟨l, rfl, hl⟩ := hphrase.ends
  have hmoved := (hphrase.lexes hlexes hopen (f := .blank true) rfl).reindent hnew (indentOf d n)
    fun k hk => Edge.lexeme.inj hk ▸ hl
  -- the line feed behind the statement joins no lexeme
  have hmanner : (l.reindented (indentOf d n) new).manner ≠ .markup := hl
  have hjoins := Lexeme.joins_eq_false hmanner (.inr (.inl rfl))
  have hmeets : (Edge.lexeme (l.reindented (indentOf d n) new)).Meets
      (reindent text' (indentOf d n) new) ('\n' :: after) :=
    ⟨hjoins, not_straddles_cons (by decide) _ _⟩
  have hfeed : Lexes after (.lexeme (l.reindented (indentOf d n) new)) ['\n'] [] (.blank true) :=
    .lineBreak (by decide) (.nil _)
  have hbody := (hmoved.retarget hmeets).append hfeed
  rw [List.append_nil] at hbody
  rw [List.append_assoc]
  exact hbody.spaces_append hnew

theorem Holds.statementText_eq {d : Document} {n : Node} {new lines : Text}
    (h : Holds d new n lines) : statementText d new n = .ok lines := by
  obtain ⟨source, moved, hsource, -, rfl, rfl⟩ := h
  show (d.slice (d.range n.span) >>= _) = _
  rw [hsource]
  rfl

theorem Holds.endsLine {d : Document} {n : Node} {new lines : Text} (h : Holds d new n lines) :
    ['\n'] <:+ lines := by
  obtain ⟨source, moved, -, -, -, rfl⟩ := h
  exact List.suffix_append _ _

theorem Opens.endsLine {d : Document} {indent line : Text} {value : Option Node}
    (h : Opens d indent value line) : ['\n'] <:+ line := by
  cases value with
  | none =>
    obtain rfl : line = _ := h
    exact (show ['\n'] <:+ "default:\n".toList by decide).trans (List.suffix_append _ _)
  | some v =>
    obtain ⟨literal, -, rfl⟩ := h
    exact (show ['\n'] <:+ ":\n".toList by decide).trans (List.suffix_append _ _)

/-- What a list is mapped to is cut where one of its members is. -/
theorem exists_of_forall₂ {α β : Type} {R : α → β → Prop} {as : List α} {bs : List β} {a : α}
    (h : List.Forall₂ R as bs) (ha : a ∈ as) :
    ∃ before b behind, bs = before ++ b :: behind ∧ R a b ∧ ∀ c ∈ before, ∃ a', R a' c := by
  induction h with
  | nil => cases ha
  | @cons a' b' as bs hab hrest ih =>
    rcases List.mem_cons.mp ha with rfl | ha
    · exact ⟨[], b', bs, rfl, hab, nofun⟩
    · obtain ⟨before, b, behind, rfl, hb, hbefore⟩ := ih ha
      refine ⟨b' :: before, b, behind, rfl, hb, fun c hc => ?_⟩
      rcases List.mem_cons.mp hc with rfl | hc
      · exact ⟨a', hab⟩
      · exact hbefore c hc

/-- Texts that end with a line feed do so one behind the other. -/
theorem endsLine_append_flatten {line : Text} {parts : List Text} (hline : ['\n'] <:+ line)
    (hparts : ∀ part ∈ parts, ['\n'] <:+ part) : ['\n'] <:+ line ++ parts.flatten := by
  induction parts generalizing line with
  | nil => simpa using hline
  | cons part parts ih =>
    rw [List.flatten_cons, ← List.append_assoc]
    exact ih ((hparts part List.mem_cons_self).trans (List.suffix_append line part))
      fun p hp => hparts p (List.mem_cons_of_mem part hp)

/-- A statement of a branch stands on lines of its own in the text of the switch. -/
theorem WrittenAs.exists_statement {subject : Node} {cases : List Case} {d : Document}
    {indent new text : Text} (h : WrittenAs subject cases d indent new text) {k : Case} {n : Node}
    (hk : k ∈ cases) (hn : n ∈ k.body) :
    ∃ before part behind, text = before ++ part ++ behind ∧ ['\n'] <:+ before ∧
      statementText d new n = .ok part := by
  obtain ⟨head, texts, -, htexts, rfl⟩ := h
  obtain ⟨above, caseText, below, rfl, ⟨line, parts, hline, hparts, rfl⟩, -⟩ := exists_of_forall₂ htexts hk
  obtain ⟨before, part, behind, rfl, hpart, hbefore⟩ := exists_of_forall₂ hparts hn
  have hends : ['\n'] <:+ line ++ before.flatten :=
    endsLine_append_flatten hline.endsLine fun p hp => (hbefore p hp).elim fun _ h => h.endsLine
  refine ⟨"switch (".toList ++ head ++ ") \x7b\n".toList ++ above.flatten ++
      (line ++ before.flatten), part,
    behind.flatten ++ ((if k.breaks then new ++ "break;\n".toList else []) ++
      (below.flatten ++ (indent ++ "\x7d".toList))),
    ?_, hends.trans (List.suffix_append _ _), hpart.statementText_eq⟩
  simp only [List.flatten_append, List.flatten_cons, List.append_assoc]

end Switch

end Retouch
