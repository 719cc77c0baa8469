import Retouch.Proofs.Parsing.Runs
import Retouch.Proofs.Scopes

/-!
# Reading a constant

What becomes of a text `const name = 0;`, by what stands in the place of the name.

- `isStray`: characters that start no token; `scanKind_stray` is how they are read.
- `assignment_number`: the number is read as a value.
- `Word.isBindable`: whether a module can bind a word. If it can, the word is taken
  (`bindingWord_returns`), and if not, there is a complaint (`bindingWord_spoils`).
- `parse_bindable`: a plain name that can be bound is read.
- `parse_unbindable`, `parse_strayStart`, `parse_strayPart`: no other name is.
-/

namespace Retouch.Syntax

/-! ## Characters that start no token -/

/-- Characters outside ASCII that are no white space and start no name. -/
def isStray (c : Char) : Bool := c.utf8Size != 1 && !isGap c && !isNameStart c

theorem isStray_iff {c : Char} :
    isStray c = true ↔ c.utf8Size ≠ 1 ∧ isGap c = false ∧ isNameStart c = false := by
  simp only [isStray, Bool.and_eq_true, bne_iff_ne, Bool.not_eq_true', and_assoc]

theorem scanKind_stray {c : Char} (hc : isStray c = true) (strict : Bool) (y : Text) (n : Nat) :
    scanKind strict ⟨c :: y, n⟩ =
      (.bad ⟨n, "Unexpected character '" ++ String.singleton c ++ "'"⟩, [],
        ⟨y, n + c.utf8Size⟩) := by
  obtain ⟨hlong, -, hstart⟩ := isStray_iff.mp hc
  have hne {d : Char} (hd : d.utf8Size = 1) : (c == d) = false :=
    Bool.eq_false_iff.mpr fun h => hlong (utf8Size_of_beq h hd)
  have hdigit : c.isDigit = false := Bool.eq_false_iff.mpr fun h => hlong (utf8Size_of_isDigit h)
  have hsign : scanSign ⟨c :: y, n⟩ = none := by
    refine Option.eq_none_iff_forall_ne_some.mpr fun found hfound => ?_
    obtain ⟨sign, after⟩ := found
    obtain ⟨_, _, heq, hshort⟩ := (scanSign_reaches hfound).2
    cases heq
    exact hlong hshort
  rw [scanKind]
  dsimp only
  rw [hstart, hne (d := '\\') rfl, hdigit, hne (d := '.') rfl, hne (d := '"') rfl,
    hne (d := '\x27') rfl, hsign]
  rfl

theorem opensTrivia_stray {c : Char} (hc : isStray c = true) (y : Text) :
    opensTrivia false (c :: y) = false := by
  obtain ⟨hlong, hgap, -⟩ := isStray_iff.mp hc
  refine opensTrivia_cons_eq_false hgap (fun o ho hhead => ?_) false y
  have hshort : ∀ o ∈ openers true, o.head?.all (·.utf8Size == 1) = true := by decide
  have hone := hshort o ho
  rw [hhead] at hone
  exact hlong (eq_of_beq hone)

/-! ## Names -/

/-- Whether a keyword can be a name in a module. Of the reserved words `this` can. -/
def Keyword.isFree (k : Keyword) : Bool := !k.isReservedInModule || k == .kwThis

/-- Whether a module can bind a word: it is not reserved, and it is neither `eval` nor
`arguments`. -/
def Word.isBindable (w : Word) : Bool :=
  w.keyword.all Keyword.isFree && !Parser.isRestricted w.name

theorem quiet_semicolon : Quiet ";".toList := quiet_of_scanKind rfl fun _ => rfl

theorem quiet_number : Quiet "0;".toList := quiet_of_scanKind rfl fun _ => rfl

theorem quiet_value : Quiet "= 0;".toList := quiet_of_scanKind rfl fun _ => rfl

theorem quiet_stray {ch : Char} (hch : isStray ch = true) (y : Text) : Quiet (ch :: y) := by
  refine quiet_of_scanKind (opensTrivia_stray hch y) fun n => ?_
  rw [scanKind_stray hch]

namespace Parser

variable {x : Context} {c : Cursor} {kind : TokenKind} {y : Text} {grammar : Grammar}
  (dialect : Dialect)

/-! ## A number before a semicolon -/

theorem eof_of_before (h : c.Before []) : c.token.kind = .eof := by
  obtain ⟨n, htoken, -⟩ := h
  rw [htoken]
  rfl

theorem semi_of_before (h : c.Before ";".toList) : c.At (.punct .semi) [] :=
  h.at_of_scanKind rfl fun _ => ⟨rfl, rfl⟩

theorem number_of_before (h : c.Before "0;".toList) : ∃ v, c.At (.number v) ";".toList := by
  obtain ⟨_, ⟨v, rfl⟩, hat⟩ := h.exists_at (P := fun kind => ∃ v, kind = .number v) rfl
    fun _ => ⟨⟨_, rfl⟩, rfl⟩
  exact ⟨v, hat⟩

theorem eq_of_before (h : c.Before " = 0;".toList) : c.At (.punct .eq) " 0;".toList :=
  (show c.Before (' ' :: '=' :: ' ' :: "0;".toList) from h).drop_space.at_eq

/-- A number is read, and nothing is left but a semicolon. -/
def ReadsNumber (c : Cursor) (n : Node) (d : Cursor) : Prop :=
  (∃ v span, n = .mk (.expr (.number v)) span []) ∧ d.Before ";".toList ∧ d.notes = c.notes

theorem primary_number (h : c.Before "0;".toList) :
    Returns x c (primary grammar) (ReadsNumber c) := by
  obtain ⟨v, hat⟩ := number_of_before h
  refine .step rfl (.step rfl ?_)
  dsimp only [tokenLiteral?]
  rw [hat.kind_eq]
  exact (advance_quiet hat quiet_semicolon).bind fun _ d hd => .pure ⟨⟨v, _, rfl⟩, hd⟩

theorem subscripts_semi {allowed : Subscripts} {offset fuel : Nat} {n : Node}
    (h : c.token.kind = .punct .semi) :
    subscripts grammar allowed offset (fuel + 1) n x c = (.ok n, c) := by
  rw [subscripts]
  refine (run_bind_ok (show token x c = (.ok c.token, c) from rfl)).trans ?_
  rw [h]
  rfl

theorem newOrMember_number (h : c.Before "0;".toList) :
    Returns x c (newOrMember grammar) (ReadsNumber c) := by
  obtain ⟨v, hat⟩ := number_of_before h
  refine .step rfl (.step rfl ?_)
  rw [keywordOf?, hat.kind_eq]
  refine (primary_number h).bind fun n d hd => ?_
  obtain ⟨⟨v, span, rfl⟩, hd⟩ := hd
  have hsemi := (semi_of_before hd.1).kind_eq
  refine .step (at?_eq .lt) (.step (at?_eq .shl) ?_)
  rw [hsemi]
  exact .step rfl (.step rfl ⟨_, d, subscripts_semi hsemi, ⟨v, span, rfl⟩, hd⟩)

theorem leftHand_number (h : c.Before "0;".toList) :
    Returns x c (leftHand grammar) (ReadsNumber c) := by
  obtain ⟨v, hat⟩ := number_of_before h
  refine .step rfl (.step rfl ?_)
  rw [keywordOf?, hat.kind_eq]
  refine .step rfl (.step (at?_eq .lt) ?_)
  rw [hat.kind_eq, show (TokenKind.number v == .punct .lt) = false from rfl, Bool.and_false]
  refine (newOrMember_number h).bind fun n d hd => ?_
  obtain ⟨⟨v, span, rfl⟩, hd⟩ := hd
  exact .step rfl ⟨_, d, subscripts_semi (semi_of_before hd.1).kind_eq, ⟨v, span, rfl⟩, hd⟩

theorem unary_number (h : c.Before "0;".toList) :
    Returns x c (unary grammar) (ReadsNumber c) := by
  obtain ⟨v, hat⟩ := number_of_before h
  have hkeyword : keywordOf? c.token = none := by rw [keywordOf?, hat.kind_eq]
  have hop : unaryOp? c.token = none := by rw [unaryOp?, hkeyword, hat.kind_eq]
  refine .step rfl (.step rfl ?_)
  rw [hop, hkeyword, hat.kind_eq, show (TokenKind.number v == .punct .lt
    || TokenKind.number v == .punct .shl) = false from rfl, Bool.and_false]
  refine (leftHand_number h).bind fun n d hd => ?_
  obtain ⟨⟨v, span, rfl⟩, hd⟩ := hd
  refine .step rfl ?_
  rw [(semi_of_before hd.1).kind_eq]
  split
  · exact .pure ⟨⟨v, span, rfl⟩, hd⟩
  · exact .pure ⟨⟨v, span, rfl⟩, hd⟩

theorem binaryRest_semi (grammar : Grammar) (fuel precedence : Nat) (n : Node)
    (h : c.token.kind = .punct .semi) :
    binaryRest grammar (fuel + 1) precedence n x c = (.ok n, c) := by
  have hkeyword : keywordOf? c.token = none := by rw [keywordOf?, h]
  have hop : binaryOp? x c.token = none := by
    rw [binaryOp?, h]
    rfl
  rw [binaryRest]
  refine (run_bind_ok (show token x c = (.ok c.token, c) from rfl)).trans ?_
  rw [hkeyword, Bool.and_false]
  refine (run_bind_ok (show (read : Parser Context) x c = (.ok x, c) from rfl)).trans ?_
  rw [hop]
  rfl

theorem binary_number (hunary : Returns x c (grammar .unary) (ReadsNumber c)) :
    Returns x c (binary grammar) (ReadsNumber c) := by
  obtain ⟨n, d, hrun, ⟨v, span, rfl⟩, hd⟩ := hunary
  refine .step (tryCatch_ok hrun _) (.step rfl ⟨_, d, ?_, ⟨v, span, rfl⟩, hd⟩)
  exact binaryRest_semi grammar _ 0 _ (semi_of_before hd.1).kind_eq

theorem conditional_number (hunary : Returns x c (grammar .unary) (ReadsNumber c)) :
    Returns x c (conditional grammar) (ReadsNumber c) := by
  refine .step rfl ((binary_number hunary).bind fun n d hd => ?_)
  obtain ⟨⟨v, span, rfl⟩, hd⟩ := hd
  have hquestion : eat .question x d = (.ok false, d) := by
    refine eat_eq_false ?_
    rw [(semi_of_before hd.1).kind_eq]
    rfl
  exact .step hquestion (.pure ⟨⟨v, span, rfl⟩, hd⟩)

/-- The number is a value that ends before the semicolon. -/
theorem assignment_number (depth : Nat) (h : c.Before "0;".toList) :
    Returns { dialect := dialect } c (parseGoal (depth + 2) .assignment) (ReadsNumber c) := by
  obtain ⟨v, hat⟩ := number_of_before h
  refine .step (at?_eq .lt) ?_
  rw [hat.kind_eq]
  refine .step rfl (.step rfl (.step rfl (.step rfl ?_)))
  rw [hat.kind_eq]
  refine .step rfl ?_
  have hunary : Returns { dialect := dialect } { c with arrowStart := some c.token.start }
      (parseGoal (depth + 1) .unary) (ReadsNumber c) :=
    unary_number (c := { c with arrowStart := some c.token.start }) h
  refine (conditional_number hunary).bind fun n d hd => ?_
  obtain ⟨⟨v, span, rfl⟩, hd⟩ := hd
  have hop : atAssignOp? { dialect := dialect } d = (.ok none, d) := by
    refine (run_bind_ok (show token _ d = (.ok d.token, d) from rfl)).trans ?_
    rw [(semi_of_before hd.1).kind_eq]
    rfl
  exact .step hop (.pure ⟨⟨v, span, rfl⟩, hd⟩)

/-! ## The word that a constant is bound to -/

variable {w : Word}

/-- A reserved word is refused, or it is complained about and taken all the same. -/
theorem identifierWord_cases (h : c.token.kind = .word w) :
    (w.keyword.all Keyword.isFree = false ∧ Fails { dialect := dialect } c identifierWord) ∨
      ∃ notes, (if w.keyword.all Keyword.isFree then notes = c.notes else notes ≠ []) ∧
        identifierWord { dialect := dialect } c = (do
          advance
          return (w.name, ⟨c.token.start, c.token.stop⟩) : Parser (String × Span))
          { dialect := dialect } { c with notes := notes } := by
  obtain ⟨name, keyword⟩ := w
  unfold Fails identifierWord
  rw [run_bind_ok (show token { dialect := dialect } c = (.ok c.token, c) from rfl), h]
  dsimp only
  split
  · exact .inr ⟨c.notes, rfl, rfl⟩
  · exact .inr ⟨c.notes, rfl, rfl⟩
  · exact .inl ⟨rfl, Fails.fail _⟩
  · exact .inr ⟨_, List.cons_ne_nil _ _, rfl⟩
  · next k hthis hawait henum =>
    have hfree : k.isFree = (!k.isReserved && !k.isReservedInStrict) := by
      simp [Keyword.isFree, Keyword.isReservedInModule, beq_eq_false_iff_ne.mpr hthis,
        beq_eq_false_iff_ne.mpr hawait]
    rw [Option.all_some, hfree]
    cases k.isReserved with
    | true => exact .inl ⟨rfl, Fails.fail _⟩
    | false =>
      obtain ⟨notes, hnotes, hrun⟩ := complainIf_run dialect c k.isReservedInStrict c.token.start
        ("`" ++ name ++ "` cannot be used as an identifier in strict mode")
      refine .inr ⟨notes, ?_, run_bind_ok hrun⟩
      cases hstrict : k.isReservedInStrict with
      | true =>
        rw [hstrict] at hnotes
        exact hnotes
      | false =>
        rw [hstrict] at hnotes
        exact hnotes

theorem identifierWord_ok {text : Text} {r : String × Span} {d : Cursor} (hc : c.In text)
    (h : c.token.kind = .word w) (hrun : identifierWord { dialect := dialect } c = (.ok r, d)) :
    r.1 = w.name ∧ (w.keyword.all Keyword.isFree = false → d.notes ≠ []) := by
  rcases identifierWord_cases dialect h with ⟨-, e, d', hfail⟩ | ⟨notes, hnotes, heq⟩
  · cases hfail.symm.trans hrun
  have hleads : Leads text { dialect := dialect } { c with notes := notes }
      (advance >>= fun _ => pure (w.name, Span.mk c.token.start c.token.stop)) fun r d =>
        r.1 = w.name ∧ notes <:+ d.notes :=
    (advance_leads (c := { c with notes := notes }) { hc with }).bind fun _ d hd hle _ =>
      .pure hd ⟨rfl, hle.notes⟩
  obtain ⟨-, -, hname, hle⟩ := hleads.of_ok (heq.symm.trans hrun)
  refine ⟨hname, fun hreserved hnil => ?_⟩
  rw [hreserved] at hnotes
  rw [hnil] at hle
  exact hnotes (List.suffix_nil.mp hle)

/-- A module takes a word that it can bind. -/
theorem bindingWord_returns (hw : w.isBindable = true) (h : c.At (.word w) y) (hy : Quiet y) :
    Returns { dialect := dialect } c (bindingWord true) fun r d =>
      r.1 = w.name ∧ d.Before y ∧ d.notes = c.notes := by
  obtain ⟨hfree, hplain⟩ := Bool.and_eq_true_iff.mp hw
  have hlet : (keywordOf? c.token == some .kwLet) = false := by
    refine beq_eq_false_iff_ne.mpr fun hlet => ?_
    rw [keywordOf?, h.kind_eq] at hlet
    rw [show w.keyword = some .kwLet from hlet] at hfree
    cases hfree
  refine .step rfl ?_
  rw [hlet]
  rcases identifierWord_cases dialect h.kind_eq with ⟨hreserved, -⟩ | ⟨notes, hnotes, hrun⟩
  · cases hreserved.symm.trans hfree
  rw [hfree] at hnotes
  obtain rfl : notes = c.notes := hnotes
  have hword : Returns { dialect := dialect } c identifierWord fun r d =>
      r.1 = w.name ∧ d.Before y ∧ d.notes = c.notes := by
    unfold Returns
    rw [hrun]
    exact (advance_quiet h hy).bind fun _ d hd => .pure ⟨rfl, hd⟩
  refine hword.bind fun r d hd => ?_
  obtain ⟨name, span⟩ := r
  obtain ⟨rfl, hd⟩ := hd
  have hnote : noteRestricted w.name span.start { dialect := dialect } d = (.ok (), d) := by
    rw [noteRestricted, (Bool.not_eq_true' _).mp hplain]
    rfl
  exact .step hnote (.step rfl (.pure ⟨rfl, hd⟩))

/-- A word that a module cannot bind is refused, or there is a complaint about it. -/
theorem bindingWord_spoils {text : Text} (hw : w.isBindable = false) (hc : c.In text)
    (h : c.token.kind = .word w) : Spoils { dialect := dialect } c (bindingWord true) := by
  refine .step rfl ?_
  cases hlet : keywordOf? c.token == some .kwLet with
  | true => exact (Fails.bind (.of_gives .failUnexpected)).spoils
  | false =>
    refine .after fun r d hrun => ?_
    obtain ⟨hname, hnoted⟩ := identifierWord_ok dialect hc h hrun
    obtain ⟨name, span⟩ := r
    obtain rfl : name = w.name := hname
    obtain ⟨notes, hnotes, hrun⟩ := complainIf_run dialect d (isRestricted w.name) span.start
      "'eval' and 'arguments' cannot be used as a binding identifier in strict mode"
    refine .step hrun (.step rfl (.pure ?_))
    show notes ≠ []
    rw [Word.isBindable] at hw
    cases hrestricted : isRestricted w.name with
    | true =>
      rw [hrestricted] at hnotes
      exact hnotes
    | false =>
      rw [hrestricted] at hnotes hw
      obtain rfl : notes = d.notes := hnotes
      rw [Bool.not_false, Bool.and_true] at hw
      exact hnoted hw

theorem bindingTarget_returns (hw : w.isBindable = true) (h : c.At (.word w) y) (hy : Quiet y) :
    Returns { dialect := dialect } c (bindingTarget grammar true) fun n d =>
      (∃ span, n = .mk (.pattern (.ident w.name false)) span [.absent]) ∧ d.Before y ∧
        d.notes = c.notes := by
  refine .step rfl ?_
  rw [h.kind_eq]
  refine (bindingWord_returns dialect hw h hy).bind fun r d hd => ?_
  obtain ⟨name, span⟩ := r
  obtain ⟨rfl, hd⟩ := hd
  exact .pure ⟨⟨span, rfl⟩, hd⟩

theorem bindingTarget_spoils {text : Text} (hw : w.isBindable = false) (hc : c.In text)
    (h : c.token.kind = .word w) :
    Spoils { dialect := dialect } c (bindingTarget grammar true) := by
  refine .step rfl ?_
  rw [h]
  refine .after fun r d hrun => ?_
  obtain ⟨name, span⟩ := r
  exact .pure (bindingWord_spoils dialect hw hc h _ d hrun)

/-! ## A constant with a value -/

theorem typeAnnotation?_none (h : (c.token.kind == .punct .colon) = false) :
    typeAnnotation? grammar x c = (.ok none, c) :=
  run_bind_ok (eat_eq_false h)

/-- A name with a number for its value. -/
theorem declarator_valued (depth : Nat) (hw : w.isBindable = true)
    (h : c.At (.word w) " = 0;".toList) :
    Returns { dialect := dialect } c (declarator (parseGoal (depth + 2)) .constWord false)
      fun n d => (n.boundNames = [w.name] ∧ n.varNames = []) ∧ d.Before ";".toList ∧
        d.notes = c.notes := by
  refine .step rfl ((bindingTarget_returns dialect hw h quiet_value.space).bind fun n d hd => ?_)
  obtain ⟨⟨span, rfl⟩, hd, hnotes⟩ := hd
  have heq := eq_of_before hd
  have hsign {sign : Punct} (hne : (TokenKind.punct .eq == .punct sign) = false) :
      (d.token.kind == .punct sign) = false := by
    rw [heq.kind_eq]
    exact hne
  refine .step (eat_eq_false (hsign rfl)) (.step (typeAnnotation?_none (hsign rfl)) (.step rfl ?_))
  refine (eat_quiet heq quiet_number.space).bind fun b e he => ?_
  obtain ⟨rfl, he, hnotes'⟩ := he
  refine (assignment_number dialect depth he.drop_space).bind fun value f hf => ?_
  obtain ⟨⟨v, vspan, rfl⟩, hf, hnotes''⟩ := hf
  exact .step rfl (.pure ⟨⟨rfl, rfl⟩, hf, hnotes''.trans (hnotes'.trans hnotes)⟩)

/-- A list of variables starts with the first of them. -/
theorem declarators_eq (h : (c.token.kind == .punct .semi) = false) (fuel : Nat) :
    declarators grammar .constWord false (fuel + 1) [] { dialect := dialect } c =
      (do
        let n ← declarator grammar .constWord false
        if ← eat .comma then declarators grammar .constWord false fuel [n] else return [n] :
        Parser (List Node)) { dialect := dialect } c := by
  rw [declarators]
  refine (run_bind_ok (at?_eq .semi)).trans ?_
  rw [h, if_neg Bool.false_ne_true, run_bind, run_bind]
  rfl

theorem declaredVariables_valued (depth : Nat) (hw : w.isBindable = true)
    (h : c.At (.word w) " = 0;".toList) :
    Returns { dialect := dialect } c (declaredVariables (parseGoal (depth + 2)) .constWord)
      fun all d => (Node.boundNamesAll all = [w.name] ∧ Node.varNamesAll all = []) ∧
        d.token.kind = .eof ∧ d.notes = c.notes := by
  have hlist (fuel : Nat) : Returns { dialect := dialect } c
      (declarators (parseGoal (depth + 2)) .constWord false (fuel + 1) []) fun all d =>
        ∃ n, all = [n] ∧ (n.boundNames = [w.name] ∧ n.varNames = []) ∧ d.Before ";".toList ∧
          d.notes = c.notes := by
    unfold Returns
    rw [declarators_eq dialect (by rw [h.kind_eq]; rfl)]
    refine (declarator_valued dialect depth hw h).bind fun n d hd => ?_
    refine .step (eat_eq_false ?_) (.pure ⟨n, rfl, hd⟩)
    rw [(semi_of_before hd.2.1).kind_eq]
    rfl
  refine .step rfl ((hlist _).bind fun all d hd => ?_)
  obtain ⟨n, rfl, ⟨hbound, hvar⟩, hd, hnotes⟩ := hd
  have hsemi : Returns { dialect := dialect } d eatSemicolon fun b e =>
      b = true ∧ e.Before [] ∧ e.notes = d.notes := by
    refine (eat_quiet (semi_of_before hd) quiet_nil).bind fun b e he => ?_
    obtain ⟨rfl, he⟩ := he
    exact .pure ⟨rfl, he⟩
  refine hsemi.bind fun b e he => ?_
  obtain ⟨rfl, he, hnotes'⟩ := he
  refine .pure ⟨⟨?_, ?_⟩, eof_of_before he, hnotes'.trans hnotes⟩
  · show n.boundNames ++ [] = [w.name]
    rw [hbound, List.append_nil]
  · show n.varNames ++ [] = []
    rw [hvar, List.append_nil]

/-! ## A constant that is not read -/

section Spoiled

variable {text : Text} [hg : grammar.Sound text] {ch : Char}

theorem declarator_spoils (hc : c.In text) (h : Spoils x c (bindingTarget grammar true)) :
    Spoils x c (declarator grammar .constWord false) := by
  obtain ⟨rest, heq, hrest⟩ := declarator_opens grammar .constWord false hc
  exact .of_run heq (h.bind hc (bindingTarget_yields _) hrest)

theorem declaredVariables_spoils (hc : c.In text) (hopen : (c.token.kind == .punct .semi) = false)
    (h : Spoils { dialect := dialect } c (declarator grammar .constWord false)) :
    Spoils { dialect := dialect } c (declaredVariables grammar .constWord) := by
  obtain ⟨fuel, rest, heq, hrest⟩ := declaredVariables_opens text grammar .constWord _ c
  refine .of_run heq (.bind ?_ hc (declarators_yields _ _ _ soundAll_nil) hrest)
  refine .of_run (declarators_eq dialect hopen fuel) (Spoils.bind (W := SoundAll text) h hc
    (declarator_yields _ _) fun n hn => (eat_yields _).bind fun _ _ => ?_)
  exact .ite (declarators_yields _ _ _ (by simpa using hn)) (.pure (by simpa using hn))

theorem kind_of_stray (h : c.Before (ch :: y)) (hch : isStray ch = true) :
    ∃ e, c.token.kind = .bad e := by
  obtain ⟨_, ⟨e, rfl⟩, hat⟩ := h.exists_at (P := fun kind => ∃ e, kind = .bad e)
    (opensTrivia_stray hch y) fun n => by
      rw [scanKind_stray hch]
      exact ⟨⟨_, rfl⟩, rfl⟩
  exact ⟨e, hat.kind_eq⟩

/-- A word that breaks off has no value behind it. -/
theorem declarator_unvalued (hc : c.In text) (hch : isStray ch = true)
    (h : c.At (.word w) (ch :: y)) :
    Spoils { dialect := dialect } c (declarator grammar .constWord false) := by
  cases hw : w.isBindable with
  | false => exact declarator_spoils hc (bindingTarget_spoils dialect hw hc h.kind_eq)
  | true =>
    have hreturns : Returns { dialect := dialect } c (declarator grammar .constWord false)
        fun _ d => d.notes ≠ [] := by
      refine .step rfl ((bindingTarget_returns dialect hw h (quiet_stray hch y)).bind
        fun n d hd => ?_)
      obtain ⟨⟨span, rfl⟩, hd, -⟩ := hd
      have hsign (sign : Punct) : (d.token.kind == .punct sign) = false := by
        obtain ⟨e, he⟩ := kind_of_stray hd hch
        rw [he]
        rfl
      refine .step (eat_eq_false (hsign _)) (.step (typeAnnotation?_none (hsign _)) (.step rfl ?_))
      refine .step (eat_eq_false (hsign _)) (.step rfl ?_)
      exact .step rfl (.step rfl (.pure (List.cons_ne_nil _ _)))
    exact hreturns.spoils

end Spoiled

/-! ## A module of one constant -/

theorem peekIsWord?_eq (k : Keyword) :
    peekIsWord? k x c = (.ok (keywordOf? (loaded c.after true c).token == some k), c) := rfl

variable {offset : Nat}

/-- Behind `const` stand variables, unless the next word is `enum`. -/
theorem constDeclaration_eq (h : c.At kind y)
    (hnext : ∀ d : Cursor, d.Before y → keywordOf? d.token ≠ some .kwEnum) :
    constDeclaration grammar offset false x c =
      variableDeclaration grammar offset .constWord false x c := by
  have hpeek : peekIsWord? .kwEnum x c = (.ok false, c) := by
    rw [peekIsWord?_eq, beq_eq_false_iff_ne.mpr (hnext _ (loaded_before h))]
  exact run_bind_ok hpeek

theorem constDeclaration_spoils {text : Text} [grammar.Sound text] (hc : c.In text)
    (h : c.At kind y)
    (hnext : ∀ d : Cursor, d.Before y →
      keywordOf? d.token ≠ some .kwEnum ∧ (d.token.kind == .punct .semi) = false)
    (hspoils : ∀ d : Cursor, d.In text → d.Before y →
      Spoils { dialect := dialect } d (declarator grammar .constWord false)) :
    Spoils { dialect := dialect } c (constDeclaration grammar offset false) := by
  refine .of_run (constDeclaration_eq h fun d hd => (hnext d hd).1) ?_
  obtain ⟨_, d, hrun, hd, -⟩ := advance_returns (x := { dialect := dialect }) h
  have hin := in_of_advance hc hrun
  have hvariables := declaredVariables_spoils dialect hin (hnext d hd).2 (hspoils d hin hd)
  exact .step hrun (Spoils.bind (W := fun _ => True) hvariables hin (declaredVariables_yields _)
    fun _ _ => .ask fun _ _ _ => .pure trivial)

/-- Behind `const` the word `enum` starts an enumeration, which needs a name. -/
theorem constDeclaration_enum {z : Text} (h : c.At kind y) (hw : w.keyword = some .kwEnum)
    (hnext : ∀ d : Cursor, d.Before y → d.At (.word w) z)
    (hz : ∀ d : Cursor, d.Before z → ∀ w, d.token.kind ≠ .word w) :
    Fails { dialect := dialect } c (constDeclaration grammar offset false) := by
  have hkeyword (d : Cursor) (hd : d.Before y) :
      (keywordOf? d.token == some .kwEnum) = true := by
    rw [keywordOf?, (hnext d hd).kind_eq]
    exact beq_iff_eq.mpr hw
  have hpeek : peekIsWord? .kwEnum { dialect := dialect } c = (.ok true, c) := by
    rw [peekIsWord?_eq, hkeyword _ (loaded_before h)]
  obtain ⟨_, d, hrun, hd, -⟩ := advance_returns (x := { dialect := dialect }) h
  obtain ⟨_, f, hrun', hf, -⟩ := advance_returns (x := { dialect := dialect }) (hnext d hd)
  have hatWord : atWord? .kwEnum { dialect := dialect } d = (.ok true, d) := by
    rw [← hkeyword d hd]
    rfl
  have heat : eatWord .kwEnum { dialect := dialect } d = (.ok true, f) :=
    (run_bind_ok hatWord).trans (run_bind_ok hrun')
  have hexpect : expectWord .kwEnum { dialect := dialect } d = (.ok (), f) := run_bind_ok heat
  refine .step hpeek (.step hrun (.step hexpect (.bind (.step rfl ?_))))
  split
  · next w hw => exact absurd hw (hz f hf w)
  · exact .fail _

theorem decorators_nil (h : (c.token.kind == .punct .atSign) = false) :
    decorators grammar x c = (.ok [], c) := by
  refine (run_bind_ok rfl).trans ?_
  rw [decoratorList]
  refine (run_bind_ok rfl).trans ((run_bind_ok (at?_eq .atSign)).trans ?_)
  rw [h, Bool.and_false]
  rfl

/-- A module item that starts with `const` is a declaration. -/
theorem moduleItem_eq (h : c.token.kind = .word ⟨"const", some .kwConst⟩) :
    moduleItem grammar { dialect := dialect } c =
      (asStatement <$> constDeclaration grammar c.token.start false) { dialect := dialect } c := by
  have hkeyword : keywordOf? c.token = some .kwConst := by rw [keywordOf?, h]
  have hdecorators : decorators grammar { dialect := dialect } c = (.ok [], c) := by
    refine decorators_nil ?_
    rw [h]
    rfl
  have hvalue : valueDeclaration? grammar c.token.start [] { dialect := dialect } c =
      (some <$> constDeclaration grammar c.token.start false) { dialect := dialect } c := by
    refine (run_bind_ok rfl).trans ((run_bind_ok rfl).trans ?_)
    rw [hkeyword]
  refine (run_bind_ok rfl).trans ((run_bind_ok hdecorators).trans ((run_bind_ok rfl).trans ?_))
  rw [hkeyword]
  refine (run_bind_ok rfl).trans ?_
  rw [h, hkeyword]
  refine (run_bind_ok rfl).trans ?_
  rw [hkeyword]
  refine (run_bind_ok rfl).trans ?_
  simp only [Bool.true_or, if_true, ite_self]
  rw [run_bind, hvalue, map_eq_pure_bind, map_eq_pure_bind, run_bind, run_bind]
  rcases constDeclaration grammar c.token.start false { dialect := dialect } c with ⟨r, d⟩
  cases r with
  | ok n => rfl
  | error e => rfl

/-! ## The whole text -/

/-- The first token of a text stands at the start of a line. -/
theorem scanToken_const (y : Text) :
    scanToken ⟨"const ".toList ++ y, 0⟩ false =
      ⟨⟨.word ⟨"const", some .kwConst⟩, 0, 5, true⟩, [], ⟨"const ".toList ++ y, 0⟩,
        ⟨' ' :: y, 5⟩⟩ := by
  have hword : isPlainWord "const".toList = true := by decide
  have hkind := scanKind_plainWord (z := ' ' :: y) hword rfl false 0
  have hopen := opensTrivia_word (isWord_of_isPlainWord hword) true (' ' :: y)
  have hskip : skipTrivia ⟨"const".toList ++ ' ' :: y, 0⟩ =
      ⟨⟨"const".toList ++ ' ' :: y, 0⟩, true, [], none⟩ := triviaFrom_stop hopen
  show scanToken ⟨"const".toList ++ ' ' :: y, 0⟩ false = _
  rw [scanToken, hskip]
  dsimp only
  rw [hkind]
  rfl

/-- What becomes of a text that starts with `const`, by what is read from its first word on. -/
theorem exists_first (y : Text) :
    ∃ c : Cursor, c.In ("const ".toList ++ y) ∧
      c.At (.word ⟨"const", some .kwConst⟩) (' ' :: y) ∧ c.notes = [] ∧
      (∀ tree d, program (Text.size ("const ".toList ++ y)) { dialect := dialect } c = (.ok tree, d) →
        d.notes = [] → parse dialect ("const ".toList ++ y) = .ok tree) ∧
      (Spoils { dialect := dialect } c (program (Text.size ("const ".toList ++ y))) →
        ∃ e, parse dialect ("const ".toList ++ y) = .error e) := by
  unfold parse
  extract_lets place empty cursor whole
  have hscan : scanToken place false = _ := scanToken_const y
  have hplace : place.In ("const ".toList ++ y) := firstPlace_in _
  have hload : load place false { dialect := dialect } cursor =
      (.ok (), loaded place false cursor) := load_quiet (by rw [hscan])
  have hwhole : (whole { dialect := dialect }).run cursor =
      program _ { dialect := dialect } (loaded place false cursor) := run_bind_ok hload
  refine ⟨loaded place false cursor, ?_, ⟨?_, ?_, ?_⟩, rfl, fun tree d hrun hnotes => ?_,
    fun hspoils => ?_⟩
  · exact loaded_in hplace hplace.isBoundary hplace.isBoundary (Nat.le_refl _)
  · rw [loaded, hscan]
  · rw [loaded, hscan]
  · rw [loaded, hscan]
    exact Nat.succ_pos 4
  · rw [hwhole, hrun]
    simp only [hnotes]
    rfl
  · rw [hwhole]
    rcases hrun : program (Text.size ("const ".toList ++ y)) { dialect := dialect }
      (loaded place false cursor) with ⟨r, d⟩
    cases r with
    | error e => exact ⟨e, rfl⟩
    | ok tree =>
      cases hlast : d.notes.getLast? with
      | none => exact absurd (List.getLast?_eq_none_iff.mp hlast) (hspoils tree d hrun)
      | some e => exact ⟨e, by simp only [hlast]⟩

theorem kind_ne_eof (h : c.token.kind = .word w) : (c.token.kind == .eof) = false := by
  rw [h]
  rfl

/-- A text whose declaration is not read without a complaint. -/
theorem parse_error (hspoils : ∀ c : Cursor, c.In ("const ".toList ++ y) →
      c.At (.word ⟨"const", some .kwConst⟩) (' ' :: y) → ∀ depth,
        Spoils { dialect := dialect } c
          (constDeclaration (parseGoal (depth + 2)) c.token.start false)) :
    ∃ e, parse dialect ("const ".toList ++ y) = .error e := by
  obtain ⟨c, hc, hat, -, -, herror⟩ := exists_first dialect y
  have hitem (depth : Nat) : Spoils { dialect := dialect } c (parseGoal (depth + 3) .moduleItem) :=
    .of_run (moduleItem_eq dialect hat.kind_eq) (hspoils c hc hat depth).map
  have hitems (fuel depth : Nat) :
      Spoils { dialect := dialect } c (items (parseGoal (depth + 3)) (fuel + 1) []) := by
    rw [items]
    refine .step rfl ?_
    rw [kind_ne_eof hat.kind_eq, if_neg Bool.false_ne_true]
    exact (hitem depth).bind hc Grammar.Sound.moduleItem fun n hn => items_yields _ (by simpa using hn)
  exact herror (.after fun all d hrun => .pure (hitems _ _ all d hrun))

/-- The word that a plain name is. -/
def plainWord (name : Text) : Word :=
  ⟨String.ofList name, Keyword.ofText? (String.ofList name)⟩

variable {name : Text}

theorem at_plainWord (hname : isPlainWord name = true) (hy : y.head?.any continuesName = false)
    (h : c.Before (' ' :: (name ++ y))) : c.At (.word (plainWord name)) y := by
  refine h.drop_space.at_of_scanKind (opensTrivia_word (isWord_of_isPlainWord hname) false y)
    fun n => ?_
  rw [scanKind_plainWord hname hy]
  exact ⟨rfl, rfl⟩

theorem keyword_ne_enum (hname : isPlainWord name = true)
    (hy : y.head?.any continuesName = false) (henum : (plainWord name).keyword ≠ some .kwEnum)
    (h : c.Before (' ' :: (name ++ y))) : keywordOf? c.token ≠ some .kwEnum := by
  rw [keywordOf?, (at_plainWord hname hy h).kind_eq]
  exact henum

/-- A constant with a plain name that can be bound is read, and it declares the name. -/
theorem parse_bindable (hname : isPlainWord name = true)
    (hw : (plainWord name).isBindable = true) :
    ∃ tree, parse dialect ("const ".toList ++ (name ++ " = 0;".toList)) = .ok tree ∧
      tree.parts.flatMap Node.declaredNames = [String.ofList name] := by
  have henum : (plainWord name).keyword ≠ some .kwEnum := by
    intro henum
    rw [Word.isBindable, henum] at hw
    cases hw
  obtain ⟨c, -, hat, hnone, hok, -⟩ := exists_first dialect (name ++ " = 0;".toList)
  have hdeclaration (depth : Nat) : Returns { dialect := dialect } c
      (constDeclaration (parseGoal (depth + 2)) c.token.start false) fun n d =>
        (asStatement n).declaredNames = [String.ofList name] ∧ d.token.kind = .eof ∧
          d.notes = [] := by
    unfold Returns
    rw [constDeclaration_eq hat fun d hd => keyword_ne_enum hname rfl henum hd]
    refine (advance_quiet hat (quiet_word hname rfl).space).bind fun _ d hd => ?_
    refine (declaredVariables_valued dialect depth hw (at_plainWord hname rfl hd.1)).bind
      fun all e he => .step rfl (.pure ⟨?_, he.2.1, he.2.2.trans (hd.2.trans hnone)⟩)
    show Node.boundNamesAll all ++ ([] ++ Node.varNamesAll all) = [String.ofList name]
    rw [he.1.1, he.1.2]
    rfl
  have hitem (depth : Nat) : Returns { dialect := dialect } c
      (parseGoal (depth + 3) .moduleItem) fun n d =>
        n.declaredNames = [String.ofList name] ∧ d.token.kind = .eof ∧ d.notes = [] := by
    unfold Returns
    rw [show parseGoal (depth + 3) .moduleItem { dialect := dialect } c = _ from
      moduleItem_eq dialect hat.kind_eq]
    exact (hdeclaration depth).map fun _ _ hn => hn
  have hprogram (length : Nat) : Returns { dialect := dialect } c (program length) fun tree d =>
      tree.parts.flatMap Node.declaredNames = [String.ofList name] ∧ d.notes = [] := by
    refine Returns.bind (Q := fun all d => ∃ n, all = [n] ∧
      n.declaredNames = [String.ofList name] ∧ d.notes = []) ?_ fun all d hd => ?_
    · rw [items]
      refine .step rfl ?_
      rw [kind_ne_eof hat.kind_eq, if_neg Bool.false_ne_true]
      refine (hitem _).bind fun n d hd => ?_
      rw [items]
      refine .step rfl ?_
      rw [hd.2.1]
      exact .pure ⟨n, rfl, hd.1, hd.2.2⟩
    · obtain ⟨n, rfl, hn, hd⟩ := hd
      refine .pure ⟨?_, hd⟩
      rw [Node.parts, List.flatMap_cons, List.flatMap_nil, List.append_nil]
      exact hn
  obtain ⟨tree, d, hrun, hnames, hnotes⟩ := hprogram _
  exact ⟨tree, hok tree d hrun hnotes, hnames⟩

/-- A name that starts with a plain word: `enum` is taken for something else. -/
theorem parse_word_error (hname : isPlainWord name = true)
    (hy : y.head?.any continuesName = false)
    (hnext : ∀ d : Cursor, d.Before y → ∀ w, d.token.kind ≠ .word w)
    (hspoils : ∀ d : Cursor, d.In ("const ".toList ++ (name ++ y)) →
      d.At (.word (plainWord name)) y → ∀ depth, Spoils { dialect := dialect } d
        (declarator (parseGoal (depth + 2)) .constWord false)) :
    ∃ e, parse dialect ("const ".toList ++ (name ++ y)) = .error e := by
  refine parse_error dialect fun c hc hat depth => ?_
  by_cases henum : (plainWord name).keyword = some .kwEnum
  · exact (constDeclaration_enum dialect hat henum (fun d hd => at_plainWord hname hy hd)
      hnext).spoils
  refine constDeclaration_spoils dialect hc hat (fun d hd => ⟨keyword_ne_enum hname hy henum hd, ?_⟩)
    fun d hin hd => hspoils d hin (at_plainWord hname hy hd) depth
  rw [(at_plainWord hname hy hd).kind_eq]
  rfl

/-- A constant with a plain name that cannot be bound is not read. -/
theorem parse_unbindable (hname : isPlainWord name = true)
    (hw : (plainWord name).isBindable = false) :
    ∃ e, parse dialect ("const ".toList ++ (name ++ " = 0;".toList)) = .error e := by
  refine parse_word_error dialect hname rfl (fun d hd w hw => ?_) fun d hd hat depth => ?_
  · cases hw.symm.trans (eq_of_before hd).kind_eq
  · exact declarator_spoils hd (bindingTarget_spoils dialect hw hd hat.kind_eq)

variable {ch : Char}

/-- No constant is read whose name goes on with a stray character. -/
theorem parse_strayPart (hname : isPlainWord name = true) (hch : isStray ch = true)
    (hpart : isNamePart ch = false) :
    ∃ e, parse dialect ("const ".toList ++ (name ++ ch :: y)) = .error e := by
  have hstop : (ch :: y).head?.any continuesName = false := by
    have hne : ch ≠ '\\' := by
      rintro rfl
      exact (isStray_iff.mp hch).1 rfl
    show (isNamePart ch || ch == '\\') = false
    rw [hpart, beq_eq_false_iff_ne.mpr hne, Bool.or_self]
  refine parse_word_error dialect hname hstop (fun d hd w hw => ?_) fun d hd hat depth => ?_
  · obtain ⟨e, he⟩ := kind_of_stray hd hch
    cases hw.symm.trans he
  · exact declarator_unvalued dialect hd hch hat

/-- No constant is read whose name starts with a stray character. -/
theorem parse_strayStart (hch : isStray ch = true) :
    ∃ e, parse dialect ("const ".toList ++ ch :: y) = .error e := by
  refine parse_error dialect fun c hc hat depth => ?_
  refine constDeclaration_spoils dialect hc hat (fun d hd => ?_) fun d hin hd => ?_
  · obtain ⟨e, he⟩ := kind_of_stray hd.drop_space hch
    rw [keywordOf?, he]
    exact ⟨by rintro ⟨⟩, rfl⟩
  · obtain ⟨e, he⟩ := kind_of_stray hd.drop_space hch
    refine declarator_spoils hin (Spoils.step rfl ?_)
    rw [he]
    exact Fails.spoils ⟨e, d, rfl⟩

end Parser

end Retouch.Syntax
