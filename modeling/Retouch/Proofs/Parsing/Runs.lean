import Retouch.Proofs.Lexing
import Retouch.Proofs.Parsing.Module

/-!
# Runs on a text that is known

What the grammar makes of a text whose tokens are known one by one. A text is read only if no
complaint has come up on the way, so a run must also say which complaints it leaves behind.

- `Cursor.Before`, `Cursor.At`: cursors before a text, and at a token before it.
- `Returns`, `Fails`: a parser comes to a value, or gives up.
- `Quiet`: nothing is wrong with the first token of a text; `advance_quiet` goes on to it.
- `Spoils`: a parser comes to no value without a complaint. What goes on from there takes none back
  (`Spoils.bind`).
-/

namespace Retouch.Syntax

/-! ## Words -/

/-- Whether a text is written as a name, without escapes. -/
def isPlainWord (w : Text) : Bool := w.head?.any isNameStart && w.all isNamePart

/-- The characters of a name are read one after the other. -/
theorem nameFrom_plain {w z : Text} (hw : w.all isNamePart = true)
    (hz : z.head?.any continuesName = false) (n : Nat) (name : NameSoFar) :
    nameFrom (w ++ z) n name .plain =
      NameSoFar.finish { name with chars := w.reverse ++ name.chars } ⟨z, n + Text.size w⟩
        none := by
  induction w generalizing n name with
  | nil => exact nameFrom_stop hz n name
  | cons c w ih =>
    obtain ⟨hc, hrest⟩ := Bool.and_eq_true_iff.mp (List.all_cons.symm.trans hw)
    rw [List.cons_append, nameFrom_part hc, ih hrest]
    simp [NameSoFar.push, Text.size, Nat.add_assoc]

theorem scanKind_plainWord {w z : Text} (hw : isPlainWord w = true)
    (hz : z.head?.any continuesName = false) (strict : Bool) (n : Nat) :
    scanKind strict ⟨w ++ z, n⟩ =
      (.word ⟨String.ofList w, Keyword.ofText? (String.ofList w)⟩, [], ⟨z, n + Text.size w⟩) := by
  obtain ⟨hstart, hparts⟩ := Bool.and_eq_true_iff.mp hw
  cases w with
  | nil => cases hstart
  | cons c w =>
    have hname := nameFrom_plain hparts hz n {}
    have hc : (isNameStart c || c == '\\') = true := by
      rw [show isNameStart c = true from hstart, Bool.true_or]
    rw [scanKind]
    dsimp only [List.cons_append]
    rw [if_pos hc, scanName]
    dsimp only
    rw [List.cons_append] at hname
    rw [hname]
    simp only [NameSoFar.finish, wordKind, List.append_nil, List.reverse_reverse]
    cases Keyword.ofText? (String.ofList (c :: w)) with
    | none => rfl
    | some k => rfl

theorem isWord_of_isPlainWord {w : Text} (hw : isPlainWord w = true) :
    Lexeme.isWord ⟨.plain, w⟩ = true := by
  obtain ⟨hstart, -⟩ := Bool.and_eq_true_iff.mp hw
  cases w with
  | nil => cases hstart
  | cons c w =>
    show (isNameStart c || c == '\\') = true
    rw [show isNameStart c = true from hstart, Bool.true_or]

/-! ## Cursors before a text -/

/-- A cursor whose token is the first one of a text. -/
def Cursor.Before (c : Cursor) (y : Text) : Prop :=
  ∃ n, c.token = (scanToken ⟨y, n + 1⟩).token ∧ c.here = (scanToken ⟨y, n + 1⟩).here ∧
    c.after = (scanToken ⟨y, n + 1⟩).after

/-- A cursor at a token of some kind with a text behind it. -/
structure Cursor.At (c : Cursor) (kind : TokenKind) (y : Text) : Prop where
  kind_eq : c.token.kind = kind
  rest_eq : c.after.rest = y
  offset_pos : 0 < c.after.offset

theorem Cursor.At.after_eq {c : Cursor} {kind : TokenKind} {y : Text} (h : c.At kind y) :
    c.after = ⟨y, c.after.offset - 1 + 1⟩ := by
  rw [Nat.sub_add_cancel h.offset_pos, ← h.rest_eq]

theorem scanToken_separator {c : Char} (hc : isSeparator c = true) (y : Text) (n : Nat)
    (strict : Bool) :
    scanToken ⟨c :: y, n + 1⟩ strict = scanToken ⟨y, n + c.utf8Size + 1⟩ strict := by
  have hgap : isGap c = true := by rw [isGap, hc, Bool.or_true]
  have hskip : skipTrivia ⟨c :: y, n + 1⟩ = skipTrivia ⟨y, n + c.utf8Size + 1⟩ := by
    show triviaFrom (c :: y) (n + 1) false [] .blank = _
    rw [triviaFrom_gap hgap, not_isLineBreak_of_isSeparator hc, Nat.add_right_comm]
    rfl
  rw [scanToken, hskip]
  rfl

/-- Where a lexeme starts, the token is read there. -/
theorem scanToken_ink {y : Text} (hy : opensTrivia false y = false) (n : Nat) (strict : Bool) :
    scanToken ⟨y, n + 1⟩ strict =
      ⟨⟨(scanKind strict ⟨y, n + 1⟩).1, n + 1, (scanKind strict ⟨y, n + 1⟩).2.2.offset, false⟩,
        (scanKind strict ⟨y, n + 1⟩).2.1, ⟨y, n + 1⟩, (scanKind strict ⟨y, n + 1⟩).2.2⟩ := by
  have hskip : skipTrivia ⟨y, n + 1⟩ = ⟨⟨y, n + 1⟩, false, [], none⟩ := triviaFrom_stop hy
  rw [scanToken, hskip]
  rfl

namespace Cursor.Before

variable {c : Cursor} {y z w : Text}

theorem drop_space (h : c.Before (' ' :: y)) : c.Before y := by
  obtain ⟨n, htoken, hhere, hafter⟩ := h
  rw [scanToken_separator (by decide)] at htoken hhere hafter
  exact ⟨n + 1, htoken, hhere, hafter⟩

theorem exists_scanKind (h : c.Before y) (hy : opensTrivia false y = false) :
    ∃ n, c.token.kind = (scanKind true ⟨y, n + 1⟩).1 ∧ c.here = ⟨y, n + 1⟩ ∧
      c.after = (scanKind true ⟨y, n + 1⟩).2.2 := by
  obtain ⟨n, htoken, hhere, hafter⟩ := h
  rw [scanToken_ink hy] at htoken hhere hafter
  exact ⟨n, congrArg Token.kind htoken, hhere, hafter⟩

/-- What is known of a token at every place is known of the token of a cursor. -/
theorem exists_at (h : c.Before y) (hy : opensTrivia false y = false) {P : TokenKind → Prop}
    (hscan : ∀ n, P (scanKind true ⟨y, n⟩).1 ∧ (scanKind true ⟨y, n⟩).2.2.rest = z) :
    ∃ kind, P kind ∧ c.At kind z := by
  obtain ⟨n, hkind, -, hafter⟩ := h.exists_scanKind hy
  have hle := (scanKind_reaches true ⟨y, n + 1⟩).1.offset_le
  rw [← hafter] at hle
  refine ⟨_, (hscan (n + 1)).1, hkind, ?_, Nat.lt_of_lt_of_le n.succ_pos hle⟩
  rw [hafter]
  exact (hscan (n + 1)).2

theorem at_of_scanKind (h : c.Before y) (hy : opensTrivia false y = false) {kind : TokenKind}
    (hscan : ∀ n, (scanKind true ⟨y, n⟩).1 = kind ∧ (scanKind true ⟨y, n⟩).2.2.rest = z) :
    c.At kind z := by
  obtain ⟨_, rfl, hat⟩ := h.exists_at hy (P := (· = kind)) hscan
  exact hat

theorem at_eq (h : c.Before ('=' :: ' ' :: y)) : c.At (.punct .eq) (' ' :: y) :=
  h.at_of_scanKind rfl fun _ => ⟨rfl, rfl⟩

end Cursor.Before

/-! ## Runs that come to a value -/

namespace Parser

variable {α β : Type} {x : Context} {c : Cursor} {p : Parser α} {f : α → Parser β}
  {Q Q' : α → Cursor → Prop} {R : β → Cursor → Prop}

/-- From a cursor, a parser comes to a value; the value and the cursor behind it have a property. -/
def Returns (x : Context) (c : Cursor) (p : Parser α) (Q : α → Cursor → Prop) : Prop :=
  ∃ a d, p x c = (.ok a, d) ∧ Q a d

namespace Returns

theorem bind (h : Returns x c p Q) (hf : ∀ a d, Q a d → Returns x d (f a) R) :
    Returns x c (p >>= f) R := by
  obtain ⟨a, d, hp, hQ⟩ := h
  obtain ⟨b, e, hb, hR⟩ := hf a d hQ
  exact ⟨b, e, (run_bind_ok hp).trans hb, hR⟩

/-- A first step of which all is known. -/
theorem step {a : α} {d : Cursor} (h : p x c = (.ok a, d)) (hf : Returns x d (f a) R) :
    Returns x c (p >>= f) R := by
  obtain ⟨b, e, hb, hR⟩ := hf
  exact ⟨b, e, (run_bind_ok h).trans hb, hR⟩

theorem pure {a : α} (h : Q a c) : Returns x c (Pure.pure a) Q := ⟨a, c, rfl, h⟩

theorem map {g : α → β} (h : Returns x c p Q) (hg : ∀ a d, Q a d → R (g a) d) :
    Returns x c (g <$> p) R := by
  rw [map_eq_pure_bind]
  exact h.bind fun a d ha => .pure (hg a d ha)

theorem mono (h : Returns x c p Q) (hQ : ∀ a d, Q a d → Q' a d) : Returns x c p Q' := by
  obtain ⟨a, d, hp, ha⟩ := h
  exact ⟨a, d, hp, hQ a d ha⟩

end Returns

variable {kind : TokenKind} {y : Text}

theorem advance_returns (h : c.At kind y) :
    Returns x c advance fun _ d => d.Before y ∧ d.previous = ⟨c.token.start, c.token.stop⟩ := by
  obtain ⟨notes, -, hload⟩ := load_eq c.after true x c
  refine ⟨(), _, (run_bind_ok rfl).trans hload, ⟨c.after.offset - 1, ?_⟩, rfl⟩
  rw [← h.after_eq]
  exact ⟨rfl, rfl, rfl⟩

theorem at?_eq (p : Punct) : at? p x c = (.ok (c.token.kind == .punct p), c) := rfl

theorem eat_eq_false {p : Punct} (h : (c.token.kind == .punct p) = false) :
    eat p x c = (.ok false, c) := by
  refine (run_bind_ok (at?_eq p)).trans ?_
  rw [h]
  rfl

/-- From a cursor, a parser gives up. -/
def Fails (x : Context) (c : Cursor) (p : Parser α) : Prop := ∃ e d, p x c = (.error e, d)

namespace Fails

theorem bind (h : Fails x c p) : Fails x c (p >>= f) := by
  obtain ⟨e, d, hp⟩ := h
  refine ⟨e, d, ?_⟩
  rw [run_bind, hp]

theorem step {a : α} {d : Cursor} (h : p x c = (.ok a, d)) (hf : Fails x d (f a)) :
    Fails x c (p >>= f) := by
  obtain ⟨e, d, hp⟩ := hf
  exact ⟨e, d, (run_bind_ok h).trans hp⟩

theorem of_gives (h : Gives p fun _ => False) : Fails x c p := by
  rcases hrun : p x c with ⟨r, d⟩
  cases r with
  | error e => exact ⟨e, d, hrun⟩
  | ok a => exact (h x c a d hrun).elim

theorem fail (message : String) : Fails x c (Parser.fail message : Parser α) := of_gives .fail

end Fails

theorem in_of_advance {d : Cursor} {text : Text} (hc : c.In text) (h : advance x c = (.ok (), d)) :
    d.In text :=
  ((advance_leads hc).of_ok h).1

end Parser

/-! ## Texts without a reason to complain -/

/-- Whether nothing is wrong with the first token of a text. -/
def Quiet (y : Text) : Prop := ∀ n, (scanToken ⟨y, n + 1⟩).notes = []

theorem Quiet.space {y : Text} (h : Quiet y) : Quiet (' ' :: y) := by
  intro n
  rw [scanToken_separator (by decide)]
  exact h _

theorem quiet_of_scanKind {y : Text} (hy : opensTrivia false y = false)
    (h : ∀ n, (scanKind true ⟨y, n⟩).2.1 = []) : Quiet y := by
  intro n
  rw [scanToken_ink hy]
  exact h (n + 1)

theorem quiet_nil : Quiet [] := quiet_of_scanKind rfl fun _ => rfl

theorem quiet_word {w y : Text} (hw : isPlainWord w = true)
    (hy : y.head?.any continuesName = false) : Quiet (w ++ y) := by
  refine quiet_of_scanKind (opensTrivia_word (isWord_of_isPlainWord hw) false y) fun n => ?_
  rw [scanKind_plainWord hw hy]

namespace Parser

variable {α β : Type} {x : Context} {c d : Cursor} {kind : TokenKind} {y text : Text}
  {p : Parser α} {f : α → Parser β}

/-- Reading a token with which nothing is wrong. -/
theorem load_quiet {place : Place} {strict : Bool} (h : (scanToken place strict).notes = []) :
    load place strict x c = (.ok (), loaded place strict c) := by
  simp only [load, h]
  rfl

theorem loaded_before (h : c.At kind y) : (loaded c.after true c).Before y := by
  refine ⟨c.after.offset - 1, ?_⟩
  rw [← h.after_eq]
  exact ⟨rfl, rfl, rfl⟩

theorem advance_quiet (h : c.At kind y) (hy : Quiet y) :
    Returns x c advance fun _ d => d.Before y ∧ d.notes = c.notes := by
  have hquiet : (scanToken c.after).notes = [] := by
    rw [h.after_eq]
    exact hy _
  exact ⟨(), _, (run_bind_ok rfl).trans (load_quiet hquiet), loaded_before h, rfl⟩

theorem eat_quiet {sign : Punct} (h : c.At (.punct sign) y) (hy : Quiet y) :
    Returns x c (eat sign) fun b d => b = true ∧ d.Before y ∧ d.notes = c.notes := by
  refine .step (at?_eq sign) ?_
  rw [h.kind_eq, beq_self_eq_true]
  exact (advance_quiet h hy).bind fun _ _ hd => .pure ⟨rfl, hd⟩

/-! ## Runs that are spoiled -/

/-- From a cursor, a parser comes to no value without a complaint. -/
def Spoils (x : Context) (c : Cursor) (p : Parser α) : Prop :=
  ∀ a d, p x c = (.ok a, d) → d.notes ≠ []

theorem Fails.spoils (h : Fails x c p) : Spoils x c p := by
  obtain ⟨e, d, hp⟩ := h
  intro a d' hrun
  cases hp.symm.trans hrun

theorem Returns.spoils (h : Returns x c p fun _ d => d.notes ≠ []) : Spoils x c p := by
  obtain ⟨a, d, hp, hne⟩ := h
  intro b e hrun
  cases hp.symm.trans hrun
  exact hne

namespace Spoils

theorem of_run {q : Parser α} (heq : p x c = q x d) (h : Spoils x d q) : Spoils x c p :=
  fun a e hrun => h a e (heq.symm.trans hrun)

theorem pure {a : α} (h : c.notes ≠ []) : Spoils x c (Pure.pure a) := by
  intro b d hrun
  cases hrun
  exact h

theorem step {a : α} (h : p x c = (.ok a, d)) (hf : Spoils x d (f a)) : Spoils x c (p >>= f) :=
  fun b e hrun => hf b e ((run_bind_ok h).symm.trans hrun)

theorem after (h : ∀ a d, p x c = (.ok a, d) → Spoils x d (f a)) : Spoils x c (p >>= f) := by
  intro b e hrun
  rw [run_bind] at hrun
  split at hrun
  · next a d hp => exact h a d hp b e hrun
  · cases hrun

/-- Whatever goes on within the text takes no complaint back. -/
theorem bind {V : α → Prop} {W : β → Prop} (h : Spoils x c p) (hc : c.In text)
    (hp : Yields text p V) (hf : ∀ a, V a → Yields text (f a) W) : Spoils x c (p >>= f) := by
  refine after fun a d hrun b e hrun' hnil => h a d hrun ?_
  obtain ⟨hd, -, ha⟩ := (hp x c hc).of_ok hrun
  obtain ⟨-, hle, -⟩ := (hf a ha x d hd).of_ok hrun'
  have hnotes := hle.notes
  rw [hnil] at hnotes
  exact List.suffix_nil.mp hnotes

theorem map {g : α → β} (h : Spoils x c p) : Spoils x c (g <$> p) := by
  rw [map_eq_pure_bind]
  exact after fun a d hrun => pure (h a d hrun)

end Spoils

/-- A complaint under a condition. -/
theorem complainIf_run (dialect : Dialect) (c : Cursor) (b : Bool) (offset : Nat)
    (message : String) :
    ∃ notes, (if b then notes ≠ [] else notes = c.notes) ∧
      (if b then complain offset message else pure () : Parser Unit) { dialect := dialect } c =
        (.ok (), { c with notes := notes }) := by
  cases b with
  | true => exact ⟨⟨offset, message⟩ :: c.notes, List.cons_ne_nil _ _, rfl⟩
  | false => exact ⟨c.notes, rfl, rfl⟩

theorem tryCatch_ok {a : α} (h : p x c = (.ok a, d)) (handle : SyntaxError → Parser α) :
    tryCatch p handle x c = (.ok a, d) := by
  rw [run_tryCatch, h]

end Parser

end Retouch.Syntax
