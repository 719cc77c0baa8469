import Retouch.Proofs.Scanning
import Retouch.Syntax.Parser.Basic

/-!
# What parsers keep

A cursor keeps to its text when all of its offsets are cutting places in the right order. Every
parser keeps the cursor to the text and never takes it back, whether it ends with a value or with a
complaint; what it says about its value goes into a postcondition.

- `Cursor.In`, `Cursor.le`: cursors that keep to a text, and cursors further on.
- `Node.Sound`: all ranges of a tree end at cutting places, the operands of a binary operator stand
  in order, and declarations of types hold what they should.
- `Leads`: a parser under a given context from a given cursor.
- `Yields`: a parser under any context from any cursor of the text.
- `Completes`, `Reads`: parsers of constructs that start at a known offset, or at the current token.
-/

namespace Retouch.Syntax

variable {text : Text}

/-! ## Places and cursors of a text -/

/-- A place of a text. -/
def Place.In (text : Text) (p : Place) : Prop :=
  (Place.mk text 0).Reaches p

theorem Place.In.reaches {p q : Place} (h : p.In text) (hpq : p.Reaches q) : q.In text :=
  Place.Reaches.trans h hpq

theorem Place.In.isBoundary {p : Place} (h : p.In text) : text.isBoundary p.offset = true := by
  obtain ⟨read, hread, hoffset⟩ := h
  refine Text.isBoundary_iff.mpr ⟨read, p.rest, hread, ?_⟩
  simpa using hoffset.symm

/-- A cursor whose offsets are cutting places of a text, in the order in which they are read. -/
structure Cursor.In (text : Text) (c : Cursor) : Prop where
  here : c.here.In text
  ahead : c.here.Reaches c.after
  start_eq : c.token.start = c.here.offset
  stop_eq : c.token.stop = c.after.offset
  short : ∀ sign, c.token.kind = .punct sign → StartsShort c.here.rest
  previousStart : text.isBoundary c.previous.start = true
  previousStop : text.isBoundary c.previous.stop = true
  previous_le : c.previous.stop ≤ c.token.start

/-- A cursor further on. No complaint has been taken back on the way. -/
structure Cursor.le (c d : Cursor) : Prop where
  start_le : c.token.start ≤ d.token.start
  previous_le : c.previous.stop ≤ d.previous.stop
  notes : c.notes <:+ d.notes

namespace Cursor

variable {c d e : Cursor}

theorem le_of_notes {notes : List SyntaxError} (h : c.notes <:+ notes) :
    c.le { c with notes := notes } :=
  ⟨Nat.le_refl _, Nat.le_refl _, h⟩

theorem le.of_eq (hstart : d.token.start = c.token.start) (hprevious : d.previous = c.previous)
    (hnotes : d.notes = c.notes) : c.le d :=
  ⟨Nat.le_of_eq hstart.symm, hprevious ▸ Nat.le_refl _, hnotes ▸ List.suffix_refl _⟩

theorem le_refl (c : Cursor) : c.le c := .of_eq rfl rfl rfl

theorem le.trans (h : c.le d) (h' : d.le e) : c.le e :=
  ⟨Nat.le_trans h.1 h'.1, Nat.le_trans h.2 h'.2, h.3.trans h'.3⟩

namespace In

theorem after (h : c.In text) : c.after.In text := h.here.reaches h.ahead

theorem start (h : c.In text) : text.isBoundary c.token.start = true :=
  h.start_eq ▸ h.here.isBoundary

theorem stop (h : c.In text) : text.isBoundary c.token.stop = true :=
  h.stop_eq ▸ h.after.isBoundary

theorem start_le_stop (h : c.In text) : c.token.start ≤ c.token.stop := by
  rw [h.start_eq, h.stop_eq]
  exact h.ahead.offset_le

end In

end Cursor

/-! ## Trees over a text -/

/-- Whether a construct has two operands around a binary operator. -/
def Form.isBinary : Form → Bool
  | .expr (.binary _) => true
  | _ => false

/-- Whether a construct is a type. -/
def Form.isType : Form → Bool
  | .type _ => true
  | _ => false

/-- Whether a construct is an element of an interface or a type literal. -/
def Form.isElement : Form → Bool
  | .element _ => true
  | _ => false

/-- A list of type parameters, or none. -/
def Node.IsParameterList (n : Node) : Prop := n = .absent ∨ n.form = .typeParams

/-- What declarations of types, properties, type literals and built-in types hold. -/
def Form.Fits (form : Form) (parts : List Node) : Prop :=
  match form with
  | .stmt (.declaration (.interface _)) | .decl (.interface _) =>
    ∃ name list extended elements, parts = [name, list, extended, .group elements] ∧
      list.IsParameterList ∧ ∀ n ∈ elements, n.form.isElement = true
  | .moduleItem .exportDefaultInterface =>
    ∃ name elements list extended, parts = [name, .group elements, list, extended] ∧
      list.IsParameterList ∧ ∀ n ∈ elements, n.form.isElement = true
  | .stmt (.declaration (.typeAlias _)) | .decl (.typeAlias _) =>
    ∃ name list type, parts = [name, list, type] ∧ list.IsParameterList ∧ type.form.isType = true
  | .element (.property _ _) =>
    ∃ key type, parts = [key, type] ∧ (type = .absent ∨ type.form.isType = true)
  | .type .literal => ∀ n ∈ parts, n.form.isElement = true
  | .type (.word _) => parts = []
  | _ => True

/-- Constructs of whose parts nothing is asked. -/
def Form.isLoose : Form → Bool
  | .expr (.binary _) | .stmt (.declaration (.interface _)) | .decl (.interface _)
  | .moduleItem .exportDefaultInterface | .stmt (.declaration (.typeAlias _))
  | .decl (.typeAlias _) | .element (.property _ _) | .type .literal | .type (.word _) => false
  | _ => true

/-- Two operands in order within a range. -/
def Separates (span : Span) (left right : Node) : Prop :=
  span.start ≤ left.span.start ∧ left.span.start ≤ left.span.stop ∧
    left.span.stop ≤ right.span.start ∧ right.span.start ≤ right.span.stop ∧
    right.span.stop ≤ span.stop

/-- A tree whose ranges end at cutting places, with the operands of binary operators in order, and
with the right parts in declarations of types. -/
inductive Node.Sound (text : Text) : Node → Prop where
  | mk {form : Form} {span : Span} {parts : List Node}
      (hstart : text.isBoundary span.start = true) (hstop : text.isBoundary span.stop = true)
      (hparts : ∀ n ∈ parts, Node.Sound text n)
      (hbinary : form.isBinary = true →
        ∃ left right, parts = [left, right] ∧ Separates span left right)
      (hfits : form.Fits parts) :
      Node.Sound text (.mk form span parts)

/-- Trees one after the other. -/
def SoundAll (text : Text) (nodes : List Node) : Prop :=
  ∀ n ∈ nodes, n.Sound text

/-- A tree that may be missing. -/
def SoundOption (text : Text) (node : Option Node) : Prop :=
  ∀ n ∈ node, n.Sound text

section SoundAll

variable {n : Node} {nodes others : List Node}

@[simp] theorem soundAll_nil : SoundAll text [] := nofun

@[simp] theorem soundAll_cons : SoundAll text (n :: nodes) ↔ n.Sound text ∧ SoundAll text nodes :=
  List.forall_mem_cons

@[simp] theorem soundAll_append :
    SoundAll text (nodes ++ others) ↔ SoundAll text nodes ∧ SoundAll text others :=
  List.forall_mem_append

@[simp] theorem soundAll_reverse : SoundAll text nodes.reverse ↔ SoundAll text nodes := by
  simp [SoundAll]

@[simp] theorem soundOption_none : SoundOption text none := nofun

@[simp] theorem soundOption_some : SoundOption text (some n) ↔ n.Sound text := by
  simp [SoundOption]

end SoundAll

namespace Node.Sound

variable {n : Node}

theorem start (h : n.Sound text) : text.isBoundary n.span.start = true := by
  cases h
  assumption

theorem stop (h : n.Sound text) : text.isBoundary n.span.stop = true := by
  cases h
  assumption

theorem parts (h : n.Sound text) : SoundAll text n.parts := by
  cases h
  assumption

theorem fits (h : n.Sound text) : n.form.Fits n.parts := by
  cases h
  assumption

/-- A tree that is no binary operation. -/
theorem of_fits {form : Form} {span : Span} {parts : List Node} (hform : form.isBinary = false)
    (hfits : form.Fits parts) (hstart : text.isBoundary span.start = true)
    (hstop : text.isBoundary span.stop = true) (hparts : SoundAll text parts) :
    Node.Sound text (.mk form span parts) :=
  .mk hstart hstop hparts (fun h => absurd h (by simp [hform])) hfits

/-- A tree of whose parts nothing else is asked. -/
theorem of_parts {form : Form} {span : Span} {parts : List Node}
    (hform : form.isLoose = true) (hstart : text.isBoundary span.start = true)
    (hstop : text.isBoundary span.stop = true) (hparts : SoundAll text parts) :
    Node.Sound text (.mk form span parts) := by
  refine of_fits ?_ ?_ hstart hstop hparts
  · unfold Form.isBinary
    split
    · cases hform
    · rfl
  · unfold Form.Fits
    split
    case h_9 => trivial
    all_goals cases hform

end Node.Sound

theorem isBoundary_zero : text.isBoundary 0 = true := Text.isBoundary_size_append [] text

@[simp] theorem sound_absent : Node.absent.Sound text :=
  .of_parts rfl isBoundary_zero isBoundary_zero soundAll_nil

@[simp] theorem sound_group {parts : List Node} :
    (Node.group parts).Sound text ↔ SoundAll text parts :=
  ⟨fun h => h.parts, .of_parts rfl isBoundary_zero isBoundary_zero⟩

@[simp] theorem sound_ofOption {o : Option Node} :
    (Node.ofOption o).Sound text ↔ SoundOption text o := by
  cases o <;> simp [Node.ofOption]

/-! ## A parser at a cursor -/

namespace Parser

variable {α β : Type} {x : Context} {c : Cursor}

theorem run_bind (p : Parser α) (f : α → Parser β) (x : Context) (c : Cursor) :
    (p >>= f) x c = match (p x c : Except SyntaxError α × Cursor) with
      | (.ok a, d) => f a x d
      | (.error e, d) => (.error e, d) := by
  rcases hp : (p x c : Except SyntaxError α × Cursor) with ⟨r, d⟩
  change (match p x c with | (r, d) => ExceptT.bindCont (fun a => f a x) r d) = _
  rw [hp]
  cases r with
  | ok a => rfl
  | error e => rfl

theorem run_bind_ok {p : Parser α} {f : α → Parser β} {a : α} {d : Cursor}
    (h : p x c = (.ok a, d)) : (p >>= f) x c = f a x d := by
  rw [run_bind, h]

theorem run_tryCatch (p : Parser α) (handler : SyntaxError → Parser α) (x : Context) (c : Cursor) :
    (tryCatch p handler) x c = match (p x c : Except SyntaxError α × Cursor) with
      | (.ok a, d) => (.ok a, d)
      | (.error e, d) => handler e x d := by
  rcases hp : (p x c : Except SyntaxError α × Cursor) with ⟨r, d⟩
  change ExceptT.tryCatch (p x) (fun e => handler e x) c = _
  simp only [ExceptT.tryCatch, ExceptT.mk, bind, StateT.bind, hp]
  cases r with
  | ok a => rfl
  | error e => rfl

theorem run_get (x : Context) (c : Cursor) : (get : Parser Cursor) x c = (.ok c, c) := rfl

theorem run_set (x : Context) (c d : Cursor) : (set d : Parser PUnit) x c = (.ok (), d) := rfl

/-- Reading ahead either goes through or leaves everything as it was. -/
theorem run_attempt (p : Parser (Option α)) (x : Context) (c : Cursor) :
    attempt p x c =
      match (within (fun c => { c with muted := true }) p x c :
        Except SyntaxError (Option α) × Cursor) with
      | (.ok (some a), d) => (.ok (some a), d)
      | _ => (.ok none, c) := by
  rcases hp : (within (fun c => { c with muted := true }) p x c :
    Except SyntaxError (Option α) × Cursor) with ⟨r, d⟩
  simp only [attempt, run_bind, run_tryCatch, run_get, run_set, hp]
  cases r with
  | ok o =>
    cases o with
    | some a => rfl
    | none => rfl
  | error e => rfl

theorem run_lookAhead (p : Parser α) (x : Context) (c : Cursor) :
    ∃ o, lookAhead p x c = (.ok o, c) := by
  rcases hp : (within (fun c => { c with muted := true }) p x c :
    Except SyntaxError α × Cursor) with ⟨r, d⟩
  simp only [lookAhead, run_bind, run_tryCatch, run_get, run_set, hp]
  cases r with
  | ok a => exact ⟨some a, rfl⟩
  | error e => exact ⟨none, rfl⟩

/-- Under a given context and from a given cursor, a parser keeps to the text and goes no step
back; its value and the cursor behind it have a property. -/
def Leads (text : Text) (x : Context) (c : Cursor) (p : Parser α) (Q : α → Cursor → Prop) : Prop :=
  match (p x c : Except SyntaxError α × Cursor) with
  | (.ok a, d) => d.In text ∧ c.le d ∧ Q a d
  | (.error _, d) => d.In text ∧ c.le d

namespace Leads

variable {p : Parser α} {f : α → Parser β} {Q Q' : α → Cursor → Prop} {R : β → Cursor → Prop}

/-- A parser that goes on as another one does from a cursor further on. -/
theorem of_run {y : Context} {d : Cursor} {q : Parser α} (heq : p x c = q y d) (hle : c.le d)
    (h : Leads text y d q Q) : Leads text x c p Q := by
  unfold Leads at h ⊢
  rw [heq]
  split at h
  · exact ⟨h.1, hle.trans h.2.1, h.2.2⟩
  · exact ⟨h.1, hle.trans h.2⟩

theorem of_ok {a : α} {d : Cursor} (h : Leads text x c p Q) (hrun : p x c = (.ok a, d)) :
    d.In text ∧ c.le d ∧ Q a d := by
  unfold Leads at h
  rw [hrun] at h
  exact h

theorem bind (h : Leads text x c p Q)
    (hf : ∀ a d, d.In text → c.le d → Q a d → Leads text x d (f a) R) :
    Leads text x c (p >>= f) R := by
  unfold Leads at h
  split at h
  · next a d hp =>
    obtain ⟨hd, hle, hq⟩ := h
    exact .of_run (run_bind_ok hp) hle (hf a d hd hle hq)
  · next e d hp =>
    unfold Leads
    rw [run_bind, hp]
    exact h

theorem mono (h : Leads text x c p Q) (hQ : ∀ a d, d.In text → c.le d → Q a d → Q' a d) :
    Leads text x c p Q' := by
  unfold Leads at h ⊢
  split at h
  · next a d hp => exact ⟨h.1, h.2.1, hQ a d h.1 h.2.1 h.2.2⟩
  · exact h

/-- A parser that only looks does not move the cursor. -/
theorem query {a : α} (h : p x c = (.ok a, c)) (hf : Leads text x c (f a) R) :
    Leads text x c (p >>= f) R :=
  .of_run (run_bind_ok h) c.le_refl hf

theorem pure {a : α} (hc : c.In text) (hQ : Q a c) : Leads text x c (Pure.pure a) Q :=
  ⟨hc, c.le_refl, hQ⟩

theorem throw {e : SyntaxError} (hc : c.In text) :
    Leads text x c (MonadExcept.throw e : Parser α) Q :=
  ⟨hc, c.le_refl⟩

theorem byCases {b : Prop} [Decidable b] {q : Parser α} (h : b → Leads text x c p Q)
    (h' : ¬ b → Leads text x c q Q) : Leads text x c (if b then p else q) Q := by
  split
  · next hb => exact h hb
  · next hb => exact h' hb

theorem ite {b : Prop} [Decidable b] {q : Parser α} (h : Leads text x c p Q)
    (h' : Leads text x c q Q) : Leads text x c (if b then p else q) Q :=
  .byCases (fun _ => h) fun _ => h'

/-- A complaint is caught where it arose. -/
theorem tryCatch {handler : SyntaxError → Parser α} (h : Leads text x c p Q)
    (hcatch : ∀ e d, d.In text → c.le d → Leads text x d (handler e) Q) :
    Leads text x c (MonadExcept.tryCatch p handler) Q := by
  unfold Leads at h
  split at h
  · next a d hp =>
    unfold Leads
    rw [run_tryCatch, hp]
    exact h
  · next e d hp =>
    exact .of_run (by rw [run_tryCatch, hp]) h.2 (hcatch e d h.1 h.2)

end Leads

/-! ## A parser at any cursor -/

/-- Under any context and from any cursor of the text, a parser keeps to the text, and its value has
a property. -/
def Yields (text : Text) (p : Parser α) (V : α → Prop) : Prop :=
  ∀ x c, c.In text → Leads text x c p fun a _ => V a

namespace Yields

variable {p q : Parser α} {f : α → Parser β} {V V' : α → Prop} {W : β → Prop}

theorem bind (h : Yields text p V) (hf : ∀ a, V a → Yields text (f a) W) :
    Yields text (p >>= f) W :=
  fun x c hc => (h x c hc).bind fun a d hd _ ha => hf a ha x d hd

theorem mono (h : Yields text p V) (hV : ∀ a, V a → V' a) : Yields text p V' :=
  fun x c hc => (h x c hc).mono fun a _ _ _ => hV a

/-- A parser that only looks: what it finds is a function of the context and the cursor. -/
theorem ask {g : Context → Cursor → α} (hf : ∀ x c, c.In text → Yields text (f (g x c)) W) :
    Yields text ((fun x c => (.ok (g x c), c) : Parser α) >>= f) W :=
  fun x c hc => .query rfl (hf x c hc x c hc)

theorem look {g : Context → Cursor → α} (h : ∀ x c, p x c = (.ok (g x c), c)) :
    Yields text p fun _ => True := by
  intro x c hc
  unfold Leads
  rw [h]
  exact ⟨hc, c.le_refl, trivial⟩

theorem pure {a : α} (ha : V a) : Yields text (Pure.pure a) V :=
  fun _ _ hc => .pure hc ha

theorem throw (e : SyntaxError) : Yields text (MonadExcept.throw e : Parser α) V :=
  fun _ _ hc => .throw hc

theorem ite {b : Prop} [Decidable b] (h : Yields text p V) (h' : Yields text q V) :
    Yields text (if b then p else q) V :=
  fun x c hc => .ite (h x c hc) (h' x c hc)

/-- A step that is taken under a condition only. -/
theorem guard {b : Prop} [Decidable b] {p : Parser Unit} {f : Unit → Parser β}
    (h : Yields text p fun _ => True) (hf : Yields text (f ()) W) :
    Yields text (if b then p >>= f else f ()) W :=
  .ite (h.bind fun _ _ => hf) hf

/-- A complaint that is made under a condition only, about something that is looked up first. -/
theorem guardWith {b : Prop} [Decidable b] {r : α → Parser Unit} {f : Unit → Parser β}
    (h : Yields text p V) (hr : ∀ a, Yields text (r a) fun _ => True)
    (hf : Yields text (f ()) W) :
    Yields text (if b then p >>= fun a => r a >>= f else f ()) W :=
  .ite (h.bind fun a _ => (hr a).bind fun _ _ => hf) hf

/-- Two ways to the value with which a parser goes on. -/
theorem join {b : Prop} [Decidable b] (h : Yields text p V) (h' : Yields text q V)
    (hf : ∀ a, V a → Yields text (f a) W) :
    Yields text (if b then p >>= f else q >>= f) W :=
  .ite (h.bind hf) (h'.bind hf)

theorem within {change : Context → Context} (h : Yields text p V) :
    Yields text (Parser.within change p) V :=
  fun x c hc => h (change x) c hc

theorem tryCatch {handler : SyntaxError → Parser α} (h : Yields text p V)
    (hcatch : ∀ e, Yields text (handler e) V) :
    Yields text (MonadExcept.tryCatch p handler) V :=
  fun x c hc => (h x c hc).tryCatch fun e d hd _ => hcatch e x d hd

/-- Nothing follows a parser without a value. -/
theorem stop (h : Yields text p fun _ => False) : Yields text (p >>= f) W :=
  h.bind fun _ => False.elim

/-- A parser without a value. -/
theorem absurd {Q : α → Cursor → Prop} (h : Yields text p fun _ => False) (hc : c.In text) :
    Leads text x c p Q :=
  (h x c hc).mono fun _ _ _ _ => False.elim

theorem map {g : α → β} (h : Yields text p V) (hg : ∀ a, V a → W (g a)) :
    Yields text (g <$> p) W := by
  rw [map_eq_pure_bind]
  exact h.bind fun a ha => .pure (hg a ha)

theorem some {p : Parser Node} (h : Yields text p (Node.Sound text)) :
    Yields text (Option.some <$> p) (SoundOption text) :=
  h.map fun _ => soundOption_some.mpr

theorem discard (h : Yields text p V) : Yields text (Functor.discard p) fun _ => True :=
  h.map fun _ _ => trivial

/-- A loop over a list that keeps nothing between its rounds. -/
theorem forIn {γ : Type} {items : List γ} {body : γ → Unit → Parser (ForInStep Unit)}
    (h : ∀ item ∈ items, Yields text (body item ()) fun _ => True) :
    Yields text (ForIn.forIn items () body) fun _ => True := by
  induction items with
  | nil => exact .pure trivial
  | cons item items ih =>
    rw [List.forIn_cons]
    refine (h item List.mem_cons_self).bind fun step _ => ?_
    cases step with
    | done => exact .pure trivial
    | yield => exact ih fun other hother => h other (List.mem_cons_of_mem _ hother)

end Yields

/-! ## Values alone -/

/-- Whatever a parser reads, from any cursor, its value has a property. -/
def Gives (p : Parser α) (V : α → Prop) : Prop :=
  ∀ x c a d, p x c = (.ok a, d) → V a

namespace Gives

variable {p q : Parser α} {f : α → Parser β} {V : α → Prop} {W : β → Prop}

theorem bind (h : Gives p V) (hf : ∀ a, V a → Gives (f a) W) : Gives (p >>= f) W := by
  intro x c b d hb
  rw [run_bind] at hb
  split at hb
  · next a e ha => exact hf a (h x c a e ha) x e b d hb
  · cases hb

/-- What comes last decides. -/
theorem after (hf : ∀ a, Gives (f a) W) : Gives (p >>= f) W :=
  bind (V := fun _ => True) (fun _ _ _ _ _ => trivial) fun a _ => hf a

theorem pure {a : α} (ha : V a) : Gives (Pure.pure a) V := by
  intro x c b d hb
  cases hb
  exact ha

theorem throw {e : SyntaxError} : Gives (MonadExcept.throw e : Parser α) V := by
  intro x c a d ha
  cases ha

theorem ite {b : Prop} [Decidable b] (h : Gives p V) (h' : Gives q V) :
    Gives (if b then p else q) V := by
  split
  · exact h
  · exact h'

theorem guard {b : Prop} [Decidable b] {p : Parser Unit} {f : Unit → Parser β}
    (hf : Gives (f ()) W) : Gives (if b then p >>= f else f ()) W :=
  ite (after fun _ => hf) hf

theorem join {b : Prop} [Decidable b] (hf : ∀ a, Gives (f a) W) :
    Gives (if b then p >>= f else q >>= f) W :=
  ite (after hf) (after hf)

theorem within {change : Context → Context} (h : Gives p V) : Gives (Parser.within change p) V :=
  fun x c a d ha => h (change x) c a d ha

theorem map {g : α → β} (h : Gives p V) (hg : ∀ a, V a → W (g a)) : Gives (g <$> p) W := by
  rw [map_eq_pure_bind]
  exact h.bind fun a ha => .pure (hg a ha)

theorem attempt {p : Parser (Option α)} {V : Option α → Prop} (h : Gives p V) (hnone : V none) :
    Gives (Parser.attempt p) V := by
  intro x c a d ha
  rw [run_attempt] at ha
  split at ha
  · next found e hfound =>
    cases ha
    exact h _ _ _ _ hfound
  · cases ha
    exact hnone

theorem failAt {offset : Nat} {message : String} : Gives (Parser.failAt offset message) V := by
  refine after fun _ => ?_
  dsimp only
  split
  · exact after fun _ => throw
  · exact throw

theorem fail {message : String} : Gives (Parser.fail message) V := after fun _ => failAt

theorem failUnexpected {expected : String} : Gives (Parser.failUnexpected expected) V :=
  after fun _ => fail

theorem exhausted : Gives (Parser.exhausted : Parser α) V := fail

theorem finish {o : Nat} {form : Form} {parts : List Node} {V : Node → Prop}
    (h : ∀ span, V (.mk form span parts)) : Gives (Parser.finish o form parts) V :=
  after fun _ => pure (h _)

end Gives

theorem Yields.gives {p : Parser α} {V W : α → Prop} (h : Yields text p V) (h' : Gives p W) :
    Yields text p fun a => V a ∧ W a := by
  intro x c hc
  have hp := h x c hc
  unfold Leads at hp ⊢
  split at hp
  · next a d ha => exact ⟨hp.1, hp.2.1, hp.2.2, h' x c a d ha⟩
  · exact hp

/-- A condition that must not hold. -/
theorem Leads.unless {b : Prop} [Decidable b] {p : Parser Unit} {f : Unit → Parser β}
    {R : β → Cursor → Prop} (hc : c.In text) (h : Yields text p fun _ => False)
    (hf : Leads text x c (f ()) R) : Leads text x c (if b then p >>= f else f ()) R :=
  .ite (h.stop.absurd hc) hf

/-! ## Complaints -/

variable {V : α → Prop} {Q : α → Cursor → Prop}

/-- A change of the cursor that does not touch its place in the text. -/
theorem yields_modify {change : Cursor → Cursor}
    (h : ∀ c, c.In text → (change c).In text ∧ c.le (change c)) :
    Yields text (modify change) fun _ => True :=
  fun _ c hc => ⟨(h c hc).1, (h c hc).2, trivial⟩

/-- A parser that does nothing but complain. -/
def Remarks (p : Parser Unit) : Prop :=
  ∀ x c, ∃ notes, c.notes <:+ notes ∧ p x c = (.ok (), { c with notes := notes })

namespace Remarks

variable {p q : Parser Unit}

theorem nothing : Remarks (pure ()) := fun _ c => ⟨c.notes, List.suffix_refl _, rfl⟩

theorem bind {f : Unit → Parser Unit} (h : Remarks p) (hf : Remarks (f ())) :
    Remarks (p >>= f) := by
  intro x c
  obtain ⟨first, hle, hfirst⟩ := h x c
  obtain ⟨notes, hle', hnotes⟩ := hf x { c with notes := first }
  exact ⟨notes, hle.trans hle', (run_bind_ok hfirst).trans hnotes⟩

theorem ite {b : Prop} [Decidable b] (h : Remarks p) (h' : Remarks q) :
    Remarks (if b then p else q) := by
  split
  · exact h
  · exact h'

theorem guard {b : Prop} [Decidable b] {f : Unit → Parser Unit} (h : Remarks p)
    (hf : Remarks (f ())) : Remarks (if b then p >>= f else f ()) :=
  .ite (h.bind hf) hf

theorem forIn {γ : Type} {p : γ → Parser Unit} (items : List γ) (h : ∀ item, Remarks (p item)) :
    Remarks (ForIn.forIn items () fun item _ => p item >>= fun _ => pure (.yield ())) := by
  induction items with
  | nil => exact nothing
  | cons item items ih =>
    intro x c
    obtain ⟨first, hle, hfirst⟩ := h item x c
    obtain ⟨notes, hle', hnotes⟩ := ih x { c with notes := first }
    refine ⟨notes, hle.trans hle', ?_⟩
    rw [List.forIn_cons, run_bind_ok (run_bind_ok hfirst)]
    exact hnotes

theorem yields (h : Remarks p) : Yields text p fun _ => True := by
  intro x c hc
  obtain ⟨notes, hle, heq⟩ := h x c
  unfold Leads
  rw [heq]
  exact ⟨{ hc with }, c.le_of_notes hle, trivial⟩

end Remarks

theorem note_remarks (e : SyntaxError) : Remarks (note e) := by
  intro x c
  change ∃ notes, c.notes <:+ notes ∧
    (if (!x.muted) = true then (modify fun c => { c with notes := e :: c.notes })
      else pure () : Parser Unit) x c = (.ok (), { c with notes := notes })
  split
  · exact ⟨e :: c.notes, List.suffix_cons _ _, rfl⟩
  · exact ⟨c.notes, List.suffix_refl _, rfl⟩

theorem complain_remarks (offset : Nat) (message : String) : Remarks (complain offset message) :=
  note_remarks _

theorem complain_yields (offset : Nat) (message : String) :
    Yields text (complain offset message) fun _ => True :=
  (complain_remarks offset message).yields

/-- A complaint, under a condition or without one, leaves the cursor where it is. -/
theorem Leads.remark {p : Parser Unit} {f : Unit → Parser α} (hp : Remarks p)
    (h : ∀ notes, Leads text x { c with notes := notes } (f ()) Q) :
    Leads text x c (p >>= f) Q := by
  obtain ⟨notes, hle, heq⟩ := hp x c
  exact .of_run (run_bind_ok heq) (c.le_of_notes hle) (h notes)

theorem Leads.remarkIf {b : Prop} [Decidable b] {p : Parser Unit} {f : Unit → Parser α}
    (hp : Remarks p) (h : ∀ notes, Leads text x { c with notes := notes } (f ()) Q) :
    Leads text x c (if b then p >>= f else f ()) Q :=
  .ite (.remark hp h) (h c.notes)

theorem failAt_yields (offset : Nat) (message : String) :
    Yields text (failAt offset message : Parser α) V := by
  refine .ask fun x c hc => ?_
  dsimp only
  split
  · exact (note_remarks _).yields.bind fun _ _ => .throw _
  · exact .throw _

theorem tokenOffset_yields : Yields text tokenOffset (text.isBoundary · = true) := by
  refine .ask fun x c hc => ?_
  split
  · exact .pure hc.previousStop
  · exact .pure hc.start

theorem fail_yields (message : String) : Yields text (fail message : Parser α) V :=
  tokenOffset_yields.bind fun _ _ => failAt_yields _ _

theorem describe_yields : Yields text describe fun _ => True := by
  refine .ask fun _ _ _ => .ask fun _ c _ => ?_
  split
  all_goals exact .pure trivial

theorem failExpected_yields (expected : String) :
    Yields text (failExpected expected : Parser α) V :=
  describe_yields.bind fun _ _ => fail_yields _

theorem failUnexpected_yields (expected : String) :
    Yields text (failUnexpected expected : Parser α) V :=
  describe_yields.bind fun _ _ => fail_yields _

theorem exhausted_yields : Yields text (exhausted : Parser α) V :=
  fail_yields _

/-! ## The next token -/

/-- The cursor with the token that is read at a place. -/
def loaded (place : Place) (strict : Bool) (c : Cursor) : Cursor :=
  { c with
    token := (scanToken place strict).token
    here := (scanToken place strict).here
    after := (scanToken place strict).after
    previous := ⟨c.token.start, c.token.stop⟩ }

/-- Reading a token at a place keeps to the text if the token before it does. -/
theorem loaded_in {place : Place} {strict : Bool} (hplace : place.In text)
    (hstart : text.isBoundary c.token.start = true) (hstop : text.isBoundary c.token.stop = true)
    (hle : c.token.stop ≤ place.offset) : (loaded place strict c).In text := by
  obtain ⟨hhere, hahead⟩ := scanToken_reaches place strict
  obtain ⟨hstart', hstop'⟩ := scanToken_span place strict
  exact {
    here := hplace.reaches hhere
    ahead := hahead
    start_eq := hstart'
    stop_eq := hstop'
    short := fun _ => startsShort_of_scanToken
    previousStart := hstart
    previousStop := hstop
    previous_le := by
      have := hhere.offset_le
      simp only [loaded]
      omega }

/-- Reading a token at a place changes nothing else but the complaints. -/
theorem load_eq (place : Place) (strict : Bool) (x : Context) (c : Cursor) :
    ∃ notes, c.notes <:+ notes ∧
      load place strict x c = (.ok (), { loaded place strict c with notes := notes }) := by
  obtain ⟨notes, hle, hnotes⟩ := Remarks.forIn (scanToken place strict).notes note_remarks x c
  refine ⟨notes, hle, ?_⟩
  unfold load
  extract_lets scanned
  rw [run_bind_ok hnotes]
  rfl

/-- Reading a token at a place behind the current token. -/
theorem load_leads {place : Place} {strict : Bool} (hplace : place.In text)
    (hstart : text.isBoundary c.token.start = true) (hstop : text.isBoundary c.token.stop = true)
    (hordered : c.token.start ≤ c.token.stop) (hprevious : c.previous.stop ≤ c.token.start)
    (hle : c.token.stop ≤ place.offset) :
    Leads text x c (load place strict) fun _ d => c.token.start ≤ d.previous.stop := by
  obtain ⟨notes, hnotes, hload⟩ := load_eq place strict x c
  have hin : (loaded place strict c).In text := loaded_in hplace hstart hstop hle
  have hbehind := hin.previous_le
  unfold Leads
  rw [hload]
  simp only [loaded] at hbehind
  refine ⟨{ hin with }, ⟨?_, ?_, hnotes⟩, ?_⟩
  all_goals
    simp only [loaded]
    omega

theorem advance_leads (hc : c.In text) :
    Leads text x c advance fun _ d => c.token.start ≤ d.previous.stop :=
  .query rfl (load_leads hc.after hc.start hc.stop hc.start_le_stop hc.previous_le
    (Nat.le_of_eq hc.stop_eq))

/-- The token that was current is the one before. -/
theorem advance_leads_stop (hc : c.In text) :
    Leads text x c advance fun _ d => c.token.stop ≤ d.previous.stop := by
  obtain ⟨notes, -, hload⟩ := load_eq c.after true x c
  have h := advance_leads (x := x) hc
  have heq : advance x c = (.ok (), { loaded c.after true c with notes := notes }) :=
    (run_bind_ok rfl).trans hload
  unfold Leads at h ⊢
  rw [heq] at h ⊢
  exact ⟨h.1, h.2.1, Nat.le_refl _⟩

theorem advance_yields : Yields text advance fun _ => True :=
  fun _ _ hc => (advance_leads hc).mono fun _ _ _ _ _ => trivial

/-- Going on at a place behind the start of the current token. -/
theorem resume_leads (hc : c.In text) {place : Place} (hplace : place.In text)
    (hle : c.token.start ≤ place.offset) :
    Leads text x c (resume place) fun _ d => c.token.start ≤ d.previous.stop :=
  .of_run (d := { c with token := { c.token with stop := place.offset } }) rfl
    (.of_eq rfl rfl rfl)
    (load_leads hplace hc.start hplace.isBoundary hle hc.previous_le (Nat.le_refl _))

/-- The place behind the first character of a punctuator. -/
theorem behindSign_in (hc : c.In text) {sign : Punct} (hsign : c.token.kind = .punct sign) :
    (Place.mk (c.here.rest.drop 1) (c.here.offset + 1)).In text :=
  hc.here.reaches (hc.short sign hsign).reaches

/-- Going on behind the first character of a punctuator. -/
theorem advancePart_leads (hc : c.In text) {sign : Punct} (hsign : c.token.kind = .punct sign) :
    Leads text x c (advancePart 1) fun _ d => c.token.start ≤ d.previous.stop := by
  have hplace := behindSign_in hc hsign
  have hstart := hc.start_eq
  refine .query rfl ?_
  refine .of_run (d := { c with token := { c.token with stop := c.token.start + 1 } }) rfl
    (.of_eq rfl rfl rfl)
    (load_leads hplace hc.start ?_ (Nat.le_succ _) hc.previous_le ?_)
  · show text.isBoundary (c.token.start + 1) = true
    rw [hstart]
    exact hplace.isBoundary
  · show c.token.start + 1 ≤ c.here.offset + 1
    omega

theorem eat_leads (p : Punct) (hc : c.In text) :
    Leads text x c (eat p) fun b d => b = true → c.token.start ≤ d.previous.stop := by
  refine .query rfl (.ite ?_ (.pure hc nofun))
  exact (advance_leads hc).bind fun _ d hd _ hbehind => .pure hd fun _ => hbehind

theorem eat_yields (p : Punct) : Yields text (eat p) fun _ => True :=
  fun _ _ hc => (eat_leads p hc).mono fun _ _ _ _ _ => trivial

theorem eatWord_leads (k : Keyword) (hc : c.In text) :
    Leads text x c (eatWord k) fun b d => b = true → c.token.stop ≤ d.previous.stop := by
  refine .query rfl (.ite ?_ (.pure hc nofun))
  exact (advance_leads_stop hc).bind fun _ d hd _ hbehind => .pure hd fun _ => hbehind

theorem eatWord_yields (k : Keyword) : Yields text (eatWord k) fun _ => True :=
  fun _ _ hc => (eatWord_leads k hc).mono fun _ _ _ _ _ => trivial

theorem expect_leads (p : Punct) (hc : c.In text) :
    Leads text x c (expect p) fun _ d => c.token.start ≤ d.previous.stop := by
  refine (eat_leads p hc).bind fun b d hd _ hbehind => ?_
  cases b with
  | true => exact .pure hd (hbehind rfl)
  | false => exact (failExpected_yields _).absurd hd

theorem expect_yields (p : Punct) : Yields text (expect p) fun _ => True :=
  fun _ _ hc => (expect_leads p hc).mono fun _ _ _ _ _ => trivial

theorem expectWord_leads (k : Keyword) (hc : c.In text) :
    Leads text x c (expectWord k) fun _ d => c.token.stop ≤ d.previous.stop := by
  refine (eatWord_leads k hc).bind fun b d hd _ hbehind => ?_
  cases b with
  | true => exact .pure hd (hbehind rfl)
  | false => exact (failExpected_yields _).absurd hd

theorem expectWord_yields (k : Keyword) : Yields text (expectWord k) fun _ => True :=
  fun _ _ hc => (expectWord_leads k hc).mono fun _ _ _ _ _ => trivial

theorem atSemicolon_yields : Yields text atSemicolon? fun _ => True := by
  refine .ask fun _ c _ => ?_
  split
  all_goals exact .pure trivial

theorem eatSemicolon_yields : Yields text eatSemicolon fun _ => True :=
  (eat_yields _).bind fun _ _ => .ite (.pure trivial) atSemicolon_yields

theorem expectSemicolon_yields : Yields text expectSemicolon fun _ => True :=
  eatSemicolon_yields.bind fun _ _ =>
    .ite (failExpected_yields _) (.pure trivial)

/-! ## Reading ahead -/

theorem Leads.attempt {p : Parser (Option α)} (hc : c.In text)
    (h : ∀ x, Leads text x c p fun o d => ∀ a ∈ o, Q a d) :
    Leads text x c (attempt p) fun o d => ∀ a ∈ o, Q a d := by
  have hp := h { x with muted := true }
  unfold Leads at hp ⊢
  rw [run_attempt]
  unfold Parser.within
  split at hp
  · next o d heq =>
    rw [heq]
    cases o with
    | some a => exact hp
    | none => exact ⟨hc, c.le_refl, nofun⟩
  · next e d heq =>
    rw [heq]
    exact ⟨hc, c.le_refl, nofun⟩

/-- A parser that goes back by hand where nothing was found, with the complaints made so far. -/
theorem Leads.orRevert {p : Parser (Option α)} {f : Option α → Parser (Option α)} (hc : c.In text)
    (h : Leads text x c p fun o d => ∀ a ∈ o, Q a d) (hsome : ∀ a, f (some a) = Pure.pure (some a))
    (hnone : f none = modify (fun d => { c with notes := d.notes }) >>= fun _ => Pure.pure none) :
    Leads text x c (p >>= f) fun o d => ∀ a ∈ o, Q a d := by
  unfold Leads at h ⊢
  rw [run_bind]
  split at h
  · next o d _ =>
    cases o with
    | some a =>
      simp only [hsome]
      exact h
    | none =>
      simp only [hnone]
      exact ⟨{ hc with }, c.le_of_notes h.2.1.notes, nofun⟩
  · exact h

theorem Yields.attempt {p : Parser (Option α)} (h : Yields text p fun o => ∀ a ∈ o, V a) :
    Yields text (Parser.attempt p) fun o => ∀ a ∈ o, V a :=
  fun _ c hc => .attempt hc fun x => h x c hc

theorem lookAhead_yields (p : Parser α) : Yields text (lookAhead p) fun _ => True := by
  intro x c hc
  obtain ⟨o, ho⟩ := run_lookAhead p x c
  unfold Leads
  rw [ho]
  exact ⟨hc, c.le_refl, trivial⟩

/-! ## Constructs -/

theorem finish_yields {o : Nat} {form : Form} {parts : List Node}
    (ho : text.isBoundary o = true) (hparts : SoundAll text parts)
    (hform : form.isLoose = true) :
    Yields text (finish o form parts) (Node.Sound text) :=
  .ask fun _ _ hc => .pure (.of_parts hform ho hc.previousStop hparts)

theorem finish_fits {o : Nat} {form : Form} {parts : List Node} (hform : form.isBinary = false)
    (hfits : form.Fits parts) (ho : text.isBoundary o = true) (hparts : SoundAll text parts) :
    Yields text (finish o form parts) (Node.Sound text) :=
  .ask fun _ _ hc => .pure (.of_fits hform hfits ho hc.previousStop hparts)

end Parser

/-- A construct that starts at an offset or behind it and ends before the current token. -/
def Node.Since (o : Nat) (c : Cursor) (n : Node) : Prop :=
  o ≤ n.span.start ∧ n.span.start ≤ n.span.stop ∧ n.span.stop ≤ c.token.start ∧
    n.span.start ≤ c.previous.stop

theorem Node.Since.le {o : Nat} {c d : Cursor} {n : Node} (h : n.Since o c) (hle : c.le d) :
    n.Since o d :=
  ⟨h.1, h.2.1, Nat.le_trans h.2.2.1 hle.1, Nat.le_trans h.2.2.2 hle.2⟩

theorem Node.Since.of_le {o o' : Nat} {c : Cursor} {n : Node} (h : n.Since o c) (hle : o' ≤ o) :
    n.Since o' c :=
  ⟨Nat.le_trans hle h.1, h.2⟩

namespace Parser

variable {α β : Type} {x : Context} {c : Cursor} {V : α → Prop} {Q : α → Cursor → Prop}

/-- A parser that consumes the current token at least. -/
def Consumes (text : Text) (p : Parser α) (V : α → Prop) : Prop :=
  ∀ x c, c.In text → Leads text x c p fun a d => V a ∧ c.token.start ≤ d.previous.stop

/-- Once an offset has been passed, a parser ends in a given way. -/
def Passes (text : Text) (o : Nat) (p : Parser α) (Q : α → Cursor → Prop) : Prop :=
  ∀ x c, c.In text → o ≤ c.previous.stop → Leads text x c p Q

/-- Once an offset has been passed, a parser reads the construct that starts there. -/
def Completes (text : Text) (o : Nat) (p : Parser Node) : Prop :=
  Passes text o p fun n d => n.Sound text ∧ n.Since o d

/-- Once an offset has been passed, a parser reads the construct that starts there, if any. -/
def MayComplete (text : Text) (o : Nat) (p : Parser (Option Node)) : Prop :=
  Passes text o p fun found d => ∀ n ∈ found, n.Sound text ∧ n.Since o d

/-- A parser reads a construct that starts at the current token. -/
def Reads (text : Text) (p : Parser Node) : Prop :=
  ∀ x c, c.In text → Leads text x c p fun n d => n.Sound text ∧ n.Since c.token.start d

namespace Passes

variable {o : Nat} {p q : Parser α} {f : α → Parser β} {R : β → Cursor → Prop}

theorem bind (h : Yields text p V) (hf : ∀ a, V a → Passes text o (f a) R) :
    Passes text o (p >>= f) R :=
  fun x c hc hle => (h x c hc).bind fun a d hd hcd ha => hf a ha x d hd (Nat.le_trans hle hcd.2)

theorem ask {g : Context → Cursor → α} (hf : ∀ x c, c.In text → Passes text o (f (g x c)) R) :
    Passes text o ((fun x c => (.ok (g x c), c) : Parser α) >>= f) R :=
  fun x c hc hle => .query rfl (hf x c hc x c hc hle)

theorem ite {b : Prop} [Decidable b] (h : Passes text o p Q) (h' : Passes text o q Q) :
    Passes text o (if b then p else q) Q :=
  fun x c hc hle => .ite (h x c hc hle) (h' x c hc hle)

theorem guard {b : Prop} [Decidable b] {p : Parser Unit} {f : Unit → Parser β}
    (h : Yields text p fun _ => True) (hf : Passes text o (f ()) R) :
    Passes text o (if b then p >>= f else f ()) R :=
  .ite (.bind h fun _ _ => hf) hf

theorem join {b : Prop} [Decidable b] (h : Yields text p V) (h' : Yields text q V)
    (hf : ∀ a, V a → Passes text o (f a) R) :
    Passes text o (if b then p >>= f else q >>= f) R :=
  .ite (.bind h hf) (.bind h' hf)

theorem within {change : Context → Context} (h : Passes text o p Q) :
    Passes text o (Parser.within change p) Q :=
  fun x c hc hle => h (change x) c hc hle

theorem never (h : Yields text p fun _ => False) : Passes text o p Q :=
  fun _ _ hc _ => h.absurd hc

theorem none : Passes text o (pure Option.none) fun found d => ∀ a ∈ found, Q a d :=
  fun _ _ hc _ => .pure hc nofun

theorem attempt {p : Parser (Option α)} (h : Passes text o p fun found d => ∀ a ∈ found, Q a d) :
    Passes text o (Parser.attempt p) fun found d => ∀ a ∈ found, Q a d :=
  fun _ c hc hle => .attempt hc fun x => h x c hc hle

theorem finish {form : Form} {parts : List Node} (ho : text.isBoundary o = true)
    (hparts : SoundAll text parts) (hform : form.isLoose = true) :
    Passes text o (Parser.finish o form parts) fun n d => n.Sound text ∧ n.Since o d :=
  fun _ _ hc hle =>
    .query rfl (.pure hc ⟨.of_parts hform ho hc.previousStop hparts,
      Nat.le_refl _, hle, hc.previous_le, hle⟩)

end Passes

namespace Completes

variable {o : Nat} {p : Parser Node}

/-- A construct that another parser goes on with. -/
theorem feed {f : Node → Parser β} {R : β → Cursor → Prop} (h : Completes text o p)
    (hf : ∀ n x d, d.In text → n.Sound text → n.Since o d → Leads text x d (f n) R) :
    Passes text o (p >>= f) R :=
  fun x c hc hle => (h x c hc hle).bind fun n d hd _ hn => hf n x d hd hn.1 hn.2

theorem some (h : Completes text o p) :
    MayComplete text o (p >>= fun n => pure (Option.some n)) :=
  h.feed fun _ _ _ hd hn hsince => .pure hd fun _ hm => Option.some.inj hm ▸ ⟨hn, hsince⟩

end Completes

namespace Consumes

variable {p : Parser α}

theorem yields (h : Consumes text p V) : Yields text p V :=
  fun x c hc => (h x c hc).mono fun _ _ _ _ ha => ha.1

theorem advance : Consumes text Parser.advance fun _ => True :=
  fun _ _ hc => (advance_leads hc).mono fun _ _ _ _ h => ⟨trivial, h⟩

theorem expect (p : Punct) : Consumes text (Parser.expect p) fun _ => True :=
  fun _ _ hc => (expect_leads p hc).mono fun _ _ _ _ h => ⟨trivial, h⟩

theorem expectWord (k : Keyword) : Consumes text (Parser.expectWord k) fun _ => True :=
  fun _ _ hc => (expectWord_leads k hc).mono fun _ _ _ _ h =>
    ⟨trivial, Nat.le_trans hc.start_le_stop h⟩

/-- A construct whose offset is passed by the first step. -/
theorem completes {o : Nat} {f : α → Parser Node} (h : Consumes text p V) (hc : c.In text)
    (hle : o ≤ c.token.start) (hf : ∀ a, V a → Completes text o (f a)) :
    Leads text x c (p >>= f) fun n d => n.Sound text ∧ n.Since o d :=
  (h x c hc).bind fun a d hd _ ha => hf a ha.1 x d hd (Nat.le_trans hle ha.2)

end Consumes

namespace Reads

variable {p : Parser Node}

theorem consumes (h : Reads text p) : Consumes text p (Node.Sound text) :=
  fun x c hc => (h x c hc).mono fun _ _ _ _ hn =>
    ⟨hn.1, Nat.le_trans hn.2.1 hn.2.2.2.2⟩

theorem yields (h : Reads text p) : Yields text p (Node.Sound text) :=
  h.consumes.yields

theorem within {change : Context → Context} (h : Reads text p) :
    Reads text (Parser.within change p) :=
  fun x c hc => h (change x) c hc

/-- A construct whose first step consumes a token. -/
theorem begin {q : Parser α} {f : Nat → α → Parser Node} (h : Consumes text q V)
    (hf : ∀ o a, text.isBoundary o = true → V a → Completes text o (f o a)) :
    Reads text (start >>= fun o => q >>= f o) :=
  fun x c hc => .query rfl ((h x c hc).bind fun a d hd _ ha => hf _ a hc.start ha.1 x d hd ha.2)

end Reads

/-- A construct that was read before is given back after further steps. -/
theorem Yields.returns {o : Nat} {x : Context} {c : Cursor} {p : Parser Node} {n : Node}
    (h : Yields text p (· = n)) (hc : c.In text) (hn : n.Sound text) (hsince : n.Since o c) :
    Leads text x c p fun m d => m.Sound text ∧ m.Since o d :=
  (h x c hc).mono fun _ _ _ hle heq => heq ▸ ⟨hn, hsince.le hle⟩

/-- A construct that is read at once, or else by the rest of its rule. -/
theorem Leads.orElse {o : Nat} {x : Context} {c : Cursor} {p : Parser (Option Node)}
    {f : Option Node → Parser Node}
    (h : Leads text x c p fun found d => ∀ n ∈ found, n.Sound text ∧ n.Since o d)
    (hsome : ∀ n, f (some n) = Pure.pure n)
    (hnone : ∀ d, d.In text → c.le d →
      Leads text x d (f none) fun n e => n.Sound text ∧ n.Since o e) :
    Leads text x c (p >>= f) fun n d => n.Sound text ∧ n.Since o d := by
  refine h.bind fun found d hd hle hfound => ?_
  cases found with
  | some n =>
    rw [hsome]
    exact .pure hd (hfound n rfl)
  | none => exact hnone d hd hle

theorem since_token {c d : Cursor} {form : Form} {parts : List Node} (hc : c.In text)
    (hd : d.In text) (hstop : c.token.stop ≤ d.previous.stop) :
    (Node.mk form ⟨c.token.start, c.token.stop⟩ parts).Since c.token.start d := by
  have hordered := hc.start_le_stop
  have hbehind := hd.previous_le
  simp only [Node.Since, Node.span]
  omega

/-- A construct that is one token. -/
theorem tokenNode_leads {x : Context} {c : Cursor} {form : Form} {parts : List Node}
    (hc : c.In text) (hparts : SoundAll text parts) (hform : form.isLoose = true) :
    Leads text x c
      (advance >>= fun _ => pure (Node.mk form ⟨c.token.start, c.token.stop⟩ parts))
      fun n d => n.Sound text ∧ n.Since c.token.start d :=
  (advance_leads_stop hc).bind fun _ _ hd _ hstop =>
    .pure hd ⟨.of_parts hform hc.start hc.stop hparts, since_token hc hd hstop⟩

end Parser

/-! ## The grammar from inside its rules -/

/-- What the rules of the grammar may take for granted about each other. -/
class Grammar.Sound (text : Text) (grammar : Grammar) : Prop where
  expression : Parser.Reads text (grammar .expression)
  assignment : Parser.Reads text (grammar .assignment)
  binary : Parser.Reads text (grammar .binary)
  binaryAfter : ∀ {left : Node} {o : Nat} {x : Context} {c : Cursor}, left.Sound text →
    left.Since o c → c.In text →
      Parser.Leads text x c (grammar (.binaryAfter left)) fun n d => n.Sound text ∧ n.Since o d
  unary : Parser.Reads text (grammar .unary)
  leftHand : Parser.Reads text (grammar .leftHand)
  newOrMember : Parser.Reads text (grammar .newOrMember)
  statement : ∀ withDeclarations,
    Parser.Yields text (grammar (.statement withDeclarations)) (Node.Sound text)
  moduleItem : Parser.Yields text (grammar .moduleItem) (Node.Sound text)
  binding : Parser.Yields text (grammar .binding) (Node.Sound text)
  type : Parser.Yields text (grammar .type) (Node.Sound text)
  isType : Parser.Gives (grammar .type) fun n => n.form.isType = true
  decorator : Parser.Yields text (grammar .decorator) (Node.Sound text)
  heritage : Parser.Yields text (grammar .heritage) (Node.Sound text)
  /-- markup ends on the closing bracket of its last tag, which is still current -/
  jsx : ∀ {nested : Bool} {x : Context} {c : Cursor}, c.In text →
    Parser.Leads text x c (grammar (.jsx nested)) fun n d =>
      n.Sound text ∧ c.token.start ≤ n.span.start ∧ n.span.start ≤ d.previous.stop ∧
        n.span.stop = d.token.stop

end Retouch.Syntax
