import Retouch.Log
import Retouch.Text.CharClass
import Retouch.Text.Regex

/-!
# Log filters

- `Occasion`: the run of a refactoring that events belong to.
- `Directive`: a rule for what is told, for events from some place or on some occasion.
- `Filter.read`: the directives of a text.
- `Filter.tells`, `Filter.select`: the events that are told.
-/

namespace Retouch

/-- The run of a refactoring that events belong to. -/
structure Occasion where
  /-- key of the refactoring -/
  key : Text
  /-- where the selection starts -/
  start : Position

/-- What the value of a field must be. -/
inductive Expected where
  | flag (b : Bool)
  | number (n : Nat)
  /-- a number with a sign or a fraction, which no field has -/
  | real
  | like (r : Regex)
deriving DecidableEq, Repr

namespace Expected

/-- Whether a text is a number that may have a fraction and an exponent. -/
def isReal (text : Text) : Bool :=
  let digits := match text with
    | '+' :: rest | '-' :: rest => rest
    | _ => text
  let whole := digits.takeWhile Char.isDigit
  let (part, after) := match digits.drop whole.length with
    | '.' :: rest => (rest.takeWhile Char.isDigit, rest.dropWhile Char.isDigit)
    | rest => ([], rest)
  !(whole ++ part).isEmpty &&
    match after with
    | [] => true
    | c :: exponent =>
      let power := match exponent with
        | '+' :: rest | '-' :: rest => rest
        | _ => exponent
      (c == 'e' || c == 'E') && !power.isEmpty && power.all Char.isDigit

/-- A number without a fraction, which may have a plus sign. -/
def natural? (text : Text) : Option Nat :=
  let digits := match text with
    | '+' :: rest => rest
    | _ => text
  if digits.isEmpty || !digits.all Char.isDigit then
    none
  else
    some (digits.foldl (fun n c => 10 * n + (c.toNat - '0'.toNat)) 0)

/-- The value that a text stands for. -/
def read? (text : Text) : Option Expected :=
  if text == "true".toList then some (.flag true)
  else if text == "false".toList then some (.flag false)
  else
    match natural? text with
    | some n => some (.number n)
    | none => if isReal text then some .real else (Regex.read? text).map .like

end Expected

/-- A field that must be there, perhaps with a given value. -/
structure Condition where
  field : Text
  expected : Option Expected := none
deriving DecidableEq, Repr

namespace Condition

/-- The condition that a text stands for; what follows a second equals sign is not looked at. -/
def read? (text : Text) : Option Condition :=
  match Text.splitOnChar '=' text with
  | field :: value :: _ => (Expected.read? value).map fun e => ⟨field, some e⟩
  | [field] => some { field := field }
  | [] => none

/-- Whether a number in a field is as expected. -/
def admits (c : Condition) (n : Nat) : Bool :=
  match c.expected with
  | none => true
  | some e => e == .number n

/-- Whether an occasion meets a condition. -/
def holds (c : Condition) (o : Occasion) : Bool :=
  if c.field == "refactoring".toList then
    match c.expected with
    | none => true
    | some (.like r) => r.reachesEnd o.key
    | some _ => false
  else if c.field == "line".toList then
    c.admits o.start.line
  else if c.field == "column".toList then
    c.admits o.start.column
  else
    false

end Condition

/-- A rule for what is told: up to which rank, for events from where. Nothing is told at rank
zero. -/
structure Directive where
  /-- what the name of a place starts with -/
  place : Text := []
  /-- the name of the span that events must stand in -/
  span : Option Text := none
  /-- a condition on the fields of the span, or of the event itself -/
  condition : Option Condition := none
  rank : Nat
deriving DecidableEq, Repr

namespace Directive

/-- The rank that a word stands for. -/
def rank? (word : Text) : Option Nat :=
  match Expected.natural? word with
  | some n => if n ≤ 5 then some n else none
  | none =>
    let lower := word.map Char.toLower
    if lower == "off".toList then
      some 0
    else
      (Level.all.find? fun l => lower == l.key.toList).map Level.rank

/-- The rank after the names of a directive; without one, everything is told. -/
def rankAfter? (rest : Text) : Option Nat :=
  match rest with
  | ['='] => some 5
  | '=' :: word => rank? word
  | _ => if Text.isBlank rest then some 5 else none

/-- Characters that names of places can start with. -/
def startsPlace (c : Char) : Bool :=
  CharClass.has CharClass.alphabetic c || CharClass.has CharClass.numeric c || c == '_' || c == ':' ||
    c == '-'

/-- A directive about a span, from the text after the opening bracket. -/
def spanned? (place rest : Text) : Option Directive :=
  let name := rest.takeWhile fun c => c != ']' && c != '\x7b'
  match rest.drop name.length with
  | ']' :: after => (rankAfter? after).map fun rank => ⟨place, some name, none, rank⟩
  | _ :: inner =>
    let field := inner.takeWhile (· != '\x7d')
    match inner.drop field.length with
    | _ :: ']' :: after => do
      if field.isEmpty then
        none
      else
        let c ← Condition.read? field
        let rank ← rankAfter? after
        some ⟨place, if name.isEmpty then none else some name, some c, rank⟩
    | _ => none
  | [] => none

/-- The directive that a text stands for. After white space a directive can only name a place,
and none that there is. -/
def read? (text : Text) : Option Directive :=
  match text with
  | [] => none
  | '[' :: rest => spanned? [] rest
  | c :: _ =>
    if Text.isSpace c then
      if Text.isBlank text || text.contains '=' then none else some { place := text, rank := 5 }
    else if !startsPlace c then
      none
    else
      let name := text.takeWhile fun c => c != '=' && c != '['
      match text.drop name.length with
      | [] =>
        match rank? text with
        | some rank => some { rank := rank }
        | none => some { place := text, rank := 5 }
      | '[' :: rest => spanned? name rest
      | rest => (rankAfter? rest).map fun rank => { place := name, rank := rank }

/-- Whether a directive asks for a value in a field. -/
def asksValue (d : Directive) : Bool :=
  match d.condition with
  | some c => c.expected.isSome
  | none => false

/-- Whether a directive is about spans. -/
def isAboutSpans (d : Directive) : Bool := d.span.isSome || d.condition.isSome

/-- Whether a directive is about events, wherever they stand. -/
def isAboutEvents (d : Directive) : Bool := d.span.isNone && !d.asksValue

/-- Whether two directives are about the same, so that the later one replaces the earlier. -/
def isLike (a b : Directive) : Bool :=
  a.place == b.place && a.span == b.span && a.condition == b.condition

/-- Whether a directive about events is looked at before another one: the longer name of a place
comes first, then the one with a field, then the one whose field is later in order. -/
def precedes (a b : Directive) : Bool :=
  if a.place.length != b.place.length then
    b.place.length < a.place.length
  else
    match a.condition, b.condition with
    | some x, some y => y.field < x.field
    | some _, none => true
    | none, _ => false

end Directive

/-- Where all events come from. -/
def Event.place : Text := "mill_lang_typescript::orchestrator".toList

/-- The span that all events stand in. -/
def Occasion.span : Text := "refactoring".toList

/-- Where that span is opened. -/
def Occasion.place : Text := "mill_config::logging".toList

/-- How much that span matters. -/
def Occasion.level : Level := .info

namespace Directive

/-- Whether a directive about spans applies on an occasion. -/
def appliesOn (d : Directive) (o : Occasion) : Bool :=
  d.isAboutSpans && d.place.isPrefixOf Occasion.place &&
    (match d.span with
      | some name => name == Occasion.span
      | none => true) &&
    match d.condition with
    | some c => c.holds o
    | none => true

/-- Whether a directive about events applies to an event. -/
def appliesTo (d : Directive) (e : Event) : Bool :=
  d.isAboutEvents && d.place.isPrefixOf Event.place &&
    match d.condition with
    | some c => e.fields.any fun f => f.1.toList == c.field
    | none => true

end Directive

/-- Directives, in the order given. -/
abbrev Filter := List Directive

namespace Filter

/-- The directives of a text, or a single one with the given rank if it has none. -/
def read (text : Text) (rank : Nat) : Filter :=
  match ((Text.splitOnChar ',' text).filter fun part => !part.isEmpty).filterMap Directive.read? with
  | [] => [{ rank := rank }]
  | directives => directives

/-- The directives that no later one replaces. -/
def effective : Filter → Filter
  | [] => []
  | d :: rest => if rest.any d.isLike then effective rest else d :: effective rest

/-- Of the directives for an event, the first one in order decides. -/
def decisive (e : Event) (found : Option Directive) : Filter → Option Directive
  | [] => found
  | d :: rest =>
    if d.appliesTo e then
      match found with
      | some old => decisive e (if old.precedes d then some old else some d) rest
      | none => decisive e (some d) rest
    else
      decisive e found rest

/-- Whether the span of an occasion is opened at all: if values of fields matter always, and else
if some directive, even a replaced one, goes up to its level. -/
def opensSpan (f : Filter) : Bool :=
  f.any fun d => d.isAboutSpans && d.asksValue || Occasion.level.rank ≤ d.rank

/-- The highest rank that is told because of the occasion. -/
def occasionRank (f : Filter) (o : Occasion) : Nat :=
  if f.opensSpan then
    (f.effective.filter fun d => d.appliesOn o).foldl (fun n d => max n d.rank) 0
  else
    0

/-- Whether an event is told. -/
def tells (f : Filter) (o : Occasion) (e : Event) : Bool :=
  e.level.rank ≤ f.occasionRank o ||
    match decisive e none f.effective with
    | some d => e.level.rank ≤ d.rank
    | none => false

/-- The events that are told. -/
def select (f : Filter) (o : Occasion) (events : List Event) : List Event :=
  events.filter (f.tells o)

end Filter

end Retouch
