import Retouch.Syntax.Node
import Retouch.Syntax.Scan.Token

/-!
# Reading tokens

A parser reads tokens from a cursor under a context. It ends with a value or with a complaint
that cannot be passed over; either way the cursor shows how far it came. Complaints that can be
passed over are collected in the cursor.

- `Context`: what surrounds the construct that is read.
- `Cursor`: the current token, its neighbourhood, and the complaints so far.
- `Parser`: the monad; `Parser.attempt` goes back to the start on failure.
- `advance`, `at?`, `eat`, `expect`: one token at a time.
-/

namespace Retouch.Syntax

/-- Which extensions of the language a document uses. -/
structure Dialect where
  tsx : Bool := false
  decorators : Bool := true
deriving DecidableEq, Repr

/-- What surrounds the construct that is read. -/
structure Context where
  dialect : Dialect
  /-- the word `in` is no operator here -/
  noIn : Bool := false
  inFunction : Bool := false
  inPlainFunction : Bool := false
  inAsync : Bool := false
  inGenerator : Bool := false
  inParameters : Bool := false
  inClass : Bool := false
  inStaticBlock : Bool := false
  /-- in the initial value of a property or in a static block -/
  inClassField : Bool := false
  /-- in a class that extends another one -/
  hasParent : Bool := false
  inDeclare : Bool := false
  /-- in the first part of a loop's head -/
  inLoopHead : Bool := false
  /-- in the first part of the head of a loop that awaits -/
  inAwaitingHead : Bool := false
  /-- inside a branch of a conditional expression -/
  inConditional : Bool := false
  /-- a colon of a conditional expression is still to come -/
  awaitsColon : Bool := false
  /-- a conditional type cannot stand here unless in parentheses -/
  noConditionalType : Bool := false
  breakAllowed : Bool := false
  continueAllowed : Bool := false
  /-- complaints that can be passed over are not collected -/
  muted : Bool := false
  labels : List String := []

/-- A place between tokens. -/
structure Cursor where
  token : Token
  /-- where the current token starts -/
  here : Place
  /-- where the current token ends -/
  after : Place
  /-- range of the token before -/
  previous : Span
  /-- an arrow function may start at this offset -/
  arrowStart : Option Nat
  /-- literals with a comma after their last element: where they start, and where the comma is -/
  trailingCommas : List (Nat × Nat)
  /-- complaints so far, the last one first -/
  notes : List SyntaxError

/-- A reader of tokens. -/
abbrev Parser := ReaderT Context (ExceptT SyntaxError (StateM Cursor))

/-- Inside brackets the word `in` is an operator again. -/
def Context.withIn (c : Context) : Context :=
  { c with noIn := false }

/-- Inside parentheses and braces no colon is owed to a conditional expression around them. -/
def Context.inParens (c : Context) : Context :=
  { c with noIn := false, awaitsColon := false }

/-- The context of a function's body. -/
def Context.inBody (isAsync isGenerator isArrow : Bool) (c : Context) : Context :=
  { c with
    inFunction := true
    inPlainFunction := c.inPlainFunction || !isArrow
    inAsync := isAsync
    inGenerator := isGenerator
    inStaticBlock := false
    breakAllowed := false
    continueAllowed := false
    labels := [] }

namespace Parser

/-- Collect a complaint, unless complaints are muted. -/
def note (e : SyntaxError) : Parser Unit := do
  if !(← read).muted then
    modify fun c => { c with notes := e :: c.notes }

/-- Collect a complaint about a byte offset. -/
def complain (offset : Nat) (message : String) : Parser Unit :=
  note ⟨offset, message⟩

/-- The current token. -/
def token : Parser Token := do
  return (← get).token

/-- Start of the current token; at the end of the text, the end of the last token. -/
def tokenOffset : Parser Nat := do
  let c ← get
  match c.token.kind with
  | .eof => return c.previous.stop
  | _ => return c.token.start

/-- Give up with a complaint about a byte offset. -/
def failAt {α : Type} (offset : Nat) (message : String) : Parser α := do
  match (← get).token.kind with
  | .bad e => note e
  | _ => pure ()
  throw ⟨offset, message⟩

/-- Give up with a complaint about the current token. -/
def fail {α : Type} (message : String) : Parser α := do
  failAt (← tokenOffset) message

/-- A string's value in quotes, with line breaks and quotes escaped. -/
def quotedValue (value : CodePoints) : String :=
  let escape (n : Nat) : String :=
    if n == 34 then "\\\""
    else if n == 92 then "\\\\"
    else if n == 10 then "\\n"
    else if n == 13 then "\\r"
    else if n == 9 then "\\t"
    else String.singleton (Char.ofNat n)
  "\"" ++ String.join (value.map escape) ++ "\""

/-- The current token as written. -/
def tokenText : Parser String := do
  let c ← get
  let rec take (left : Nat) : Text → Text
    | [] => []
    | ch :: rest => if left < ch.utf8Size then [] else ch :: take (left - ch.utf8Size) rest
  return String.ofList (take (c.token.stop - c.token.start) c.here.rest)

/-- How the current token is named in a complaint. -/
def describe : Parser String := do
  let raw ← tokenText
  match (← token).kind with
  | .eof => return "<eof>"
  | .punct p => return p.text
  | .word w => return w.name
  | .number v => return "numeric literal (" ++ v.text ++ ", " ++ raw ++ ")"
  | .bigint v => return "bigint literal (" ++ toString v ++ ", " ++ raw ++ ")"
  | .string v => return "string literal (" ++ quotedValue v ++ ", " ++ raw ++ ")"
  | .bad _ => return "<lexing error>"

/-- Give up because another token should stand here. -/
def failExpected {α : Type} (expected : String) : Parser α := do
  fail ("Expected '" ++ expected ++ "', got '" ++ (← describe) ++ "'")

/-- Give up because the current token cannot stand here. -/
def failUnexpected {α : Type} (expected : String) : Parser α := do
  fail ("Unexpected token `" ++ (← describe) ++ "`. Expected " ++ expected)

/-- The cursor after reading a token at a place. The first token of a text is read before the text
is known to be strict code. -/
def load (place : Place) (strict : Bool := true) : Parser Unit := do
  let scanned := scanToken place strict
  for e in scanned.notes do
    note e
  modify fun c =>
    { c with
      token := scanned.token
      here := scanned.here
      after := scanned.after
      previous := ⟨c.token.start, c.token.stop⟩ }

/-- Go on to the next token. -/
def advance : Parser Unit := do
  load (← get).after

/-- Take only the first part of the current punctuator and go on after it. -/
def advancePart (length : Nat) : Parser Unit := do
  let c ← get
  set { c with token := { c.token with stop := c.token.start + length } }
  load ⟨c.here.rest.drop length, c.here.offset + length⟩

/-- Go on at a place that was found by reading the current token in another way. -/
def resume (place : Place) : Parser Unit := do
  modify fun c => { c with token := { c.token with stop := place.offset } }
  load place

/-- Whether the current token is a punctuator. -/
def at? (p : Punct) : Parser Bool := do
  return (← get).token.kind == .punct p

/-- The keyword that a token is. -/
def keywordOf? (t : Token) : Option Keyword :=
  match t.kind with
  | .word w => w.keyword
  | _ => none

/-- The keyword that the current token is. -/
def keyword? : Parser (Option Keyword) := do
  return keywordOf? (← get).token

/-- Whether the current token is a keyword. -/
def atWord? (k : Keyword) : Parser Bool := do
  return (← keyword?) == some k

/-- Whether the current token is a name or keyword. -/
def atAnyWord? : Parser Bool := do
  match (← get).token.kind with
  | .word _ => return true
  | _ => return false

/-- Whether the text ends here. -/
def atEnd? : Parser Bool := do
  return (← get).token.kind == .eof

/-- Whether a line break stands before the current token. -/
def afterBreak? : Parser Bool := do
  return (← get).token.afterBreak

/-- The token after the current one. -/
def peek : Parser Token := do
  return (scanToken (← get).after).token

/-- Whether the next token is a punctuator. -/
def peekIs? (p : Punct) : Parser Bool := do
  return (← peek).kind == .punct p

/-- Whether the next token is a keyword. -/
def peekIsWord? (k : Keyword) : Parser Bool := do
  return keywordOf? (← peek) == some k

/-- Whether a token is a name or keyword. -/
def isWord (t : Token) : Bool :=
  match t.kind with
  | .word _ => true
  | _ => false

/-- Read a punctuator if it stands here. -/
def eat (p : Punct) : Parser Bool := do
  if ← at? p then
    advance
    return true
  return false

/-- Read a keyword if it stands here. -/
def eatWord (k : Keyword) : Parser Bool := do
  if ← atWord? k then
    advance
    return true
  return false

/-- Read a punctuator that must stand here. -/
def expect (p : Punct) : Parser Unit := do
  if !(← eat p) then
    failExpected p.text

/-- Read a keyword that must stand here. -/
def expectWord (k : Keyword) : Parser Unit := do
  if !(← eatWord k) then
    failExpected k.text

/-- Whether a statement may end here: at a semicolon, before a brace or the end of the text, or
after a line break. -/
def atSemicolon? : Parser Bool := do
  let c ← get
  match c.token.kind with
  | .punct .semi | .punct .rbrace | .eof => return true
  | _ => return c.token.afterBreak

/-- End a statement if it may end here. -/
def eatSemicolon : Parser Bool := do
  if ← eat .semi then
    return true
  atSemicolon?

/-- End a statement. -/
def expectSemicolon : Parser Unit := do
  if !(← eatSemicolon) then
    failExpected ";"

/-- Start of the current token. -/
def start : Parser Nat := do
  return (← get).token.start

/-- The byte range from an offset to the end of the last token read. -/
def spanFrom (offset : Nat) : Parser Span := do
  return ⟨offset, (← get).previous.stop⟩

/-- A node from an offset to the end of the last token read. -/
def finish (offset : Nat) (form : Form) (parts : List Node) : Parser Node := do
  return .mk form (← spanFrom offset) parts

/-- Read under a changed context. -/
def within {α : Type} (change : Context → Context) (p : Parser α) : Parser α :=
  fun context => p (change context)

/-- Read without complaints that can be passed over; on failure, or without a value, go back. -/
def attempt {α : Type} (p : Parser (Option α)) : Parser (Option α) := do
  let saved ← get
  try
    match ← within (fun c => { c with muted := true }) p with
    | some a => return some a
    | none =>
      set saved
      return none
  catch _ =>
    set saved
    return none

/-- Read ahead and go back in any case. -/
def lookAhead {α : Type} (p : Parser α) : Parser (Option α) := do
  let saved ← get
  try
    let a ← within (fun c => { c with muted := true }) p
    set saved
    return some a
  catch _ =>
    set saved
    return none

/-- Number of characters still to be read, as a bound for loops. -/
def remaining : Parser Nat := do
  return (← get).here.rest.length + 2

/-- The complaint of a loop that outruns its bound. -/
def exhausted {α : Type} : Parser α :=
  fail "Input too deeply nested"

end Parser

/-- The constructs through which the grammar refers back to itself. -/
inductive Goal where
  | expression
  | assignment
  | binary
  | binaryAfter (left : Node)
  | unary
  | leftHand
  | newOrMember
  | statement (withDeclarations : Bool)
  | moduleItem
  | binding
  | type
  | decorator
  | heritage
  | jsx (nested : Bool)

/-- The grammar as seen from inside one of its own rules. -/
abbrev Grammar := Goal → Parser Node

end Retouch.Syntax
