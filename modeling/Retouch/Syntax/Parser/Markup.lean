import Retouch.Syntax.Parser.Primary

/-!
# Markup in expressions

Elements in angle brackets with text, nested elements and expressions in braces between their
tags. Inside a tag names may hold hyphens and strings have no escapes; between tags everything up
to the next angle bracket or brace is text.

- `element`: an element or fragment. It ends on the closing bracket of its last tag, which is
  not read over: after it either an expression goes on or the text of the element around it.
-/

namespace Retouch.Syntax.Parser

/-- The rest of a text, and its offset, from the first character that satisfies a test. -/
def skipUntil (test : Char → Bool) : Text → Nat → Place
  | [], n => ⟨[], n⟩
  | c :: rest, n => if test c then ⟨c :: rest, n⟩ else skipUntil test rest (n + c.utf8Size)

/-- Reduce the current sign to its first character. -/
def narrow (sign : Punct) : Parser Unit :=
  modify fun c =>
    { c with
      token := { c.token with kind := .punct sign, stop := c.here.offset + 1 }
      after := ⟨c.here.rest.drop 1, c.here.offset + 1⟩ }

/-- Go on at the angle bracket that opens a tag within an element. It stands alone, whatever
follows it. -/
def openTag (place : Place) : Parser Unit :=
  modify fun c =>
    { c with
      token := ⟨.punct .lt, place.offset, place.offset + 1, false⟩
      here := place
      after := ⟨place.rest.drop 1, place.offset + 1⟩
      previous := ⟨c.token.start, place.offset⟩ }

/-- The tag must end here. -/
def endTag : Parser Unit := do
  if ← atCloseAngle? then narrow .gt else failExpected ">"

/-- A name in a tag, which may go on with hyphens. -/
def tagWord : Parser Node := do
  let c ← get
  match c.token.kind with
  | .word w =>
    let more := match c.after.rest with
      | '-' :: _ =>
        skipUntil (fun ch => !(isNamePart ch || ch == '-')) c.after.rest c.after.offset
      | _ => c.after
    let added := c.after.rest.take (c.after.rest.length - more.rest.length)
    let offset := c.token.start
    resume more
    finish offset (.name (w.name ++ String.ofList added)) []
  | _ => failUnexpected "jsx identifier"

/-- A name in a tag, which may have another name after a colon. -/
def tagOrAttributeName : Parser Node := do
  let offset ← start
  let first ← tagWord
  if ← eat .colon then
    let second ← tagWord
    finish offset (.other ":") [first, second]
  else
    return first

/-- Names of a tag joined by points, after the first. -/
def tagNameRest (offset : Nat) : Nat → Node → Parser Node
  | 0, _ => exhausted
  | fuel + 1, left => do
    if ← eat .dot then
      let right ← tagWord
      tagNameRest offset fuel (← finish offset .qualified [left, right])
    else
      return left

/-- The name of an element. -/
def tagName : Parser Node := do
  let offset ← start
  let first ← tagOrAttributeName
  tagNameRest offset (← remaining) first

/-- How the name of an element reads. -/
def tagText : Node → String
  | .mk (.name n) _ _ => n
  | .mk .qualified _ [left, right] => tagText left ++ "." ++ tagText right
  | .mk (.other sep) _ [left, right] => tagText left ++ sep ++ tagText right
  | _ => ""

/-- The value of an attribute, after the equals sign, which is the current token. -/
def attributeValue (grammar : Grammar) : Parser Node := do
  let place := (skipTrivia (← get).after).place
  match place.rest with
  | quote :: rest =>
    if quote == '"' || quote == '\x27' then
      let close := skipUntil (· == quote) rest (place.offset + 1)
      let value := rest.take (rest.length - close.rest.length)
      if close.rest.isEmpty then
        failAt place.offset "Unterminated string constant"
      resume ⟨close.rest.drop 1, close.offset + 1⟩
      finish place.offset (.expr (.string (value.map Char.toNat))) []
    else
      advance
      let offset ← start
      if ← eat .lbrace then
        if ← eat .rbrace then
          failAt offset "JSX attributes must only be assigned a non-empty expression"
        let e ← within Context.withIn (grammar .expression)
        expect .rbrace
        finish offset (.other "container") [e]
      else if ← at? .lt then
        let e ← grammar (.jsx false)
        advance
        return e
      else
        fail "JSX value should be either an expression or a quoted JSX text"
  | [] =>
    advance
    fail "JSX value should be either an expression or a quoted JSX text"

/-- Attributes, up to the end of the tag. -/
def attributes (grammar : Grammar) : Nat → List Node → Parser (List Node)
  | 0, _ => exhausted
  | fuel + 1, done => do
    let offset ← start
    if (← at? .slash) || (← atCloseAngle?) then
      return done.reverse
    if ← eat .lbrace then
      expect .ellipsis
      let e ← within Context.withIn (grammar .assignment)
      expect .rbrace
      attributes grammar fuel ((← finish offset .spread [e]) :: done)
    else
      let name ← tagOrAttributeName
      let value ← if ← at? .eq then attributeValue grammar else pure .absent
      attributes grammar fuel ((← finish offset (.other "attribute") [name, value]) :: done)

/-- How the content of an element ends. -/
structure Closing where
  offset : Nat
  name : Node

/-- What stands between the tags of an element, from a place to the end of its closing tag. -/
def children (grammar : Grammar) : Nat → Place → List Node → Parser (List Node × Closing)
  | 0, _, _ => exhausted
  | fuel + 1, place, done => do
    let stop := skipUntil (fun c => c == '<' || c == '\x7b' || c == '>' || c == '\x7d')
      place.rest place.offset
    let text := place.rest.take (place.rest.length - stop.rest.length)
    let done := if text.isEmpty then done else
      .mk (.other ("text " ++ String.ofList text)) ⟨place.offset, stop.offset⟩ [] :: done
    match stop.rest with
    | [] =>
      resume stop
      failAt stop.offset "Expected '</', got '<eof>'"
    | '<' :: '/' :: _ =>
      openTag stop
      advance
      expect .slash
      let name ← if ← atCloseAngle? then pure .absent else tagName
      endTag
      return (done.reverse, ⟨stop.offset, name⟩)
    | '<' :: _ =>
      openTag stop
      let e ← grammar (.jsx true)
      children grammar fuel (← get).after (e :: done)
    | '\x7b' :: _ =>
      resume stop
      advance
      if ← at? .rbrace then
        children grammar fuel (← get).after (.mk (.other "container") ⟨stop.offset, stop.offset⟩ [] :: done)
      else
        let spread ← eat .ellipsis
        let e ← within Context.withIn (grammar .expression)
        if !(← at? .rbrace) then
          failExpected Punct.rbrace.text
        let tag := if spread then "spread" else "container"
        children grammar fuel (← get).after (.mk (.other tag) e.span [e] :: done)
    | '>' :: rest =>
      complain stop.offset "Unexpected token. Did you mean `\x7b'>'\x7d` or `&gt;`?"
      children grammar fuel ⟨rest, stop.offset + 1⟩ done
    | _ :: rest =>
      complain stop.offset "Unexpected token. Did you mean `\x7b'\x7d'\x7d` or `&rbrace;`?"
      children grammar fuel ⟨rest, stop.offset + 1⟩ done

/-- The range from an offset to the end of the current token. -/
def throughToken (offset : Nat) : Parser Span := do
  return ⟨offset, (← get).token.stop⟩

/-- The closing tag just read does not match its opening tag. By then the parser has gone on to
what follows the tag: the content of the element around it, or else an ordinary token. -/
def failClosing {α : Type} (nested : Bool) (closing : Closing) (name : String) : Parser α := do
  if nested then
    modify fun c => { c with token := { c.token with kind := .string [] } }
  else
    advance
  failAt closing.offset ("Expected corresponding JSX closing tag for <" ++ name ++ ">")

/-- An element or fragment, which may stand within another one. -/
def element (grammar : Grammar) (nested : Bool) : Parser Node := do
  let offset ← start
  expect .lt
  if ← atCloseAngle? then
    narrow .gt
    let (inner, closing) ← children grammar (← remaining) (← get).after []
    if closing.name.isPresent then
      failClosing nested closing ""
    return .mk (.expr .jsxFragment) (← throughToken offset) [.group inner]
  else
    let name ← tagName
    let arguments ← if ← at? .lt then some <$> typeArguments grammar else pure none
    let attributes ← attributes grammar (← remaining) []
    let opening := [name, .ofOption arguments, .group attributes]
    if ← eat .slash then
      endTag
      return .mk (.expr .jsxElement) (← throughToken offset) (opening ++ [.absent])
    else
      endTag
      let (inner, closing) ← children grammar (← remaining) (← get).after []
      if tagText name != tagText closing.name then
        failClosing nested closing (tagText name)
      return .mk (.expr .jsxElement) (← throughToken offset) (opening ++ [.group inner])

end Retouch.Syntax.Parser
