import Retouch.Syntax.Parser.Basic

/-!
# Names, keys and literals

- `identifier`: a name that refers to something or binds something; reserved words are refused.
- `anyName`: a name after a point, where every word may stand.
- `propertyKey`: the key of a property or member.
- `bindingIdentifier`: a name in a binding pattern.
- `modifier?`: a word that modifies the declaration after it.
-/

namespace Retouch.Syntax.Parser

/-- Every word, as a plain name node. -/
def anyName : Parser Node := do
  let t ← token
  match t.kind with
  | .word w =>
    advance
    return .mk (.name w.name) ⟨t.start, t.stop⟩ []
  | _ => fail "Expected ident"

/-- Refuse words that are reserved in strict code, but go on. -/
def noteStrictWord (w : Word) (offset : Nat) : Parser Unit := do
  match w.keyword with
  | some k =>
    if k.isReservedInStrict then
      complain offset ("`" ++ w.name ++ "` cannot be used as an identifier in strict mode")
  | none => pure ()

/-- The word of an identifier and its byte range. -/
def identifierWord : Parser (String × Span) := do
  let t ← token
  match t.kind with
  | .word w =>
    let span : Span := ⟨t.start, t.stop⟩
    match w.keyword with
    | none =>
      if (← read).inClassField && w.name == "arguments" then
        complain t.start "'arguments' is only allowed in functions and class methods"
      advance
      return (w.name, span)
    | some .kwThis =>
      advance
      return (w.name, span)
    | some .kwAwait =>
      if (← read).inDeclare then
        advance
        return (w.name, span)
      else if (← read).inStaticBlock then
        fail "Expected ident"
      else
        fail "`await` cannot be used as an identifier in an async context"
    | some .kwEnum =>
      complain t.start ("`" ++ w.name ++ "` cannot be used as an identifier in strict mode")
      advance
      return (w.name, span)
    | some k =>
      if k.isReserved then
        fail "Expected ident"
      else
        noteStrictWord w t.start
        advance
        return (w.name, span)
  | _ => fail "Expected ident"

/-- A name that is no expression. -/
def identifier : Parser Node := do
  let (name, span) ← identifierWord
  return .mk (.name name) span []

/-- A name as an expression. -/
def identifierExpr : Parser Node := do
  let (name, span) ← identifierWord
  return .mk (.expr (.ident name)) span []

/-- Names that strict code can neither bind nor assign to. -/
def isRestricted (name : String) : Bool :=
  name == "eval" || name == "arguments"

/-- Complain about a name that strict code cannot bind. -/
def noteRestricted (name : String) (offset : Nat) : Parser Unit := do
  if isRestricted name then
    complain offset "'eval' and 'arguments' cannot be used as a binding identifier in strict mode"

/-- A word that binds something, and its byte range. -/
def bindingWord (noLet : Bool) : Parser (String × Span) := do
  if noLet && (← atWord? .kwLet) then
    failUnexpected "let is reserved in const, let, class declaration"
  let (name, span) ← identifierWord
  noteRestricted name span.start
  if (← read).inGenerator && name == "yield" then
    complain span.start "Expected ident"
  return (name, span)

/-- A name in a binding pattern, without its type. -/
def bindingIdentifier (noLet : Bool) : Parser Node := do
  let (name, span) ← bindingWord noLet
  return .mk (.pattern (.ident name false)) span [.absent]

/-- The name that a function or class declares. -/
def declaredName (noLet : Bool) : Parser Node := do
  let (name, span) ← bindingWord noLet
  return .mk (.name name) span []

/-- A literal that is one token. -/
def tokenLiteral? (t : Token) : Option ExprForm :=
  match t.kind with
  | .string v => some (.string v)
  | .number v => some (.number v)
  | .bigint v => some (.bigint v)
  | .word w =>
    match w.keyword with
    | some .kwNull => some .null
    | some .kwTrue => some (.boolean true)
    | some .kwFalse => some (.boolean false)
    | _ => none
  | _ => none

/-- A string literal that must stand here. -/
def stringLiteral : Parser Node := do
  let t ← token
  match t.kind with
  | .string v =>
    advance
    return .mk (.expr (.string v)) ⟨t.start, t.stop⟩ []
  | _ => failUnexpected "a string literal"

/-- Expressions separated by commas, after the first. -/
def computedRest (grammar : Grammar) : Nat → List Node → Parser (List Node)
  | 0, _ => exhausted
  | fuel + 1, done => do
    if ← eat .comma then
      let e ← within Context.withIn (grammar .assignment)
      computedRest grammar fuel (e :: done)
    else
      return done.reverse

/-- The expression of a computed key, which holds no commas. -/
def computedExpression (grammar : Grammar) : Parser Node := do
  let offset ← start
  let first ← within Context.withIn (grammar .assignment)
  if ← at? .comma then
    let all ← computedRest grammar (← remaining) [first]
    complain offset "A comma expression is not allowed in a computed property name"
    finish offset (.expr .sequence) all
  else
    return first

/-- A key: a word, a literal, or an expression in brackets. -/
def propertyKey (grammar : Grammar) : Parser Node := do
  let t ← token
  match t.kind with
  | .word w =>
    advance
    return .mk (.name w.name) ⟨t.start, t.stop⟩ []
  | .string v =>
    advance
    return .mk (.expr (.string v)) ⟨t.start, t.stop⟩ []
  | .number v =>
    advance
    return .mk (.expr (.number v)) ⟨t.start, t.stop⟩ []
  | .bigint v =>
    advance
    return .mk (.expr (.bigint v)) ⟨t.start, t.stop⟩ []
  | .punct .lbracket =>
    advance
    let key ← computedExpression grammar
    expect .rbracket
    finish t.start .computed [key]
  | _ => failUnexpected "identifier, string literal, numeric literal or [ for the computed key"

/-- A private name. -/
def privateName : Parser Node := do
  let offset ← start
  expect .hash
  let t ← token
  if t.start != offset + 1 then
    failAt offset "Unexpected space between # and identifier"
  match t.kind with
  | .word w =>
    advance
    return .mk (.privateName w.name) ⟨offset, t.stop⟩ []
  | _ => fail "Expected ident"

/-- The key of a class member. -/
def memberKey (grammar : Grammar) : Parser Node := do
  if ← at? .hash then
    let name ← privateName
    match name.form with
    | .privateName "constructor" =>
      complain name.span.start "Classes can't have a private field named '#constructor'."
    | _ => pure ()
    return name
  else
    propertyKey grammar

/-! ## Modifiers -/

/-- Whether a token can go on after a modifier. Of these only a bracket must stand on the same
line. -/
def followsModifier (t : Token) : Bool :=
  match t.kind with
  | .word _ | .string _ | .number _ | .bigint _ => true
  | .punct .lbracket => !t.afterBreak
  | .punct .lbrace | .punct .star | .punct .ellipsis | .punct .hash => true
  | _ => false

/-- Read one of the given words where it is a modifier. With `stopAtBlock`, `static` before a brace
is none. Some token must be there. -/
def modifier? (allowed : List Keyword) (stopAtBlock : Bool := false) :
    Parser (Option Keyword) := do
  let t ← token
  match t.kind with
  | .eof => fail "Unexpected eof"
  | .bad e => throw e
  | _ => pure ()
  match ← keyword? with
  | none => return none
  | some k =>
    if allowed.contains k then
      let next ← peek
      if stopAtBlock && k == .kwStatic && next.kind == .punct .lbrace then
        return none
      if followsModifier next then
        advance
        return some k
    return none

/-- Words that modify a parameter or a property. -/
def plainModifiers : List Keyword := [.kwPublic, .kwProtected, .kwPrivate, .kwReadonly]

/-- Read a modifier before a name or a pattern; whether there was one. -/
def eatModifier : Parser Bool := do
  match ← keyword? with
  | none => return false
  | some k =>
    let goesOn := match (← peek).kind with
      | .word _ | .punct .lbracket | .punct .lbrace => true
      | _ => false
    if plainModifiers.contains k && goesOn then
      discard (modifier? plainModifiers)
      return true
    return false

/-- Whether a token can be a name that refers to something. -/
def isReference (c : Context) (t : Token) : Bool :=
  match t.kind with
  | .word w =>
    match w.keyword with
    | none => true
    | some .kwAwait => false
    | some .kwYield => !c.inGenerator
    | some k => !k.isReserved
  | _ => false

/-- The name after a point. -/
def memberName : Parser Node := do
  if ← at? .hash then privateName else anyName

end Retouch.Syntax.Parser
