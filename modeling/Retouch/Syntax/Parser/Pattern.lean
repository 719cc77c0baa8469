import Retouch.Syntax.Parser.Name

/-!
# Binding patterns and parameters

- `bindingTarget`: a name, or a pattern in brackets or braces.
- `parameters`: the parameters of a function, up to the closing parenthesis.
-/

namespace Retouch.Syntax.Parser

/-- A type after a colon, if a colon stands here. -/
def typeAnnotation? (grammar : Grammar) : Parser (Option Node) := do
  if ← eat .colon then
    return some (← grammar .type)
  return none

/-- A pattern with its type, which becomes part of the pattern's range. -/
def annotate (pattern : Node) (type : Option Node) : Node :=
  match type with
  | none => pattern
  | some t =>
    let span : Span := ⟨pattern.span.start, t.span.stop⟩
    match pattern.form, pattern.parts with
    | .pattern (.ident name optional), _ => .mk (.pattern (.ident name optional)) span [t]
    | .pattern (.array optional), elements :: _ => .mk (.pattern (.array optional)) span [elements, t]
    | .pattern (.object optional), elements :: _ =>
      .mk (.pattern (.object optional)) span [elements, t]
    | .pattern .rest, target :: _ => .mk (.pattern .rest) span [target, t]
    | form, parts => .mk form span parts

/-- A pattern marked as optional. -/
def markOptional (pattern : Node) : Node :=
  match pattern.form with
  | .pattern (.ident name _) => .mk (.pattern (.ident name true)) pattern.span pattern.parts
  | .pattern (.array _) => .mk (.pattern (.array true)) pattern.span pattern.parts
  | .pattern (.object _) => .mk (.pattern (.object true)) pattern.span pattern.parts
  | _ => pattern

/-- A binding with an optional default value. -/
def bindingElement (grammar : Grammar) : Parser Node := do
  let offset ← start
  let target ← grammar .binding
  if ← eat .eq then
    let value ← within Context.withIn (grammar .assignment)
    if (← read).inDeclare then
      complain offset
        "A parameter initializer is only allowed in a function or constructor implementation"
    finish offset (.pattern .assign) [target, value]
  else
    return target

/-- Elements of an array pattern, up to the closing bracket. `rest` is the start of a rest element
that was read. -/
def arrayElements (grammar : Grammar) : Nat → Option Nat → List Node → Parser (List Node)
  | 0, _, _ => exhausted
  | fuel + 1, rest, done => do
    if ← at? .rbracket then
      return done.reverse
    if ← eat .comma then
      arrayElements grammar fuel rest (.absent :: done)
    else
      match rest with
      | some offset => complain offset "Rest element must be final element"
      | none => pure ()
      let offset ← start
      let isRest ← eat .ellipsis
      let element ← do
        if isRest then
          let target ← grammar .binding
          finish offset (.pattern .rest) [target, .absent]
        else
          bindingElement grammar
      if !(← at? .rbracket) then
        expect .comma
        if isRest && (← at? .rbracket) then
          complain (← get).previous.start "Trailing comma isn't permitted after a rest element"
      arrayElements grammar fuel (if isRest then some offset else rest) (element :: done)

/-- One property of an object pattern. -/
def patternProperty (grammar : Grammar) : Parser Node := do
  let offset ← start
  if ← eat .ellipsis then
    let target ← grammar .binding
    finish offset (.pattern .rest) [target, .absent]
  else
    let t ← token
    let key ← propertyKey grammar
    if ← eat .colon then
      let value ← bindingElement grammar
      finish offset (.pattern .keyValue) [key, value]
    else
      match key.form with
      | .name name =>
        if ← eat .eq then
          let value ← within Context.withIn (grammar .assignment)
          finish offset (.pattern (.shorthand name)) [value]
        else
          match keywordOf? t with
          | some k =>
            if k.isReservedInModule then
              complain t.start "Cannot use a reserved word as a shorthand property"
          | none => pure ()
          finish offset (.pattern (.shorthand name)) [.absent]
      | _ => failUnexpected "an identifier"

/-- Properties of an object pattern, up to and with the closing brace, and the comma after the last
one. -/
def patternProperties (grammar : Grammar) :
    Nat → Option Nat → List Node → Parser (List Node × Option Nat)
  | 0, _, _ => exhausted
  | fuel + 1, trailing, done => do
    if ← eat .rbrace then
      return (done.reverse, trailing)
    let property ← patternProperty grammar
    let trailing ← do
      if ← at? .rbrace then
        pure none
      else
        expect .comma
        if ← at? .rbrace then pure (some (← get).previous.start) else pure none
    patternProperties grammar fuel trailing (property :: done)

/-- Complain about rest elements of an object pattern that are not last, or bind no name. -/
def checkPatternRest (trailing : Option Nat) : List Node → Parser Unit
  | [] => pure ()
  | [.mk (.pattern .rest) span (target :: _)] => do
    match target.form with
    | .pattern (.ident _ _) =>
      match trailing with
      | some comma => complain comma "Trailing comma isn't permitted after a rest element"
      | none => pure ()
    | _ =>
      failAt span.start "`...` must be followed by an identifier in declaration contexts"
  | property :: rest => do
    match property.form, rest with
    | .pattern .rest, _ :: _ => complain property.span.start "Rest element must be final element"
    | _, _ => pure ()
    checkPatternRest trailing rest

/-- What a variable or parameter binds. -/
def bindingTarget (grammar : Grammar) (noLet : Bool) : Parser Node := do
  let t ← token
  match t.kind with
  | .word _ => bindingIdentifier noLet
  | .punct .lbracket =>
    advance
    let elements ← arrayElements grammar (← remaining) none []
    expect .rbracket
    let optional ← if (← read).inDeclare then eat .question else pure false
    finish t.start (.pattern (.array optional)) [.group elements, .absent]
  | .punct .lbrace =>
    advance
    let (properties, trailing) ← within Context.inParens
      (do patternProperties grammar (← remaining) none [])
    checkPatternRest trailing properties
    let optional ← if (← read).inDeclare then eat .question else pure false
    finish t.start (.pattern (.object optional)) [.group properties, .absent]
  | .bad e => throw e
  | _ => failUnexpected "yield, an identifier, [ or \x7b"

/-- Decorators, if the dialect has them. -/
def decoratorList (grammar : Grammar) : Nat → List Node → Parser (List Node)
  | 0, _ => exhausted
  | fuel + 1, done => do
    if (← read).dialect.decorators && (← at? .atSign) then
      let d ← grammar .decorator
      decoratorList grammar fuel (d :: done)
    else
      return done.reverse

/-- Decorators, if there are any. -/
def decorators (grammar : Grammar) : Parser (List Node) := do
  decoratorList grammar (← remaining) []

/-- Outside classes and functions `export` cannot follow the decorators of anything but a
declaration. -/
def denyExport : Parser Unit := do
  let c ← read
  if !c.inClass && !c.inFunction && (← atWord? .kwExport) then
    fail "`export` is not allowed here"

/-- A parameter after its decorators: what it binds, its type and its default value. -/
def parameterPattern (grammar : Grammar) : Parser Node := do
  let offset ← start
  let modified ← eatModifier
  let target ← bindingTarget grammar false
  let optional ← eat .question
  let target := if optional then markOptional target else target
  let target := annotate target (← typeAnnotation? grammar)
  let pattern ← do
    if ← eat .eq then
      if optional then
        complain target.span.start "Parameter cannot have question mark and initializer"
      let value ← within Context.withIn (grammar .assignment)
      if (← read).inDeclare then
        complain offset
          "A parameter initializer is only allowed in a function or constructor implementation"
      finish offset (.pattern .assign) [target, value]
    else
      pure target
  if modified then
    complain offset "A parameter property is only allowed in a constructor implementation"
  return pattern

/-- A parameter that takes all remaining arguments, after its decorators and its dots. -/
def restParameter (grammar : Grammar) (ofConstructor : Bool) (offset : Nat) : Parser Node := do
  let target ← bindingTarget grammar false
  if !ofConstructor && (← eat .eq) then
    discard (grammar .assignment)
    complain target.span.start "A rest parameter cannot have an initializer"
  let type ← typeAnnotation? grammar
  let rest ← finish offset (.pattern .rest) [target, .ofOption type]
  if !ofConstructor && (← eat .question) then
    complain (← get).previous.start "A rest parameter cannot be optional"
  return rest

/-- Modifiers of a constructor's parameter, in their order. -/
def propertyModifiers : Parser (List String) := do
  let access ← modifier? [.kwPublic, .kwProtected, .kwPrivate]
  let override ← modifier? [.kwOverride]
  let readonly ← modifier? [.kwReadonly]
  return ([access, override, readonly].filterMap id).map Keyword.text

/-- One parameter; in a constructor it may declare a property too. -/
def parameter (grammar : Grammar) (ofConstructor : Bool) : Parser Node := do
  let whole ← start
  let decorated ← decorators grammar
  if !decorated.isEmpty then
    denyExport
  let offset ← start
  if ← eat .ellipsis then
    let rest ← restParameter grammar ofConstructor offset
    finish whole (.parameter []) [.group decorated, rest]
  else
    let words ← if ofConstructor then propertyModifiers else pure []
    let pattern ← parameterPattern grammar
    if !words.isEmpty then
      match pattern.form with
      | .pattern (.ident _ _) | .pattern .assign => pure ()
      | _ =>
        failAt pattern.span.start
          "Typescript parameter property must be an identifier or assignment pattern"
    finish whole (.parameter words) [.group decorated, pattern]

/-- Whether a parameter takes all remaining arguments. -/
def isRestParameter (p : Node) : Bool :=
  match p.parts with
  | [_, .mk (.pattern .rest) _ _] => true
  | _ => false

/-- Parameters, up to the closing parenthesis. -/
def parameterList (grammar : Grammar) (ofConstructor : Bool) :
    Nat → Option Nat → List Node → Parser (List Node)
  | 0, _, _ => exhausted
  | fuel + 1, rest, done => do
    if ← at? .rparen then
      return done.reverse
    match rest with
    | some offset => complain offset "A rest parameter must be last in a parameter list"
    | none => pure ()
    let p ← parameter grammar ofConstructor
    let isRest := isRestParameter p
    if !(← at? .rparen) then
      expect .comma
      if isRest && (← at? .rparen) then
        complain (← get).previous.start "Trailing comma isn't permitted after a rest element"
    let rest := if isRest then p.parts[1]?.map fun pattern => pattern.span.start else rest
    parameterList grammar ofConstructor fuel rest (p :: done)

/-- The parameters of a function, in their parentheses. -/
def parameters (grammar : Grammar) (ofConstructor : Bool := false) : Parser (List Node) := do
  expect .lparen
  let ps ← within (fun c => { c with noConditionalType := false })
    (do parameterList grammar ofConstructor (← remaining) none [])
  expect .rparen
  return ps

/-- Parameters of a type that describes a function: they have no default values. -/
def signatureParameters (grammar : Grammar) : Parser (List Node) := do
  expect .lparen
  let ps ← within (fun c => { c with noConditionalType := false })
    (do parameterList grammar false (← remaining) none [])
  let defaulted (p : Node) : Bool := match p.parts with
    | [_, .mk (.pattern .assign) _ _] => true
    | _ => false
  if ps.any defaulted then
    failUnexpected
      "an identifier, [ for an array pattern, \x7b for an object patter or ... for a rest pattern"
  expect .rparen
  return ps

/-- Whether every parameter is a plain name. -/
def areSimple (ps : List Node) : Bool :=
  ps.all fun p => match p with
    | .mk (.parameter _) _ [_, .mk (.pattern (.ident _ _)) _ _] => true
    | .mk (.pattern (.ident _ _)) _ _ => true
    | _ => false

/-- Whether a parameter stands for the receiver of a call. -/
def isThisParameter (p : Node) : Bool :=
  match p with
  | .mk (.parameter _) _ [_, .mk (.pattern (.ident name _)) _ _] => name == "this"
  | _ => false

end Retouch.Syntax.Parser
