import Retouch.Syntax.Parser.Function
import Retouch.Syntax.Parser.Target

/-!
# Primary expressions

- `arrayLiteral`, `objectLiteral`, `template`, `regexLiteral`: literals with parts of their own.
- `arguments`: the arguments of a call.
- `parenOrArrow`: an expression in parentheses, or an arrow function; which of the two only shows
  after the closing parenthesis.
- `primary`: every expression that does not start with another expression.
-/

namespace Retouch.Syntax.Parser

/-- An expression, or one expanded into several. -/
def exprOrSpread (grammar : Grammar) : Parser Node := do
  let offset ← start
  if ← eat .ellipsis then
    let e ← within Context.withIn (grammar .assignment)
    finish offset .spread [e]
  else
    within Context.withIn (grammar .assignment)

/-- Arguments up to and with the closing parenthesis. -/
def argumentList (grammar : Grammar) : Nat → List Node → Parser (List Node)
  | 0, _ => exhausted
  | fuel + 1, done => do
    if ← eat .rparen then
      return done.reverse
    if !done.isEmpty then
      expect .comma
    if ← eat .rparen then
      return done.reverse
    let e ← exprOrSpread grammar
    argumentList grammar fuel (e :: done)

/-- The arguments of a call, in their parentheses. -/
def arguments (grammar : Grammar) : Parser Node := do
  expect .lparen
  if ← at? .comma then
    fail "Expression expected"
  return .group (← within Context.inParens (do argumentList grammar (← remaining) []))

/-- Remember the comma after the last element of a literal. -/
def rememberComma (literalStart : Nat) : Parser Unit :=
  modify fun c =>
    { c with trailingCommas := (literalStart, c.previous.start) :: c.trailingCommas }

/-- Elements up to the closing bracket. -/
def elementList (grammar : Grammar) (literalStart : Nat) : Nat → List Node → Parser (List Node)
  | 0, _ => exhausted
  | fuel + 1, done => do
    if ← at? .rbracket then
      return done.reverse
    if ← eat .comma then
      elementList grammar literalStart fuel (.absent :: done)
    else
      let e ← exprOrSpread grammar
      if !(← at? .rbracket) then
        expect .comma
        if ← at? .rbracket then
          rememberComma literalStart
      elementList grammar literalStart fuel (e :: done)

/-- An array literal. -/
def arrayLiteral (grammar : Grammar) : Parser Node := do
  let offset ← start
  expect .lbracket
  let elements ← elementList grammar offset (← remaining) []
  expect .rbracket
  finish offset (.expr .array) elements

/-- A getter, setter or asynchronous method after its leading word. -/
def accessorProperty (grammar : Grammar) (offset : Nat) (word : String) : Parser Node := do
  let isGenerator ← if word == "async" then eat .star else pure false
  let key ← propertyKey grammar
  if word == "async" then
    let function ← functionTail grammar offset [] true isGenerator
    return .mk (.property .method) function.span [key, function]
  else
    let isGet := word == "get"
    let function ← functionTail grammar offset [] false false
      (checkAccessor isGet key.span.start)
    match function.parts with
    | [_, _, ps, result, body] =>
      if isGet then
        finish offset (.property .getter) [key, result, body]
      else
        finish offset (.property .setter) [key, ps, body]
    | _ => fail "Expression expected"

/-- What can follow the name of a property. -/
def propertyContinuations : String :=
  "... , *,  (, [, :, , ?, =, an identifier, public, protected, private, readonly, <."

/-- A property after a name that is neither a key with a value nor a method. -/
def shorthandOrAccessor (grammar : Grammar) (offset : Nat) (modified : Option Span) (key : Node)
    (name : String) : Parser Node := do
  if ← eat .question then
    complain (← get).previous.start "An object member cannot be declared optional"
  if ← eat .eq then
    let value ← within Context.withIn (grammar .assignment)
    finish offset (.property .assign) [key, value]
  else if (← at? .comma) || (← at? .rbrace) then
    return .mk (.property (.shorthand name)) key.span []
  else if name == "get" || name == "set" || name == "async" then
    match modified with
    | some span => complain span.start "`async` modifier cannot be used here"
    | none => pure ()
    accessorProperty grammar offset name
  else
    failUnexpected propertyContinuations

/-- Whether a property can go on with a token after its key. -/
def continuesProperty (key : Node) (t : Token) : Bool :=
  match t.kind with
  | .word _ | .string _ | .number _ | .bigint _ => true
  | .punct .lparen | .punct .lbracket | .punct .colon | .punct .comma | .punct .question
  | .punct .eq | .punct .star | .punct .lt => true
  | .punct .rbrace =>
    match key.form with
    | .name _ => true
    | _ => false
  | _ => false

/-- One property of an object literal. -/
def objectProperty (grammar : Grammar) : Parser Node := do
  let offset ← start
  if ← at? .ellipsis then
    exprOrSpread grammar
  else if ← eat .star then
    let key ← propertyKey grammar
    let function ← functionTail grammar offset [] false true
    return .mk (.property .method) function.span [key, function]
  else
    let modified ← do
      if ← eatModifier then pure (some (← get).previous) else pure none
    let key ← propertyKey grammar
    let t ← token
    if !continuesProperty key t then
      let here ← tokenOffset
      complain here "Expected a semicolon"
      let missing : Node := .mk (.expr .invalid) ⟨here, here⟩ []
      return .mk (.property .keyValue) ⟨key.span.start, here⟩ [key, missing]
    else if ← eat .colon then
      let value ← within Context.withIn (grammar .assignment)
      return .mk (.property .keyValue) ⟨key.span.start, value.span.stop⟩ [key, value]
    else if (← at? .lparen) || (← at? .lt) then
      let function ← functionTail grammar offset [] false false
      return .mk (.property .method) function.span [key, function]
    else
      match key.form with
      | .name name => shorthandOrAccessor grammar offset modified key name
      | _ => failUnexpected "identifier"

/-- Properties up to and with the closing brace. -/
def objectProperties (grammar : Grammar) (literalStart : Nat) :
    Nat → List Node → Parser (List Node)
  | 0, _ => exhausted
  | fuel + 1, done => do
    if ← eat .rbrace then
      return done.reverse
    let p ← objectProperty grammar
    if !(← at? .rbrace) then
      expect .comma
      if ← at? .rbrace then
        rememberComma literalStart
    objectProperties grammar literalStart fuel (p :: done)

/-- An object literal. -/
def objectLiteral (grammar : Grammar) : Parser Node := do
  let offset ← start
  expect .lbrace
  let properties ← within (fun c => { c with awaitsColon := false })
    (do objectProperties grammar offset (← remaining) [])
  finish offset (.expr .object) properties

/-- Pieces and substitutions of a template; a piece starts at the given place. -/
def templateParts (grammar : Grammar) (tagged : Bool) (offset : Nat) :
    Nat → Place → List Node → Parser (List Node)
  | 0, _, _ => exhausted
  | fuel + 1, place, done => do
    let piece := scanQuasi place
    if !tagged then
      match quasiFault? piece.stop place.rest place.offset .plain with
      | some e => throw e
      | none => pure ()
    let node : Node := .mk (.quasi (String.ofList piece.raw)) ⟨place.offset, piece.stop⟩ []
    match piece.ending with
    | .missing => failAt offset "Unterminated template"
    | .template =>
      resume piece.place
      return (node :: done).reverse
    | .substitution =>
      resume piece.place
      let e ← within Context.withIn (grammar .expression)
      if !(← at? .rbrace) then
        failExpected Punct.rbrace.text
      templateParts grammar tagged offset fuel (← get).after (e :: node :: done)

/-- A template. -/
def template (grammar : Grammar) (tagged : Bool := false) : Parser Node := do
  let offset ← start
  let parts ← templateParts grammar tagged offset (← remaining) (← get).after []
  finish offset (.expr .template) parts

/-- Complain about flags that do not exist or stand twice. -/
def checkFlags (offset : Nat) : Text → Text → Parser Unit
  | _, [] => pure ()
  | seen, c :: rest => do
    if !("dgimsuvy".toList.contains c) then
      complain offset "Unknown regular expression flags."
    else if seen.contains c then
      complain offset ("Duplicated regular expression flag '" ++ String.singleton c ++ "'.")
    checkFlags offset (c :: seen) rest

/-- A regular expression, where a slash was read as a sign. -/
def regexLiteral : Parser Node := do
  let c ← get
  match scanRegex ⟨c.here.rest.drop 1, c.here.offset + 1⟩ with
  | none =>
    let e : SyntaxError := ⟨c.token.start, "Unterminated regexp literal"⟩
    set { c with token := { c.token with kind := .bad e } }
    throw e
  | some regex =>
    let offset := c.token.start
    resume regex.place
    checkFlags offset [] regex.flags
    finish offset (.expr (.regex (String.ofList regex.body) (String.ofList regex.flags))) []

/-! ## Arrow functions -/

/-- An arrow function after its arrow. -/
def arrowTail (grammar : Grammar) (offset : Nat) (isAsync : Bool) (generics : Option Node)
    (ps : List Node) (result : Option Node) : Parser Node := do
  let body ← within (Context.inBody isAsync false true) do
    if ← at? .lbrace then
      let body ← block grammar
      checkDirective (areSimple ps) body
      pure body
    else
      grammar .assignment
  finish offset (.expr (.arrow isAsync))
    [.ofOption generics, .group ps, .ofOption result, body]

/-- Whether an item in parentheses stands for all remaining arguments. -/
def isRestItem (item : Node) : Bool :=
  match item.form with
  | .spread | .pattern .rest => true
  | _ => false

/-- The parameters that items in parentheses stand for. -/
def asParameters (trailing : Option Nat) : List Node → Parser (List Node)
  | [] => return []
  | item :: rest => do
    if isRestItem item && !rest.isEmpty then
      complain item.span.start "A rest parameter must be last in a parameter list"
      asParameters trailing rest
    else
      let p ← match item with
        | .mk .spread span [inner] => do
          if isAssignment inner then
            complain span.start "A rest parameter cannot have an initializer"
          let target ← do
            noteComma trailing
            rereadPattern .binding inner
          pure (.mk (.pattern .rest) inner.span [target, .absent])
        | .mk (.pattern form) span parts => do
          if form == .rest then
            noteComma trailing
          pure (.mk (.pattern form) span parts)
        | e => rereadPattern .binding e
      return p :: (← asParameters trailing rest)
where
  /-- Complain about a comma after a rest parameter. -/
  noteComma (trailing : Option Nat) : Parser Unit := do
    match trailing with
    | some comma => complain comma "Trailing comma isn't permitted after a rest element"
    | none => pure ()

/-- The items in a pair of parentheses, and the comma after the last one. -/
structure ParenItems where
  items : List Node
  trailing : Option Nat

/-- The parameters that items in parentheses stand for, with complaints about their names. -/
def itemsAsParameters (found : ParenItems) : Parser (List Node) := do
  let ps ← asParameters found.trailing found.items
  noteRestrictedIn ps
  return ps

/-- A conditional expression after its test and question mark. -/
def conditionalTail (grammar : Grammar) (offset : Nat) (test : Node) : Parser Node := do
  let yes ← within
    (fun c => { c.withIn with inConditional := true, awaitsColon := true })
    (grammar .assignment)
  expect .colon
  let no ← within (fun c => { c with inConditional := true, awaitsColon := false })
    (grammar .assignment)
  return .mk (.expr .conditional) ⟨offset, no.span.stop⟩ [test, yes, no]

/-- An item that turns out to be a parameter, because a type or a question mark follows it. -/
def itemPattern (grammar : Grammar) (offset : Nat) (item : Node) (optional : Bool) :
    Parser Node := do
  let (isRest, inner) := match item with
    | .mk .spread _ [inner] => (true, inner)
    | e => (false, e)
  let pattern ← rereadPattern .binding inner
  let pattern := if optional then markOptional pattern else pattern
  let annotation ← typeAnnotation? grammar
  if annotation.isSome && pattern.form == .pattern .assign then
    complain offset "Type annotations must come before default assignments"
  let pattern := annotate pattern annotation
  let pattern ← do
    if isRest then finish offset (.pattern .rest) [pattern, .absent] else pure pattern
  if ← eat .eq then
    let value ← grammar .assignment
    finish offset (.pattern .assign) [pattern, value]
  else
    return pattern

/-- An item in parentheses before it is known whether it is a parameter. -/
def plainItem (grammar : Grammar) : Parser Node := do
  let offset ← start
  let context ← read
  let reference ← do
    if ← at? .ellipsis then
      pure (isReference context (← peek))
    else
      pure (isReference context (← token))
  if reference then
    if ← eat .ellipsis then
      let e ← grammar .binary
      finish offset .spread [e]
    else
      let e ← grammar .binary
      match e.form with
      | .expr (.arrow _) => return e
      | _ => finishAssignment grammar offset e
  else
    exprOrSpread grammar

/-- What an item in parentheses turns out to be: an expression, a spread, or a parameter with a
type. -/
def finishedItem (grammar : Grammar) (offset : Nat) (item : Node) : Parser Node := do
  let isSpread := item.form == .spread
  if ← at? .question then
    match (← peek).kind with
    | .punct .comma | .punct .eq | .punct .rparen | .punct .colon =>
      advance
      if isSpread then
        complain (← get).previous.start "A rest parameter cannot be optional"
      let inner := match item with
        | .mk .spread _ [inner] => inner
        | e => e
      match inner.form with
      | .expr (.ident _) => pure ()
      | _ =>
        failAt item.span.start
          "A binding pattern parameter cannot be optional in an implementation signature."
      itemPattern grammar offset item true
    | _ =>
      if isSpread then
        return item
      advance
      conditionalTail grammar offset item
  else if ← at? .colon then
    itemPattern grammar offset item false
  else
    return item

/-- One item in parentheses. -/
def parenItem (grammar : Grammar) : Parser Node := do
  let offset ← start
  modify fun c => { c with arrowStart := some offset }
  let modified ← eatModifier
  let itemStart ← start
  let item ← plainItem grammar
  let item ← finishedItem grammar itemStart item
  if modified then
    complain offset "A parameter property is only allowed in a constructor implementation"
  return item

/-- Whether an item is a plain name. -/
def isNameItem (item : Node) : Bool :=
  match item.form with
  | .expr (.ident _) | .pattern (.ident _ _) => true
  | _ => false

/-- Items up to and with the closing parenthesis. After the first one an arrow may stand: the item
is then the parameter of a function as well. -/
def parenItems (grammar : Grammar) (offset : Nat) :
    Nat → Option Nat → List Node → Parser ParenItems
  | 0, _, _ => exhausted
  | fuel + 1, trailing, done => do
    if ← eat .rparen then
      return ⟨done.reverse, trailing⟩
    let item ← parenItem grammar
    let more ← do
      if done.isEmpty && (← eat .arrow) && isNameItem item then
        let ps ← itemsAsParameters ⟨[item], none⟩
        let arrow ← arrowTail grammar offset false none ps none
        pure [arrow]
      else
        pure []
    let trailing ← do
      if ← at? .rparen then
        pure none
      else
        expect .comma
        if ← at? .rparen then pure (some (← get).previous.start) else pure none
    parenItems grammar offset fuel trailing (more ++ item :: done)

/-- Whether an item can only be a parameter. -/
def isParameterItem (item : Node) : Bool :=
  match item.form with
  | .pattern _ => true
  | _ => false

/-- An arrow function with a result type inside a branch of a conditional expression: it counts
only if the colon that the conditional expression needs is still there after it. -/
def arrowInConditional (grammar : Grammar) (offset : Nat) (isAsync : Bool) (found : ParenItems) :
    Parser (Option Node) := do
  let awaits := (← read).awaitsColon
  attempt do
    let result ← resultType grammar .colon
    expect .arrow
    let ps ← itemsAsParameters found
    let arrow ← arrowTail grammar offset isAsync none ps (some result)
    if awaits && !(← at? .colon) then
      return none
    return some arrow

/-- Binary operators, by punctuator. -/
def signOperator? : Punct → Option BinaryOp
  | .eqEq => some .eqEq
  | .bangEq => some .notEq
  | .eqEqEq => some .eqEqEq
  | .bangEqEq => some .notEqEq
  | .lt => some .lt
  | .ltEq => some .ltEq
  | .gt => some .gt
  | .gtEq => some .gtEq
  | .shl => some .shl
  | .shr => some .shr
  | .ushr => some .ushr
  | .plus => some .add
  | .minus => some .sub
  | .star => some .mul
  | .slash => some .div
  | .percent => some .mod
  | .bar => some .bitOr
  | .caret => some .bitXor
  | .amp => some .bitAnd
  | .barBar => some .or
  | .ampAmp => some .and
  | .power => some .power
  | .nullish => some .nullish
  | _ => none

/-- Whether the current token is a binary operator that is a sign. -/
def atSignOperator? : Parser Bool := do
  match (← token).kind with
  | .punct p => return (signOperator? p).isSome
  | _ => return false

/-- What the items in parentheses are when no arrow follows. -/
def parenExpression (offset : Nat) (asyncSpan : Option Span) (items : List Node) :
    Parser Node := do
  match asyncSpan with
  | some span =>
    let callee : Node := .mk (.expr (.ident "async")) span []
    finish offset (.expr .call) [callee, .absent, .group items]
  | none =>
    let spread := items.findSome? fun item => match item with
      | .mk .spread _ [inner] => some inner
      | _ => none
    match spread with
    | some inner =>
      failAt inner.span.start "Parenthesized expression cannot contain spread operator"
    | none =>
      match items with
      | [] => failAt offset "Parenthesized expression cannot be empty"
      | [item] => finish offset (.expr .paren) [item]
      | first :: rest =>
        let stop := match rest.getLast? with
          | some last => last.span.stop
          | none => first.span.stop
        let sequence : Node := .mk (.expr .sequence) ⟨first.span.start, stop⟩ items
        finish offset (.expr .paren) [sequence]

/-- Complain about the default values of an object literal that is no pattern. -/
def noteDefaults (item : Node) : Parser Unit := do
  match item with
  | .mk (.expr .object) _ properties =>
    for property in properties do
      match property with
      | .mk (.property .assign) span _ =>
        complain span.start "assignment property is invalid syntax"
      | _ => pure ()
  | .mk .spread _ [.mk (.expr .object) _ properties] =>
    for property in properties do
      match property with
      | .mk (.property .assign) span _ =>
        complain span.start "assignment property is invalid syntax"
      | _ => pure ()
  | _ => pure ()

/-- An arrow function with a block as its body takes no operator after it; one that stands there is
passed over. -/
def operatorAfterArrow (grammar : Grammar) (arrow : Node) : Parser Node := do
  match arrow.parts with
  | [_, _, _, .mk .block _ _] =>
    if ← atSignOperator? then
      complain (← tokenOffset) "Expected a semicolon"
      let whole ← grammar (.binaryAfter arrow)
      if !(← atSemicolon?) then
        complain (← tokenOffset) "Expected a semicolon"
      return whole
    else
      return arrow
  | _ => return arrow

/-- An expression in parentheses, or an arrow function. With `asyncSpan`, the word `async` has
been read before the parenthesis. -/
def parenOrArrow (grammar : Grammar) (canBeArrow : Bool) (asyncSpan : Option Span) :
    Parser Node := do
  let offset ← match asyncSpan with
    | some span => pure span.start
    | none => start
  expect .lparen
  let inside (c : Context) : Context :=
    { c.inParens with inAsync := c.inAsync || asyncSpan.isSome }
  let found ← within inside (do parenItems grammar offset (← remaining) none [])
  let context ← read
  let early ← do
    if context.inConditional && (← at? .colon) then
      arrowInConditional grammar offset asyncSpan.isSome found
    else
      pure none
  match early with
  | some arrow => return arrow
  | none =>
    let result ← do
      if (← at? .colon) && !context.awaitsColon then
        attempt do
          let type ← resultType grammar .colon
          if ← at? .arrow then return some type else return none
      else
        pure none
    if found.items.any isParameterItem || result.isSome || (← at? .arrow) then
      if ← afterBreak? then
        failAt offset "Unexpected line break between arrow head and arrow"
      if !canBeArrow then
        failAt offset "An arrow function is not allowed here"
      expect .arrow
      let ps ← itemsAsParameters found
      let arrow ← arrowTail grammar offset asyncSpan.isSome none ps result
      operatorAfterArrow grammar arrow
    else
      for item in found.items do
        noteDefaults item
      parenExpression offset asyncSpan found.items

/-- A generic asynchronous arrow function after the word `async`. -/
def genericAsyncArrow (grammar : Grammar) (offset : Nat) : Parser (Option Node) :=
  attempt do
    advance
    let generics ← typeParameters grammar .ofFunction
    let ps ← parameters grammar
    let ps := ps.filterMap fun p => p.parts[1]?
    let result ← resultType? grammar
    expect .arrow
    some <$> arrowTail grammar offset true (some generics) ps result

/-! ## Primary expressions -/

/-- A function expression after what stands before the word `function`. -/
def functionExpression (grammar : Grammar) (offset : Nat) (isAsync : Bool) : Parser Node := do
  expectWord .kwFunction
  let (name, function) ← namedFunction grammar offset isAsync true false
  finish offset (.expr .function) [name, function]

/-- A class expression. -/
def classExpression (grammar : Grammar) (offset : Nat) (decorated : List Node) : Parser Node := do
  expectWord .kwClass
  let (name, body) ← namedClass grammar offset decorated false false
  finish offset (.expr .classExpr) [name, body]

/-- A name, or an arrow function with one plain parameter. -/
def nameOrArrow (grammar : Grammar) (canBeArrow : Bool) : Parser Node := do
  let offset ← start
  let name ← identifierExpr
  let isAsync := match name.form with
    | .expr (.ident n) => n == "async"
    | _ => false
  if canBeArrow && isAsync && !(← afterBreak?) && isReference (← read) (← token) then
    let context ← read
    if context.inLoopHead && (← atWord? .kwOf) && !(← peekIs? .arrow) then
      if !context.inAwaitingHead then
        complain (← get).previous.start
          "The left-hand side of a `for...of` statement may not be `async`"
      return name
    let p ← bindingIdentifier false
    let isAs := match p.form with
      | .pattern (.ident n _) => n == "as"
      | _ => false
    if isAs && !(← at? .arrow) then
      let type ← unconditioned (grammar .type)
      finish offset (.expr .asType) [name, type]
    else
      expect .arrow
      arrowTail grammar offset true none [p] none
  else if canBeArrow && (← at? .arrow) && !(← afterBreak?) then
    match name with
    | .mk (.expr (.ident text)) span _ =>
      noteRestricted text offset
      advance
      arrowTail grammar offset false none [.mk (.pattern (.ident text false)) span [.absent]] none
    | _ => return name
  else
    return name

/-- An expression that starts with the word `async`. -/
def asyncExpression (grammar : Grammar) (canBeArrow : Bool) : Parser Node := do
  let t ← token
  let next ← peek
  if keywordOf? next == some .kwFunction && !next.afterBreak then
    advance
    functionExpression grammar t.start true
  else
    let generic ← do
      if canBeArrow && next.kind == .punct .lt then genericAsyncArrow grammar t.start
      else pure none
    match generic with
    | some arrow => return arrow
    | none =>
      if canBeArrow && next.kind == .punct .lparen && !next.afterBreak then
        advance
        parenOrArrow grammar canBeArrow (some ⟨t.start, t.stop⟩)
      else
        nameOrArrow grammar canBeArrow

/-- A private name where an expression stands. -/
def privateReference : Parser Node := do
  let offset ← start
  expect .hash
  let name ← anyName
  match name.form with
  | .name text => finish offset (.expr (.privateRef text)) []
  | _ => return name

/-- A name after decorators, which do not count for it. -/
def decoratedName : Parser Node := do
  let t ← token
  match t.kind with
  | .bad e =>
    advance
    throw e
  | .punct .hash => privateReference
  | _ => if isReference (← read) t then identifierExpr else fail "Expression expected"

/-- A primary expression. -/
def primary (grammar : Grammar) : Parser Node := do
  let t ← token
  let canBeArrow := (← get).arrowStart == some t.start
  let span : Span := ⟨t.start, t.stop⟩
  match t.kind with
  | .string _ | .number _ | .bigint _ =>
    match tokenLiteral? t with
    | some literal =>
      advance
      return .mk (.expr literal) span []
    | none => fail "Expression expected"
  | .punct .lbracket => arrayLiteral grammar
  | .punct .lbrace => objectLiteral grammar
  | .punct .lparen => parenOrArrow grammar canBeArrow none
  | .punct .slash | .punct .slashEq => regexLiteral
  | .punct .backquote => template grammar
  | .punct .atSign =>
    if (← read).dialect.decorators then
      let decorated ← decorators grammar
      denyExport
      if ← atWord? .kwClass then
        classExpression grammar t.start decorated
      else
        decoratedName
    else
      fail "Expression expected"
  | .punct .hash => privateReference
  | .word _ =>
    match keywordOf? t with
    | some .kwThis =>
      advance
      return .mk (.expr .this) span []
    | some .kwNull | some .kwTrue | some .kwFalse =>
      match tokenLiteral? t with
      | some literal =>
        advance
        return .mk (.expr literal) span []
      | none => fail "Expression expected"
    | some .kwFunction => functionExpression grammar t.start false
    | some .kwClass => classExpression grammar t.start []
    | some .kwAsync => asyncExpression grammar canBeArrow
    | some k =>
      if k.isReserved then
        fail "Expression expected"
      else
        nameOrArrow grammar canBeArrow
    | none => nameOrArrow grammar canBeArrow
  | .bad e =>
    advance
    throw e
  | _ => fail "Expression expected"

end Retouch.Syntax.Parser
