import Retouch.Syntax.Parser.Pattern

/-!
# Types

- `typeExpr`: a type; conditional types are the outermost level.
- `typeArguments`, `typeParameters`: lists in angle brackets.
- `typeElements`: the elements of an interface or a type literal.
- `resultType`: the type after a function's parameters, which may be a predicate.
-/

namespace Retouch.Syntax.Parser

/-- Read an opening angle bracket, which may be the first half of a longer sign. -/
def eatOpenAngle : Parser Bool := do
  match (← token).kind with
  | .punct .lt =>
    advance
    return true
  | .punct .shl =>
    advancePart 1
    return true
  | _ => return false

/-- Read a closing angle bracket, which may be the first part of a longer sign. -/
def expectCloseAngle : Parser Unit := do
  match (← token).kind with
  | .punct .gt => advance
  | .punct .shr | .punct .ushr | .punct .gtEq | .punct .shrEq | .punct .ushrEq => advancePart 1
  | _ => failExpected ">"

/-- Whether a closing angle bracket stands here. -/
def atCloseAngle? : Parser Bool := do
  match (← token).kind with
  | .punct .gt | .punct .shr | .punct .ushr | .punct .gtEq | .punct .shrEq | .punct .ushrEq =>
    return true
  | _ => return false

/-- Items separated by commas, up to a closing angle bracket. -/
def angleItems (item : Parser Node) : Nat → List Node → Parser (List Node)
  | 0, _ => exhausted
  | fuel + 1, done => do
    if ← atCloseAngle? then
      return done.reverse
    let x ← item
    if ← eat .comma then
      angleItems item fuel (x :: done)
    else if ← atCloseAngle? then
      return (x :: done).reverse
    else
      failExpected ","

/-- Read inside brackets, where every type may stand. -/
def unconditioned {α : Type} (p : Parser α) : Parser α :=
  within (fun c => { c with noConditionalType := false }) p

/-- Type arguments in angle brackets. -/
def typeArguments (grammar : Grammar) : Parser Node := do
  let offset ← start
  if !(← eatOpenAngle) then
    failExpected "<"
  let types ← unconditioned do angleItems (grammar .type) (← remaining) []
  expectCloseAngle
  if types.isEmpty then
    complain offset "Type argument list cannot be empty."
  finish offset .typeArgs types

/-- Type arguments, if an angle bracket stands here on the same line. -/
def typeArguments? (grammar : Grammar) : Parser (Option Node) := do
  let t ← token
  if !t.afterBreak && (t.kind == .punct .lt || t.kind == .punct .shl) then
    return some (← typeArguments grammar)
  return none

/-- Which modifiers the type parameters of a declaration may have. -/
structure TypeParameterRules where
  /-- `in` and `out` are allowed -/
  variance : Bool
  /-- `const` is allowed -/
  constant : Bool

/-- The type parameters of a class. -/
def TypeParameterRules.ofClass : TypeParameterRules := ⟨true, true⟩

/-- The type parameters of an interface or a type alias. -/
def TypeParameterRules.ofType : TypeParameterRules := ⟨true, false⟩

/-- The type parameters of a function, a method or a signature. -/
def TypeParameterRules.ofFunction : TypeParameterRules := ⟨false, true⟩

/-- What is wrong with a modifier after other ones, if anything. -/
def TypeParameterRules.fault? (rules : TypeParameterRules) (before : List Keyword)
    (word : Keyword) : Option String :=
  let quoted := "'" ++ word.text ++ "' modifier "
  match word with
  | .kwConst =>
    if rules.constant then none
    else some (quoted ++ "can only appear on a type parameter of a function, method or class")
  | .kwIn | .kwOut =>
    if !rules.variance then
      some (quoted ++ "can only appear on a type parameter of a class, interface or type alias")
    else if before.contains word then
      some (quoted ++ "already seen.")
    else if word == .kwIn && before.contains .kwOut then
      some "'in' modifier must precede 'out' modifier."
    else
      none
  | _ => some (quoted ++ "cannot appear on a type parameter")

/-- Words that modify a type parameter. -/
def typeParameterModifiers (rules : TypeParameterRules) :
    Nat → List Keyword → Parser (List Keyword)
  | 0, _ => exhausted
  | fuel + 1, done => do
    let word ← modifier? [.kwPublic, .kwPrivate, .kwProtected, .kwReadonly, .kwAbstract, .kwConst,
      .kwOverride, .kwIn, .kwOut]
    match word with
    | none => return done.reverse
    | some k =>
      match rules.fault? done k with
      | some message => complain (← get).previous.start message
      | none => pure ()
      typeParameterModifiers rules fuel (k :: done)

/-- One type parameter. -/
def typeParameter (grammar : Grammar) (rules : TypeParameterRules) : Parser Node := do
  let offset ← start
  let modifiers ← typeParameterModifiers rules (← remaining) []
  let name ← anyName
  let bound ← do
    if ← eatWord .kwExtends then some <$> grammar .type else pure none
  let default ← do
    if ← eat .eq then some <$> grammar .type else pure none
  match name.form with
  | .name n =>
    let shown := [Keyword.kwConst, .kwIn, .kwOut].filter modifiers.contains
    finish offset (.typeParam n (shown.map Keyword.text)) [.ofOption bound, .ofOption default]
  | _ => fail "Expected ident"

/-- Type parameters in angle brackets. -/
def typeParameters (grammar : Grammar) (rules : TypeParameterRules) : Parser Node := do
  let offset ← start
  if !(← eatOpenAngle) then
    failExpected "<"
  let items ← angleItems (typeParameter grammar rules) (← remaining) []
  expectCloseAngle
  finish offset .typeParams items

/-- Type parameters, if an angle bracket stands here. -/
def typeParameters? (grammar : Grammar) (rules : TypeParameterRules := .ofFunction) :
    Parser (Option Node) := do
  if ← at? .lt then some <$> typeParameters grammar rules else return none

/-- Names joined by points, after the first. -/
def qualifiedRest (offset : Nat) : Nat → Node → Parser Node
  | 0, _ => exhausted
  | fuel + 1, left => do
    if ← eat .dot then
      if ← atAnyWord? then
        let right ← anyName
        qualifiedRest offset fuel (← finish offset .qualified [left, right])
      else if ← at? .hash then
        fail "Expected ident"
      else
        complain (← tokenOffset) "Expected an identifier"
        return left
    else
      return left

/-- A name, or several joined by points. -/
def entityName : Parser Node := do
  let offset ← start
  let first ← anyName
  qualifiedRest offset (← remaining) first

/-- Whether a name and the word `is` stand here on one line. -/
def atPredicate? : Parser Bool := do
  let next ← peek
  return isReference (← read) (← token) && keywordOf? next == some .kwIs && !next.afterBreak

/-- Whether the word `asserts` stands here before a name on the same line. -/
def atAssertion? : Parser Bool := do
  let next ← peek
  return (← atWord? .kwAsserts) && isReference (← read) next && !next.afterBreak

/-- The type after a function's parameters: a type, or a predicate on a parameter. -/
def resultType (grammar : Grammar) (mark : Punct) : Parser Node := do
  expect mark
  let offset ← start
  let asserting ← atAssertion?
  if asserting then
    advance
  if ← atPredicate? then
    let subject ← anyName
    advance
    let type ← grammar .type
    finish offset (.type (.predicate asserting)) [subject, type]
  else if asserting then
    let subject ← anyName
    finish offset (.type (.predicate true)) [subject, .absent]
  else
    grammar .type

/-- The result type of a function, if a colon stands here. -/
def resultType? (grammar : Grammar) : Parser (Option Node) := do
  if ← at? .colon then some <$> resultType grammar .colon else return none

/-- End an element of an interface or a type literal. -/
def endElement : Parser Unit := do
  if !(← eat .comma) then
    expectSemicolon

/-- The key of an element. -/
def elementKey (grammar : Grammar) : Parser Node := do
  let t ← token
  match t.kind with
  | .punct .lbracket =>
    advance
    let key ← grammar .assignment
    expect .rbracket
    finish t.start .computed [key]
  | .string _ | .number _ => grammar .newOrMember
  | .punct .hash =>
    complain t.start "private names are not allowed in interface"
    privateName
  | _ => anyName

/-- Whether an index signature stands here: a bracket, a name, and a colon or a comma. -/
def atIndexSignature? : Parser Bool := do
  if !(← at? .lbracket) then
    return false
  let found ← lookAhead do
    advance
    if !isReference (← read) (← token) then
      return false
    advance
    return (← at? .colon) || (← at? .comma)
  return found == some true

/-- An index signature from its bracket to its end: parameter and type. -/
def indexSignature (grammar : Grammar) : Parser (List Node) := do
  expect .lbracket
  let name ← anyName
  if ← eat .comma then
    complain name.span.start "An index signature must have exactly one parameter"
  else
    expect .colon
  let pattern : Node := match name.form with
    | .name n => .mk (.pattern (.ident n false)) name.span [.absent]
    | _ => name
  let name := annotate pattern (some (← grammar .type))
  expect .rbracket
  let type ← typeAnnotation? grammar
  endElement
  return [name, .ofOption type]

/-- An accessor element. -/
def accessorElement (grammar : Grammar) : Parser Node := do
  let offset ← start
  let isGet ← eatWord .kwGet
  if !isGet then
    expectWord .kwSet
  let key ← elementKey grammar
  if isGet then
    expect .lparen
    expect .rparen
    let type ← typeAnnotation? grammar
    endElement
    finish offset (.element .getter) [key, .ofOption type]
  else
    let ps ← signatureParameters grammar
    if ps.isEmpty then
      fail "A `set` accessor must have exactly one parameter"
    endElement
    finish offset (.element .setter) [key, .group ps]

/-- A call or construct signature after its leading word. -/
def signatureElement (grammar : Grammar) (offset : Nat) (form : ElementForm) : Parser Node := do
  let generics ← typeParameters? grammar
  let ps ← signatureParameters grammar
  let type ← resultType? grammar
  endElement
  finish offset (.element form) [.ofOption generics, .group ps, .ofOption type]

/-- One element of an interface or a type literal. -/
def typeElement (grammar : Grammar) : Parser Node := do
  let offset ← start
  if (← at? .lparen) || (← at? .lt) then
    signatureElement grammar offset .call
  else if (← atWord? .kwNew) && ((← peekIs? .lparen) || (← peekIs? .lt)) then
    advance
    signatureElement grammar offset .construct
  else
    let isReadonly := (← modifier? [.kwReadonly]).isSome
    if ← atIndexSignature? then
      let parts ← indexSignature grammar
      finish offset (.element (.index isReadonly)) parts
    else
      let accessor ← attempt do
        if isReadonly then
          return none
        if (← atWord? .kwGet) || (← atWord? .kwSet) then
          return some (← accessorElement grammar)
        return none
      match accessor with
      | some a => return a
      | none =>
        let key ← elementKey grammar
        let optional ← eat .question
        if (← at? .lparen) || (← at? .lt) then
          if isReadonly then
            fail "A method cannot be readonly"
          let generics ← typeParameters? grammar
          let ps ← signatureParameters grammar
          let type ← resultType? grammar
          endElement
          finish offset (.element (.method optional))
            [key, .ofOption generics, .group ps, .ofOption type]
        else
          let type ← typeAnnotation? grammar
          endElement
          finish offset (.element (.property isReadonly optional)) [key, .ofOption type]

/-- Elements up to the closing brace. -/
def typeElementList (grammar : Grammar) : Nat → List Node → Parser (List Node)
  | 0, _ => exhausted
  | fuel + 1, done => do
    if ← at? .rbrace then
      return done.reverse
    let e ← typeElement grammar
    typeElementList grammar fuel (e :: done)

/-- The elements of an interface or a type literal, in their braces. -/
def typeElements (grammar : Grammar) : Parser (List Node) := do
  expect .lbrace
  let es ← unconditioned do typeElementList grammar (← remaining) []
  expect .rbrace
  return es

/-- Whether a mapped type stands here. -/
def atMappedType? : Parser Bool := do
  let found ← lookAhead do
    expect .lbrace
    if (← eat .plus) || (← eat .minus) then
      return ← atWord? .kwReadonly
    discard (eatWord .kwReadonly)
    if !(← eat .lbracket) then
      return false
    if !isReference (← read) (← token) then
      return false
    advance
    atWord? .kwIn
  return found == some true

/-- The modifier of a mapped type: nothing, the plain mark, or the mark with a sign. -/
def mappedSign (eatMark : Parser Bool) (expectMark : Parser Unit) : Parser String := do
  if ← eat .plus then
    expectMark
    return "+"
  else if ← eat .minus then
    expectMark
    return "-"
  else if ← eatMark then
    return "yes"
  else
    return ""

/-- A mapped type. -/
def mappedType (grammar : Grammar) : Parser Node := do
  let offset ← start
  expect .lbrace
  let readonlySign ← mappedSign (eatWord .kwReadonly) (expectWord .kwReadonly)
  expect .lbracket
  let name ← anyName
  expectWord .kwIn
  let constraint ← unconditioned (grammar .type)
  let renamed ← do
    if ← eatWord .kwAs then some <$> unconditioned (grammar .type) else pure none
  expect .rbracket
  let optionalSign ← mappedSign (eat .question) (expect .question)
  let type ← unconditioned (typeAnnotation? grammar)
  expectSemicolon
  expect .rbrace
  finish offset (.type (.mapped readonlySign optionalSign))
    [name, constraint, .ofOption renamed, .ofOption type]

/-- The label of a tuple element up to its colon: its name, and its marks before and after. -/
def tupleLabel? : Parser (Option (List Node)) :=
  attempt do
    let mark (text : String) (present : Bool) : Parser Node := do
      if present then return .mk (.other text) (← get).previous [] else return .absent
    let rest ← mark "..." (← eat .ellipsis)
    let name ← anyName
    let optional ← mark "?" (← eat .question)
    expect .colon
    return some [rest, name, optional]

/-- One element of a tuple. -/
def tupleElement (grammar : Grammar) : Parser Node := do
  let offset ← start
  let label := (← tupleLabel?).getD [.absent, .absent, .absent]
  let inner ← do
    if ← eat .ellipsis then
      let type ← grammar .type
      finish offset (.type .rest) [type]
    else
      let type ← grammar .type
      if ← eat .question then
        finish type.span.start (.type .optional) [type]
      else
        pure type
  finish offset (.type .tupleElement) (label ++ [inner])

/-- Whether an element that must be given stands after one that need not. -/
def requiredAfterOptional : Bool → List Node → Bool
  | _, [] => false
  | seen, .mk _ _ parts :: rest =>
    match parts.getLast?.map Node.form with
    | some (.type .rest) => requiredAfterOptional seen rest
    | some (.type .optional) => requiredAfterOptional true rest
    | _ => seen || requiredAfterOptional seen rest

/-- Elements of a tuple, up to the closing bracket. -/
def tupleElements (grammar : Grammar) : Nat → List Node → Parser (List Node)
  | 0, _ => exhausted
  | fuel + 1, done => do
    if ← at? .rbracket then
      return done.reverse
    let e ← tupleElement grammar
    if ← eat .comma then
      tupleElements grammar fuel (e :: done)
    else if ← at? .rbracket then
      return (e :: done).reverse
    else
      failExpected ","

/-- Pieces and types of a template type; a piece starts at the given place. -/
def templateTypes (grammar : Grammar) (offset : Nat) :
    Nat → Place → List Node → Parser (List Node)
  | 0, _, _ => exhausted
  | fuel + 1, place, done => do
    let piece := scanQuasi place
    match quasiFault? piece.stop place.rest place.offset .plain with
    | some e => throw e
    | none => pure ()
    let node : Node := .mk (.quasi (String.ofList piece.raw)) ⟨place.offset, piece.stop⟩ []
    resume piece.place
    match piece.ending with
    | .missing => failAt offset "Unterminated template"
    | .template => return (node :: done).reverse
    | .substitution =>
      let t ← unconditioned (grammar .type)
      if !(← at? .rbrace) then
        failExpected Punct.rbrace.text
      templateTypes grammar offset fuel (← get).after (t :: node :: done)

/-- The built-in type that a keyword names. -/
def typeWord? : Keyword → Option TypeWord
  | .kwAny => some .any
  | .kwUnknown => some .unknown
  | .kwNumber => some .number
  | .kwObject => some .object
  | .kwBoolean => some .boolean
  | .kwBigint => some .bigint
  | .kwString => some .string
  | .kwSymbol => some .symbol
  | .kwVoid => some .void
  | .kwUndefined => some .undefined
  | .kwNull => some .null
  | .kwNever => some .never
  | .kwIntrinsic => some .intrinsic
  | _ => none

/-- A reference to a named type. -/
def typeReference (grammar : Grammar) : Parser Node := do
  let offset ← start
  let modified ← eatModifier
  let name ← entityName
  let arguments ← typeArguments? grammar
  if modified then
    complain offset "A parameter property is only allowed in a constructor implementation"
  finish offset (.type .reference) [name, .ofOption arguments]

/-- A type taken from another module. -/
def importType (grammar : Grammar) : Parser Node := do
  let offset ← start
  expectWord .kwImport
  expect .lparen
  let t ← token
  let source ← match t.kind with
    | .string _ => stringLiteral
    | _ =>
      advance
      complain t.start "String literal expected."
      pure (.mk (.expr (.string [])) ⟨t.start, t.stop⟩ [])
  let options ← do
    if (← eat .comma) && (← at? .lbrace) then some <$> grammar .assignment else pure none
  expect .rparen
  let qualifier ← do
    if ← eat .dot then some <$> entityName else pure none
  let arguments ← if ← at? .lt then some <$> typeArguments grammar else pure none
  finish offset (.type .importType)
    [source, .ofOption options, .ofOption qualifier, .ofOption arguments]

/-- The type of a value. -/
def typeQuery (grammar : Grammar) : Parser Node := do
  let offset ← start
  expectWord .kwTypeof
  let entity ← do
    if ← atWord? .kwImport then importType grammar else entityName
  let arguments ← typeArguments? grammar
  finish offset (.type .query) [entity, .ofOption arguments]

/-- What can stand where a type is read and no type does. -/
def typeStarts : String :=
  "an identifier, void, yield, null, await, break, a string literal, a numeric literal, true, "
    ++ "false, `, -, import, this, typeof, \x7b, [, ("

/-- A type without operators, brackets after it, or arrows. -/
def primaryType (grammar : Grammar) : Parser Node := do
  let t ← token
  let span : Span := ⟨t.start, t.stop⟩
  match t.kind with
  | .word w =>
    match keywordOf? t with
    | some .kwThis =>
      advance
      let this : Node := .mk (.type .this) span []
      if (← atWord? .kwIs) && !(← afterBreak?) then
        advance
        let type ← grammar .type
        finish t.start (.type (.predicate false)) [this, type]
      else
        return this
    | some .kwTypeof => typeQuery grammar
    | some .kwImport => importType grammar
    | some .kwTrue =>
      advance
      return .mk (.type .value) span [.mk (.expr (.boolean true)) span []]
    | some .kwFalse =>
      advance
      return .mk (.type .value) span [.mk (.expr (.boolean false)) span []]
    | some .kwAsserts =>
      if keywordOf? (← peek) == some .kwThis then
        advance
        let subject ← anyName
        let type ← do
          if ← eatWord .kwIs then some <$> grammar .type else pure none
        finish t.start (.type (.predicate true)) [subject, .ofOption type]
      else
        typeReference grammar
    | some k =>
      match typeWord? k with
      | some word =>
        if ← peekIs? .dot then
          typeReference grammar
        else
          advance
          return .mk (.type (.word word)) span []
      | none =>
        if k.isReserved && k != .kwBreak then
          failUnexpected typeStarts
        else
          typeReference grammar
    | none =>
      if w.name.isEmpty then failUnexpected typeStarts else typeReference grammar
  | .string v =>
    advance
    return .mk (.type .value) span [.mk (.expr (.string v)) span []]
  | .number v =>
    advance
    return .mk (.type .value) span [.mk (.expr (.number v)) span []]
  | .bigint v =>
    advance
    return .mk (.type .value) span [.mk (.expr (.bigint v)) span []]
  | .punct .minus =>
    advance
    let n ← token
    let literal ← match n.kind with
      | .number v => pure (ExprForm.number v)
      | .bigint v => pure (.bigint v)
      | _ => failUnexpected "numeric literal or bigint literal"
    advance
    let operand : Node := .mk (.expr literal) ⟨n.start, n.stop⟩ []
    let negated ← finish t.start (.expr (.unary .minus)) [operand]
    finish t.start (.type .value) [negated]
  | .punct .lbrace =>
    if ← atMappedType? then
      mappedType grammar
    else
      let es ← typeElements grammar
      finish t.start (.type .literal) es
  | .punct .lbracket =>
    advance
    let es ← unconditioned do tupleElements grammar (← remaining) []
    expect .rbracket
    if requiredAfterOptional false es then
      failAt t.start "A required element cannot follow an optional element."
    finish t.start (.type .tuple) es
  | .punct .lparen =>
    advance
    let inner ← unconditioned (grammar .type)
    expect .rparen
    finish t.start (.type .paren) [inner]
  | .punct .backquote =>
    let parts ← templateTypes grammar t.start (← remaining) (← get).after []
    finish t.start (.type .template) parts
  | .bad e => throw e
  | _ => failUnexpected typeStarts

/-- Brackets after a type: arrays and indexed access. -/
def bracketedRest (grammar : Grammar) (offset : Nat) : Nat → Node → Parser Node
  | 0, _ => exhausted
  | fuel + 1, type => do
    if (← at? .lbracket) && !(← afterBreak?) then
      advance
      if ← eat .rbracket then
        bracketedRest grammar offset fuel (← finish offset (.type .array) [type])
      else
        let index ← unconditioned (grammar .type)
        expect .rbracket
        bracketedRest grammar offset fuel (← finish offset (.type .indexed) [type, index])
    else
      return type

/-- A type with the brackets after it. -/
def bracketedType (grammar : Grammar) : Parser Node := do
  let offset ← start
  let inner ← primaryType grammar
  bracketedRest grammar offset (← remaining) inner

/-- A type that a conditional type is to infer. Its bound is no conditional type. -/
def inferType (grammar : Grammar) : Parser Node := do
  let offset ← start
  expectWord .kwInfer
  let nameStart ← start
  let name ← anyName
  let bound ← attempt do
    if !(← eatWord .kwExtends) then
      return none
    let bound ← within (fun c => { c with noConditionalType := true }) (grammar .type)
    if (← read).noConditionalType || !(← at? .question) then
      return some bound
    return none
  let text := match name.form with
    | .name n => n
    | _ => ""
  let parameter ← finish nameStart (.typeParam text []) [.ofOption bound, .absent]
  finish offset (.type .infer) [parameter]

/-- A type with operator words before it. -/
def operatorType (grammar : Grammar) : Nat → Parser Node
  | 0 => exhausted
  | fuel + 1 => do
    let offset ← start
    let operator (word : String) : Parser Node := do
      advance
      let operand ← operatorType grammar fuel
      finish offset (.type (.operator word)) [operand]
    match ← keyword? with
    | some .kwKeyof => operator "keyof"
    | some .kwUnique => operator "unique"
    | some .kwReadonly => operator "readonly"
    | some .kwInfer => inferType grammar
    | _ => bracketedType grammar

/-- Types joined by a sign, after the first. -/
def joinedRest (sign : Punct) (item : Parser Node) : Nat → List Node → Parser (List Node)
  | 0, _ => exhausted
  | fuel + 1, done => do
    if ← eat sign then
      let t ← item
      joinedRest sign item fuel (t :: done)
    else
      return done.reverse

/-- One type, or several joined by a sign, which may also stand before the first. -/
def joinedType (sign : Punct) (form : TypeForm) (item : Parser Node) : Parser Node := do
  let offset ← start
  discard (eat sign)
  let first ← item
  if ← at? sign then
    let types ← joinedRest sign item (← remaining) [first]
    finish offset (.type form) types
  else
    return first

/-- A union, or a type that binds more tightly. -/
def unionType (grammar : Grammar) : Parser Node := do
  let bound ← remaining
  joinedType .bar .union (joinedType .amp .intersection (operatorType grammar bound))

/-- Whether the parenthesis here opens the parameters of a function type. -/
def atFunctionType? (grammar : Grammar) : Parser Bool := do
  if ← at? .lt then
    return true
  if !(← at? .lparen) then
    return false
  let found ← lookAhead do
    advance
    if (← at? .rparen) || (← at? .ellipsis) then
      return true
    discard eatModifier
    let skipped ← do
      if isReference (← read) (← token) || (← atWord? .kwThis) then
        advance
        pure true
      else if (← at? .lbrace) || (← at? .lbracket) then
        discard (bindingTarget grammar false)
        pure true
      else
        pure false
    if !skipped then
      return false
    if (← at? .colon) || (← at? .comma) || (← at? .question) || (← at? .eq) then
      return true
    if ← eat .rparen then
      return ← at? .arrow
    return false
  return found == some true

/-- A function or constructor type after its leading words. -/
def arrowType (grammar : Grammar) (offset : Nat) (form : TypeForm) : Parser Node := do
  let generics ← typeParameters? grammar
  let ps ← signatureParameters grammar
  let result ← resultType grammar .arrow
  finish offset (.type form) [.ofOption generics, .group ps, result]

/-- A type that is no conditional type. -/
def plainType (grammar : Grammar) : Parser Node := do
  let offset ← start
  if ← atFunctionType? grammar then
    arrowType grammar offset .function
  else if ← atWord? .kwNew then
    advance
    arrowType grammar offset (.constructor false)
  else if (← atWord? .kwAbstract) && (← peekIsWord? .kwNew) then
    advance
    advance
    arrowType grammar offset (.constructor true)
  else
    unionType grammar

/-- A type. -/
def typeExpr (grammar : Grammar) : Parser Node := do
  let offset ← start
  let checked ← plainType grammar
  if (← read).noConditionalType || (← afterBreak?) || !(← atWord? .kwExtends) then
    return checked
  advance
  let bound ← within (fun c => { c with noConditionalType := true }) (plainType grammar)
  expect .question
  let yes ← unconditioned (grammar .type)
  expect .colon
  let no ← unconditioned (grammar .type)
  finish offset (.type .conditional) [checked, bound, yes, no]

end Retouch.Syntax.Parser
