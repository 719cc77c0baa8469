import Retouch.Syntax.Parser.Markup

/-!
# Expressions

From the tightest binding to the loosest: members and calls (`leftHand`), operators before and
after an operand (`unary`), binary operators (`binary`), conditional expressions and assignments
(`assignment`), sequences (`expression`).
-/

namespace Retouch.Syntax.Parser

/-- Whether an expression is an arrow function, which takes no operator after it. -/
def isArrow (e : Node) : Bool :=
  match e.form with
  | .expr (.arrow _) => true
  | _ => false

/-- Whether an expression can start with a token. -/
def startsExpression (t : Token) : Bool :=
  match t.kind with
  | .number _ | .bigint _ | .string _ => true
  | .word _ =>
    match keywordOf? t with
    | none => true
    | some .kwThis | some .kwNull | some .kwTrue | some .kwFalse | some .kwFunction
    | some .kwClass | some .kwNew | some .kwSuper | some .kwTypeof | some .kwVoid
    | some .kwDelete | some .kwImport => true
    | some k => !k.isReserved
  | .punct p =>
    match p with
    | .lparen | .lbracket | .lbrace | .bang | .tilde | .plusPlus | .minusMinus | .plus | .minus
    | .lt | .backquote | .hash | .atSign | .slash | .slashEq => true
    | _ => false
  | .eof | .bad _ => false

/-! ## Members and calls -/

/-- Whether an expression is part of an optional chain. -/
def isChain (e : Node) : Bool :=
  match e.form with
  | .expr (.optionalMember _) | .expr (.optionalCall _) => true
  | _ => false

/-- Whether an optional chain goes on after an expression. -/
def inChain : Node → Bool
  | .mk (.expr .nonNull) _ [inner] => inChain inner
  | e => isChain e

/-- A member of an object. -/
def memberNode (offset : Nat) (object name : Node) (optional : Bool) : Parser Node := do
  match object.form with
  | .superRef =>
    match name.form with
    | .privateName _ => fail "Index super with private name is not allowed"
    | _ => finish offset (.expr .superMember) [name]
  | _ =>
    if optional || inChain object then
      finish offset (.expr (.optionalMember optional)) [object, name]
    else
      finish offset (.expr .member) [object, name]

/-- A call. -/
def callNode (offset : Nat) (callee : Node) (types : Option Node) (args : Node)
    (optional : Bool) : Parser Node := do
  if optional || inChain callee then
    finish offset (.expr (.optionalCall optional)) [callee, .ofOption types, args]
  else
    finish offset (.expr .call) [callee, .ofOption types, args]

/-- A computed member after its opening bracket. -/
def computedMember (grammar : Grammar) (offset : Nat) (object : Node) (optional : Bool) :
    Parser Node := do
  let bracket := (← get).previous.start
  let index ← within Context.withIn (grammar .expression)
  expect .rbracket
  memberNode offset object (← finish bracket .computed [index]) optional

/-- A template after its tag. -/
def taggedTemplate (grammar : Grammar) (offset : Nat) (tag : Node) (types : Option Node) :
    Parser Node := do
  let quoted ← template grammar true
  if isChain tag then
    complain offset "Tagged template literal is not allowed in optional chain."
  finish offset (.expr .tagged) [tag, .ofOption types, .group quoted.parts]

/-- What type arguments after an expression belong to: a call, a template, or the expression
itself where an assignment or an assertion follows. -/
def typedSubscript? (grammar : Grammar) (noCall : Bool) (offset : Nat) (object : Node) :
    Parser (Option Node) :=
  attempt do
    let types ← typeArguments grammar
    if !noCall && (← at? .lparen) then
      let args ← arguments grammar
      return some (← callNode offset object (some types) args false)
    else if ← at? .backquote then
      return some (← taggedTemplate grammar offset object (some types))
    else if (← at? .eq) || (← atWord? .kwAs) || (← atWord? .kwSatisfies) then
      return some (← finish offset (.expr .instantiation) [object, types])
    else
      return none

/-- Type arguments that stand for themselves after an expression: what follows them neither starts
an expression nor makes the angle brackets operators. -/
def instantiated? (grammar : Grammar) (offset : Nat) (object : Node) : Parser (Option Node) :=
  attempt do
    let types ← typeArguments grammar
    let t ← token
    match t.kind with
    | .punct .lt | .punct .gt | .punct .shr | .punct .ushr | .punct .plus | .punct .minus
    | .punct .lparen | .punct .backquote => return none
    | _ =>
      let isOperator := match t.kind with
        | .punct p => (signOperator? p).isSome
        | _ => false
      if t.afterBreak || isOperator || !startsExpression t then
        return some (← finish offset (.expr .instantiation) [object, types])
      return none

/-- What may follow an expression as a part of it. -/
structure Subscripts where
  /-- calls are left to the surrounding construct -/
  noCall : Bool := false
  /-- members in brackets are left to the surrounding construct -/
  noComputed : Bool := false

/-- Members, calls and the like after an expression. -/
def subscripts (grammar : Grammar) (allowed : Subscripts) (offset : Nat) :
    Nat → Node → Parser Node
  | 0, _ => exhausted
  | fuel + 1, object => do
    let t ← token
    match t.kind with
    | .punct .dot =>
      advance
      let name ← memberName
      subscripts grammar allowed offset fuel (← memberNode offset object name false)
    | .punct .lbracket =>
      if allowed.noComputed then
        return object
      advance
      let member ← computedMember grammar offset object false
      subscripts grammar allowed offset fuel member
    | .punct .question =>
      if !(← peekIs? .dot) then
        return object
      advance
      advance
      let next ← do
        if !allowed.noComputed && (← eat .lbracket) then
          computedMember grammar offset object true
        else if ← at? .lparen then
          let args ← arguments grammar
          callNode offset object none args true
        else if ← at? .lt then
          let types ← typeArguments grammar
          let args ← arguments grammar
          callNode offset object (some types) args true
        else
          let name ← memberName
          memberNode offset object name true
      subscripts grammar allowed offset fuel next
    | .punct .lparen =>
      if allowed.noCall then
        return object
      let args ← arguments grammar
      let call ← callNode offset object none args false
      subscripts grammar allowed offset fuel call
    | .punct .backquote =>
      let tagged ← within (fun c => { c with awaitsColon := false })
        (taggedTemplate grammar offset object none)
      subscripts grammar allowed offset fuel tagged
    | .punct .bang =>
      if t.afterBreak then
        return object
      advance
      subscripts grammar allowed offset fuel (← finish offset (.expr .nonNull) [object])
    | .punct .lt | .punct .shl =>
      match ← typedSubscript? grammar allowed.noCall offset object with
      | some next => subscripts grammar allowed offset fuel next
      | none =>
        match ← instantiated? grammar offset object with
        | some next => subscripts grammar allowed offset fuel next
        | none => return object
    | _ => return object

/-- An exclamation mark cannot follow a word that is no value of its own. -/
def denyNonNull (word : String) : Parser Unit := do
  if (← at? .bang) && !(← afterBreak?) then
    advance
    fail ("Typescript non-null assertion operator is not allowed with '" ++ word ++ "'")

/-- The parent class, with the member or call that must follow it. -/
def superExpression (grammar : Grammar) (noCall : Bool) : Parser Node := do
  let t ← token
  expectWord .kwSuper
  let parent : Node := .mk .superRef ⟨t.start, t.stop⟩ []
  let goesOn := match (← token).kind with
    | .punct .dot | .punct .lbracket => true
    | .punct .lparen => !noCall
    | _ => false
  if !goesOn then
    denyNonNull "super"
    fail "Invalid access to super"
  subscripts grammar { noCall := noCall } t.start (← remaining) parent

/-- A call that imports a module, from its parenthesis on. -/
def importCall (grammar : Grammar) (noCall : Bool) (offset : Nat) (phase : ImportPhase) :
    Parser Node := do
  let callee : Node := .mk (.importRef phase) (← spanFrom offset) []
  if !(← at? .lparen) then
    denyNonNull "import"
    fail "Import is not allowed here"
  let args ← arguments grammar
  let call ← callNode offset callee none args false
  subscripts grammar { noCall := noCall } offset (← remaining) call

/-- The word `import` in an expression. -/
def importExpression (grammar : Grammar) (noCall : Bool) : Parser Node := do
  let t ← token
  expectWord .kwImport
  if ← eat .dot then
    let property ← anyName
    match property.form with
    | .name "meta" =>
      let e ← finish t.start (.expr .importMeta) []
      subscripts grammar { noCall := noCall } t.start (← remaining) e
    | .name "defer" => importCall grammar noCall t.start .defer
    | .name "source" => importCall grammar noCall t.start .source
    | _ => failUnexpected "meta"
  else
    importCall grammar noCall t.start .evaluation

/-- A `new` expression, from its word on. -/
def newExpression (grammar : Grammar) : Parser Node := do
  let t ← token
  expectWord .kwNew
  if ← eat .dot then
    if !(← eatWord .kwTarget) then
      failUnexpected "target"
    let e ← finish t.start (.expr .newTarget) []
    let c ← read
    if !(c.inPlainFunction || c.inClass || c.inParameters) then
      complain t.start
        "'new.target' is only allowed in the body of a function declaration, function expression, or class."
    subscripts grammar { noCall := true } t.start (← remaining) e
  else
    let callee ← grammar .newOrMember
    if isArrow callee then
      return callee
    if isChain callee then
      failAt callee.span.start "Constructor in/after an optional chaining is not allowed."
    let types ← do
      if (← at? .lt) || (← at? .shl) then
        attempt do
          let types ← typeArguments grammar
          if ← at? .lparen then return some types else return none
      else
        pure none
    if ← at? .lparen then
      let args ← arguments grammar
      let e ← finish t.start (.expr .newExpr) [callee, .ofOption types, args]
      subscripts grammar { noCall := true } t.start (← remaining) e
    else
      finish t.start (.expr .newExpr) [callee, .ofOption types, .absent]

/-- A member, a `new` expression or a primary expression, without calls. -/
def newOrMember (grammar : Grammar) : Parser Node := do
  let offset ← start
  match ← keyword? with
  | some .kwNew => newExpression grammar
  | some .kwSuper => superExpression grammar true
  | some .kwImport => importExpression grammar true
  | _ =>
    let e ← primary grammar
    if isArrow e then
      return e
    let typed ← do
      if (← at? .lt) || (← at? .shl) then instantiated? grammar offset e else pure none
    subscripts grammar { noCall := true } offset (← remaining) (typed.getD e)

/-- Whether an expression makes an object without giving arguments. -/
def isBareNew (e : Node) : Bool :=
  match e with
  | .mk (.expr .newExpr) _ [_, _, args] => !args.isPresent
  | _ => false

/-- Members and calls. -/
def leftHand (grammar : Grammar) : Parser Node := do
  let offset ← start
  match ← keyword? with
  | some .kwSuper => superExpression grammar false
  | some .kwImport => importExpression grammar false
  | _ =>
    if (← read).dialect.tsx && (← at? .lt) then
      let e ← grammar (.jsx false)
      advance
      return e
    let e ← newOrMember grammar
    if isArrow e || isBareNew e then
      return e
    subscripts grammar {} offset (← remaining) e

/-- A type that a class implements or an interface extends. -/
def heritageItem (grammar : Grammar) : Parser Node := do
  let offset ← start
  let name ← anyName
  let first : Node := match name.form with
    | .name text => .mk (.expr (.ident text)) name.span []
    | _ => name
  let e ← subscripts grammar { noCall := true, noComputed := true } offset (← remaining) first
  match e.form with
  | .expr (.ident _) | .expr .member | .expr .instantiation => pure ()
  | _ =>
    complain offset
      "An interface can only extend an identifier/qualified-name with optional type arguments."
  match e with
  | .mk (.expr .instantiation) span [inner, types] =>
    return .mk (.other "heritage") span [inner, types]
  | _ =>
    let types ← if ← at? .lt then some <$> typeArguments grammar else pure none
    finish offset (.other "heritage") [e, .ofOption types]

/-- A decorator. -/
def decorator (grammar : Grammar) : Parser Node := do
  let offset ← start
  expect .atSign
  let inner ← start
  let e ← do
    if ← eat .lparen then
      let e ← grammar .expression
      expect .rparen
      finish inner (.expr .paren) [e]
    else
      let name ← identifierExpr
      subscripts grammar { noComputed := true } inner (← remaining) name
  let types ← if ← at? .lt then some <$> typeArguments grammar else pure none
  let e ← do
    if types.isSome || (← at? .lparen) then
      let args ← arguments grammar
      callNode inner e types args false
    else
      pure e
  finish offset (.other "decorator") [e]

/-! ## Operators before and after an operand -/

/-- The operator that stands before an operand. -/
def unaryOp? (t : Token) : Option UnaryOp :=
  match t.kind with
  | .punct .plus => some .plus
  | .punct .minus => some .minus
  | .punct .tilde => some .tilde
  | .punct .bang => some .bang
  | _ =>
    match keywordOf? t with
    | some .kwDelete => some .delete
    | some .kwVoid => some .void
    | some .kwTypeof => some .typeOf
    | _ => none

/-- Complain about an operand that cannot be deleted. -/
def checkDeleted (operand : Node) : Parser Unit := do
  match operand.form with
  | .expr (.ident _) =>
    complain operand.span.start "'delete' cannot be called on an identifier in strict mode"
  | _ => pure ()

/-- An operator that stands before its operand. A missing operand is passed over. -/
def unaryOperation (grammar : Grammar) (op : UnaryOp) : Parser Node := do
  let offset ← start
  advance
  let operandStart ← start
  let operand ← do
    try
      grammar .unary
    catch e =>
      note e
      pure (.mk (.expr .invalid) ⟨operandStart, operandStart⟩ [])
  if op == .delete then
    checkDeleted operand
  return .mk (.expr (.unary op)) ⟨offset, operand.span.stop⟩ [operand]

/-- A type assertion in angle brackets. -/
def assertion (grammar : Grammar) : Parser Node := do
  let offset ← start
  discard eatOpenAngle
  if (← atWord? .kwConst) && (← peekIs? .gt) then
    advance
    expect .gt
    let e ← grammar .unary
    finish offset (.expr .asConst) [e]
  else
    let type ← unconditioned (grammar .type)
    expectCloseAngle
    let e ← grammar .unary
    finish offset (.expr .typeAssertion) [type, e]

/-- An `await` expression. Where no operand can follow, the word is a name. -/
def awaitExpression (grammar : Grammar) : Parser Node := do
  let offset ← start
  let c ← read
  advance
  if ← at? .star then
    fail "await* has been removed from the async functions proposal. Use Promise.all() instead."
  if !c.inAsync && ((← at? .rparen) || (← at? .rbracket) || (← atSemicolon?)) then
    complain offset "`await` cannot be used as an identifier in an async context"
    finish offset (.expr (.ident "await")) []
  else
    if c.inFunction && !c.inAsync then
      complain offset "await isn't allowed in non-async function"
    if c.inParameters && !c.inFunction then
      complain offset "`await` expressions cannot be used in a parameter initializer."
    let e ← grammar .unary
    finish offset (.expr .awaitExpr) [e]

/-- An operand with the operators around it. -/
def unary (grammar : Grammar) : Parser Node := do
  let t ← token
  let c ← read
  match t.kind with
  | .punct .plusPlus | .punct .minusMinus =>
    advance
    let operand ← grammar .unary
    checkTarget operand false
    return .mk (.expr (.update (t.kind == .punct .plusPlus) true)) ⟨t.start, operand.span.stop⟩
      [operand]
  | _ =>
    match unaryOp? t with
    | some op => unaryOperation grammar op
    | none =>
      if !c.dialect.tsx && (t.kind == .punct .lt || t.kind == .punct .shl) then
        assertion grammar
      else if keywordOf? t == some .kwAwait && !c.inDeclare then
        awaitExpression grammar
      else
        let e ← leftHand grammar
        let after ← token
        if isArrow e || after.afterBreak then
          return e
        match after.kind with
        | .punct .plusPlus | .punct .minusMinus =>
          checkTarget e false
          advance
          finish t.start (.expr (.update (after.kind == .punct .plusPlus) false)) [e]
        | _ => return e

/-! ## Binary operators -/

/-- The binary operator that a token is. -/
def binaryOp? (c : Context) (t : Token) : Option BinaryOp :=
  match t.kind with
  | .punct p => signOperator? p
  | .word _ =>
    match keywordOf? t with
    | some .kwIn => if c.noIn then none else some .inside
    | some .kwInstanceof => some .instanceOf
    | _ => none
  | _ => none

/-- The logical operators that cannot be mixed without parentheses. -/
def mixesNullish (op : BinaryOp) (operand : Node) : Bool :=
  match operand.form with
  | .expr (.binary inner) =>
    match op with
    | .nullish => inner == .and || inner == .or
    | .and | .or => inner == .nullish
    | _ => false
  | _ => false

/-- Whether an operand cannot stand before the power operator. -/
def isUnaryOperand (e : Node) : Bool :=
  match e.form with
  | .expr (.unary _) | .expr .awaitExpr => true
  | _ => false

/-- Complain about logical operators mixed without parentheses. -/
def checkMixed (op : BinaryOp) (left right : Node) : Parser Unit := do
  let message := "Nullish coalescing operator(??) requires parens when mixing with logical operators"
  if mixesNullish op left then
    complain left.span.start message
  if op == .nullish && mixesNullish op right then
    complain right.span.start message

/-- Binary operators that bind more tightly than a given precedence, and their operands, after a
left operand. -/
def binaryRest (grammar : Grammar) : Nat → Nat → Node → Parser Node
  | 0, _, _ => exhausted
  | fuel + 1, precedence, left => do
    let t ← token
    let asserts := !t.afterBreak && match keywordOf? t with
      | some .kwAs => decide (precedence < 7)
      | some .kwSatisfies => true
      | _ => false
    if asserts then
      advance
      if keywordOf? t == some .kwAs && (← atWord? .kwConst) then
        advance
        binaryRest grammar fuel precedence (← finish left.span.start (.expr .asConst) [left])
      else
        let type ← unconditioned (grammar .type)
        let form : ExprForm := if keywordOf? t == some .kwAs then .asType else .satisfies
        binaryRest grammar fuel precedence (← finish left.span.start (.expr form) [left, type])
    else
      match binaryOp? (← read) t with
      | none => return left
      | some op =>
        if op.precedence ≤ precedence then
          return left
        advance
        if op == .power && isUnaryOperand left then
          fail "'**' cannot be applied to unary/await expression."
        let operand ← grammar .unary
        let inner := if op == .power then op.precedence - 1 else op.precedence
        let right ← if isArrow operand then pure operand else binaryRest grammar fuel inner operand
        checkMixed op left right
        let node : Node :=
          .mk (.expr (.binary op)) ⟨left.span.start, right.span.stop⟩ [left, right]
        binaryRest grammar fuel precedence node

/-- Operands joined by binary operators. A missing first operand is passed over. -/
def binary (grammar : Grammar) : Parser Node := do
  let left ← do
    try
      grammar .unary
    catch e =>
      let t ← token
      match binaryOp? (← read) t with
      | some _ =>
        complain t.start "Expression expected"
        pure (.mk (.expr .invalid) ⟨t.start, t.start⟩ [])
      | none => throw e
  if isArrow left then
    return left
  binaryRest grammar (← remaining) 0 left

/-! ## Conditional expressions, assignments, sequences -/

/-- A conditional expression, or one that binds more tightly. -/
def conditional (grammar : Grammar) : Parser Node := do
  let offset ← start
  let test ← binary grammar
  if isArrow test then
    return test
  if ← eat .question then
    conditionalTail grammar offset test
  else
    return test

/-- A `yield` expression. -/
def yieldExpression (grammar : Grammar) : Parser Node := do
  let offset ← start
  advance
  let c ← read
  if c.inParameters && !c.inFunction then
    failAt offset "'yield' cannot be used as a parameter within generator"
  if ← atSemicolon? then
    finish offset (.expr (.yieldExpr false)) [.absent]
  else if ← eat .star then
    let e ← grammar .assignment
    finish offset (.expr (.yieldExpr true)) [e]
  else if startsExpression (← token) then
    let e ← grammar .assignment
    finish offset (.expr (.yieldExpr false)) [e]
  else
    finish offset (.expr (.yieldExpr false)) [.absent]

/-- An assignment, or an expression that binds more tightly. -/
def assignmentBase (grammar : Grammar) : Parser Node := do
  let offset ← start
  if (← read).inGenerator && (← atWord? .kwYield) then
    yieldExpression grammar
  else
    match (← token).kind with
    | .bad e =>
      advance
      throw e
    | _ => pure ()
    modify fun c => { c with arrowStart := some offset }
    let e ← conditional grammar
    match e.form with
    | .expr (.arrow _) | .expr .conditional | .expr (.binary _) | .expr (.unary _)
    | .expr (.update _ _) => return e
    | _ => finishAssignment grammar offset e

/-- An arrow function with type parameters. -/
def genericArrow (grammar : Grammar) : Parser (Option Node) :=
  attempt do
    let offset ← start
    let generics ← typeParameters grammar .ofFunction
    let e ← assignmentBase grammar
    match e with
    | .mk (.expr (.arrow isAsync)) span (_ :: rest) =>
      return some (.mk (.expr (.arrow isAsync)) ⟨offset, span.stop⟩ (generics :: rest))
    | _ => return none

/-- An expression without commas. -/
def assignment (grammar : Grammar) : Parser Node := do
  if ← at? .lt then
    let markup ← do
      if (← read).dialect.tsx then attempt (some <$> assignmentBase grammar) else pure none
    match markup with
    | some e => return e
    | none =>
      let next ← peek
      let generic ← do
        if isWord next then
          within (fun c => { c with awaitsColon := false }) (genericArrow grammar)
        else
          pure none
      match generic with
      | some e => return e
      | none => assignmentBase grammar
  else
    assignmentBase grammar

/-- Expressions separated by commas, after the first. -/
def sequenceRest (grammar : Grammar) : Nat → List Node → Parser (List Node)
  | 0, _ => exhausted
  | fuel + 1, done => do
    if ← eat .comma then
      let e ← grammar .assignment
      sequenceRest grammar fuel (e :: done)
    else
      return done.reverse

/-- An expression. -/
def expression (grammar : Grammar) : Parser Node := do
  let first ← grammar .assignment
  if ← at? .comma then
    let all ← sequenceRest grammar (← remaining) [first]
    finish first.span.start (.expr .sequence) all
  else
    return first

end Retouch.Syntax.Parser
