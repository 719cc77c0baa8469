import Retouch.Syntax.Parser.Declaration

/-!
# Statements

- `statement`: a statement; declarations stand only where the place allows them.
-/

namespace Retouch.Syntax.Parser

/-- An expression in parentheses that belong to the statement. -/
def headExpression (grammar : Grammar) : Parser Node := do
  expect .lparen
  let e ← within Context.withIn (grammar .expression)
  expect .rparen
  return e

/-- The body of a loop. -/
def loopBody (grammar : Grammar) : Parser Node :=
  within (fun c => { c with breakAllowed := true, continueAllowed := true })
    (grammar (.statement false))

/-- A statement that leaves a loop or goes on with it. -/
def jump (isBreak : Bool) : Parser Node := do
  let offset ← start
  advance
  let label ← do
    if ← eatSemicolon then
      pure none
    else
      let name ← identifier
      expectSemicolon
      pure (some name)
  let c ← read
  let known := match label.map Node.form with
    | some (.name name) => c.labels.contains name
    | _ => true
  if isBreak then
    if !known then
      complain offset "A 'break' statement can only jump to a label of an enclosing statement"
    else if !c.breakAllowed then
      complain offset
        "A 'break' statement can only be used within an enclosing iteration or switch statement"
    finish offset (.stmt .breakStmt) [.ofOption label]
  else
    if !c.continueAllowed then
      complain offset
        "A 'continue' statement can only jump to a label of an enclosing iteration statement"
    else if !known then
      complain offset "Jump target cannot cross function boundary"
    finish offset (.stmt .continueStmt) [.ofOption label]

/-- A loop that tests after its body. -/
def doWhileLoop (grammar : Grammar) : Parser Node := do
  let offset ← start
  advance
  let body ← loopBody grammar
  expectWord .kwWhile
  let test ← headExpression grammar
  discard (eat .semi)
  finish offset (.stmt .doWhileLoop) [body, test]

/-- A loop that tests before its body. -/
def whileLoop (grammar : Grammar) : Parser Node := do
  let offset ← start
  advance
  let test ← headExpression grammar
  let body ← loopBody grammar
  finish offset (.stmt .whileLoop) [test, body]

/-- The head of a loop between its parentheses. -/
inductive LoopHead where
  | counting (head test update : Node)
  | over (isOf : Bool) (head object : Node)

/-- What a loop goes over, from its `in` or `of` on. -/
def eachHead (grammar : Grammar) (head : Node) : Parser LoopHead := do
  let isOf ← atWord? .kwOf
  advance
  let object ← within Context.withIn (if isOf then grammar .assignment else grammar .expression)
  return .over isOf head object

/-- The test and update of a counting loop. The semicolon after a test may be left out. -/
def countingHead (grammar : Grammar) (head : Node) : Parser LoopHead := do
  let test ← do
    if ← eat .semi then
      pure .absent
    else
      let test ← within Context.withIn (grammar .expression)
      discard (eat .semi)
      pure test
  let update ← do
    if ← at? .rparen then pure .absent else within Context.withIn (grammar .expression)
  return .counting head test update

/-- The type of a pattern. -/
def patternType (pattern : Node) : Node :=
  match pattern.form, pattern.parts with
  | .pattern (.ident _ _), [type] => type
  | .pattern (.array _), [_, type] => type
  | .pattern (.object _), [_, type] => type
  | _, _ => .absent

/-- Complain about variables that cannot stand in the head of a loop over something. -/
def checkLoopVariables (all : List Node) : Parser Unit := do
  match all with
  | [.mk (.declarator _) _ [target, value]] =>
    if value.isPresent then
      complain target.span.start "Unexpected initializer in for in/of loop"
    if (patternType target).isPresent then
      complain target.span.start
        "The left-hand side of a 'for...of' statement cannot use a type annotation"
  | [] => pure ()
  | _ :: others =>
    for d in others do
      complain d.span.start "Expected one variable binding"

/-- The kind of the variables that the head of a loop declares. -/
def loopVarKind? : Parser (Option VarKind) := do
  match ← keyword? with
  | some .kwVar => return some .varWord
  | some .kwConst => return some .constWord
  | some .kwLet => return if followsLet (← peek) then some .letWord else none
  | _ => return none

/-- Whether the head of a loop ends after `in` or `of` and one expression. -/
def atBareHead? (grammar : Grammar) : Parser Bool := do
  if !((← atWord? .kwOf) || (← atWord? .kwIn)) then
    return false
  let found ← lookAhead do
    advance
    discard (grammar .assignment)
    at? .rparen
  return found == some true

/-- The variables in the head of a loop, after the word that declares them. -/
def loopVariables (grammar : Grammar) (kind : VarKind) : Parser (List Node) := do
  if ← atBareHead? grammar then
    complain (← get).previous.stop "Variable declaration list cannot be empty"
    return []
  declarators grammar kind true (← remaining) []

/-- Whether an expression is the word that introduces variables which are disposed of. -/
def isUsingWord (e : Node) : Bool :=
  match e.form, e.parts with
  | .expr (.ident name), _ => name == "using"
  | .expr .awaitExpr, [.mk (.expr (.ident name)) _ _] => name == "using"
  | _, _ => false

/-- Whether a name stands here that a loop binds. -/
def atUsedName? : Parser Bool := do
  if ← atWord? .kwOf then
    return false
  let next ← peek
  return keywordOf? next == some .kwOf || keywordOf? next == some .kwIn

/-- The head of a loop that declares no variables, from its first expression on. -/
def expressionHead (grammar : Grammar) : Parser LoopHead := do
  let offset ← start
  let e ← within (fun c => { c with noIn := true }) (grammar .expression)
  if isUsingWord e && (← atUsedName?) then
    let name ← declaredName false
    let head ← finish offset (.other "using") [e, name]
    if ← atWord? .kwIn then
      complain offset "Using declaration is not allowed in for-in loop"
    eachHead grammar head
  else if (← atWord? .kwOf) || (← atWord? .kwIn) then
    let pattern ← rereadPattern .target e
    match pattern.form with
    | .pattern (.array _) | .pattern (.object _) =>
      if ← atWord? .kwIn then
        complain pattern.span.start
          "The left-hand side of a 'for...in' statement cannot be a destructuring pattern"
    | _ => pure ()
    eachHead grammar (.mk (.other "target") pattern.span [pattern])
  else
    expect .semi
    countingHead grammar e

/-- The head of a loop, between its parentheses. -/
def loopHead (grammar : Grammar) : Parser LoopHead := do
  let offset ← start
  match ← loopVarKind? with
  | some kind =>
    advance
    let all ← within (fun c => { c with noIn := true }) (loopVariables grammar kind)
    let head ← finish offset (.loopVars kind) all
    if (← atWord? .kwOf) || (← atWord? .kwIn) then
      checkLoopVariables all
      eachHead grammar head
    else
      expect .semi
      countingHead grammar head
  | none =>
    if ← eat .semi then countingHead grammar .absent else expressionHead grammar

/-- A loop from the word `for` on. Only a loop over something with `of` can await. -/
def forLoop (grammar : Grammar) : Parser Node := do
  let offset ← start
  advance
  let awaitStart ← start
  let awaiting ← eatWord .kwAwait
  expect .lparen
  let head ← within (fun c => { c with inLoopHead := true, inAwaitingHead := awaiting })
    (loopHead grammar)
  expect .rparen
  let body ← loopBody grammar
  let refuseAwait : Parser Unit := do
    if awaiting then
      failAt awaitStart "for await syntax is valid only for for-of statement"
  match head with
  | .counting head test update =>
    refuseAwait
    finish offset (.stmt .forLoop) [head, test, update, body]
  | .over false head object =>
    refuseAwait
    finish offset (.stmt .forInLoop) [head, object, body]
  | .over true head object =>
    finish offset (.stmt (.forOfLoop awaiting)) [head, object, body]

/-- A conditional statement, with the conditional statements in its `else` branches. -/
def ifElse (grammar : Grammar) : Nat → Parser Node
  | 0 => exhausted
  | fuel + 1 => do
    let offset ← start
    expectWord .kwIf
    let test ← headExpression grammar
    let yes ← grammar (.statement false)
    let no ← do
      if ← eatWord .kwElse then
        if ← atWord? .kwIf then ifElse grammar fuel else grammar (.statement false)
      else
        pure .absent
    finish offset (.stmt .ifElse) [test, yes, no]

/-- A statement that ends a function. -/
def returnStatement (grammar : Grammar) : Parser Node := do
  let offset ← start
  advance
  if ← eatSemicolon then
    finish offset (.stmt .returnStmt) [.absent]
  else
    let value ← within Context.withIn (grammar .expression)
    expectSemicolon
    finish offset (.stmt .returnStmt) [value]

/-- A statement that throws. -/
def throwStatement (grammar : Grammar) : Parser Node := do
  let offset ← start
  advance
  if ← afterBreak? then
    fail "LineBreak cannot follow 'throw'"
  let value ← within Context.withIn (grammar .expression)
  expectSemicolon
  finish offset (.stmt .throwStmt) [value]

/-- Whether a case of a switch, or the end of the switch, stands here. -/
def atCaseEnd? : Parser Bool := do
  return (← atWord? .kwCase) || (← atWord? .kwDefault) || (← at? .rbrace) || (← atEnd?)

/-- Statements up to the next case. -/
def caseStatements (grammar : Grammar) : Nat → List Node → Parser (List Node)
  | 0, _ => exhausted
  | fuel + 1, done => do
    if ← atCaseEnd? then
      return done.reverse
    let s ← grammar (.statement true)
    caseStatements grammar fuel (s :: done)

/-- The cases of a switch. -/
def switchCases (grammar : Grammar) : Nat → Bool → List Node → Parser (List Node)
  | 0, _, _ => exhausted
  | fuel + 1, hasDefault, done => do
    let offset ← start
    let isCase ← atWord? .kwCase
    let isDefault ← atWord? .kwDefault
    if isCase || isDefault then
      advance
      if isDefault && hasDefault then
        fail "A switch block cannot have multiple defaults"
      let test ← do
        if isCase then within Context.withIn (grammar .expression) else pure .absent
      expect .colon
      let body ← caseStatements grammar (← remaining) []
      let node ← finish offset .switchCase (test :: body)
      switchCases grammar fuel (hasDefault || isDefault) (node :: done)
    else
      return done.reverse

/-- A switch. -/
def switchStatement (grammar : Grammar) : Parser Node := do
  let offset ← start
  advance
  let discriminant ← headExpression grammar
  expect .lbrace
  let cases ← within (fun c => { c with breakAllowed := true })
    (do switchCases grammar (← remaining) false [])
  expect .rbrace
  finish offset (.stmt .switchStmt) (discriminant :: cases)

/-- A catch clause, if one stands here. -/
def catchClause (grammar : Grammar) : Parser Node := do
  let offset ← start
  if !(← eatWord .kwCatch) then
    return .absent
  let target ← do
    if ← eat .lparen then
      let target ← bindingTarget grammar false
      let type ← typeAnnotation? grammar
      expect .rparen
      pure (annotate target type)
    else
      pure .absent
  let body ← block grammar
  finish offset .catchClause [target, body]

/-- A final block, if one stands here. -/
def finalBlock (grammar : Grammar) : Parser Node := do
  if ← eatWord .kwFinally then block grammar else return .absent

/-- A statement that handles what is thrown in it. -/
def tryStatement (grammar : Grammar) : Parser Node := do
  let offset ← start
  advance
  let body ← block grammar
  let here ← tokenOffset
  let handler ← catchClause grammar
  let final ← finalBlock grammar
  if !handler.isPresent && !final.isPresent then
    complain here "Expected a semicolon"
  finish offset (.stmt .tryStmt) [body, handler, final]

/-- A handler without the block it belongs to. -/
def strayHandler (grammar : Grammar) : Parser Node := do
  let offset ← start
  complain offset "Expected a semicolon"
  try
    discard (catchClause grammar)
    discard (finalBlock grammar)
  catch _ =>
    pure ()
  finish offset (.stmt .expression) [.mk (.expr .invalid) ⟨offset, offset⟩ []]

/-- A statement in the scope of an object. -/
def withStatement (grammar : Grammar) : Parser Node := do
  let offset ← start
  advance
  complain offset
    "The 'with' statement is not supported. All symbols in a 'with' block will have type 'any'."
  let object ← headExpression grammar
  let body ← grammar (.statement false)
  finish offset (.stmt .withStmt) [object, body]

/-- A statement with a label. -/
def labelledStatement (grammar : Grammar) : Parser Node := do
  let offset ← start
  let label ← identifier
  let name := match label.form with
    | .name n => n
    | _ => ""
  expect .colon
  let isRepeated := (← read).labels.contains name
  let inside (c : Context) : Context :=
    { c with labels := name :: c.labels, breakAllowed := true }
  let body ← within inside do
    if ← atWord? .kwFunction then
      let inner ← start
      let d ← functionDeclaration grammar inner false false
      complain inner "Function cannot be labelled in strict mode"
      pure (asStatement d)
    else
      grammar (.statement false)
  if isRepeated then
    complain offset ("Label " ++ name ++ " is already declared")
  finish offset (.stmt .labeled) [label, body]

/-- A statement that is an expression, after the expression. -/
def finishExpression (grammar : Grammar) (offset : Nat) (e : Node) : Parser Node := do
  if ← eatSemicolon then
    finish offset (.stmt .expression) [e]
  else if ← atSignOperator? then
    complain (← start) "Expected a semicolon"
    let whole ← grammar (.binaryAfter e)
    finish offset (.stmt .expression) [whole]
  else
    fail "Expected ';', '\x7d' or <eof>"

/-- A word that was read as an expression, where an interface follows. -/
def misplacedInterface? (grammar : Grammar) (e : Node) : Parser (Option Node) := do
  let modifies := match e.form with
    | .expr (.ident name) => name == "public" || name == "static" || name == "abstract"
    | _ => false
  if modifies && (← eatWord .kwInterface) then
    complain e.span.start "interface name is invalid"
    some <$> interfaceTail grammar e.span.start false
  else
    return none

/-- A statement that is an expression. -/
def expressionStatement (grammar : Grammar) : Parser Node := do
  let offset ← start
  let e ← within Context.withIn (grammar .expression)
  match ← misplacedInterface? grammar e with
  | some d => return asStatement d
  | none => finishExpression grammar offset e

/-- Variables that are disposed of at the end of their scope. Each has an initial value. -/
def usingStatement (grammar : Grammar) (awaiting : Bool) : Parser Node := do
  let offset ← start
  if awaiting then
    advance
  advance
  let all ← declaredVariables grammar .varWord
  for d in all do
    match d.parts with
    | [target, value] =>
      match target.form with
      | .pattern (.ident _ _) => pure ()
      | _ => complain offset "Using declaration only allows identifiers"
      if !value.isPresent then
        complain offset "Using declaration requires initializer"
    | _ => pure ()
  finish offset (.stmt (.declaration (.usingVars awaiting))) all

/-- Whether such variables are declared here, and whether disposing of them is awaited. -/
def atUsing? : Parser (Option Bool) := do
  match ← keyword? with
  | some .kwUsing =>
    let next ← peek
    return if isReference (← read) next && !next.afterBreak then some false else none
  | some .kwAwait =>
    let found ← lookAhead do
      advance
      if !(← atWord? .kwUsing) then
        return false
      advance
      return isReference (← read) (← token) && !(← afterBreak?)
    return if found == some true then some true else none
  | _ => return none

/-- A declaration after the word `declare`, if one follows it. -/
def declared? (grammar : Grammar) (decorated : List Node) : Parser (Option Node) := do
  let offset ← start
  let next ← peek
  let isOperator := !next.afterBreak && match keywordOf? next with
    | some .kwAs | some .kwSatisfies | some .kwIn | some .kwInstanceof => true
    | _ => false
  if !isWord next || isOperator then
    return none
  let saved ← get
  advance
  match ← ambientDeclaration? grammar offset decorated with
  | some d => return some d
  | none =>
    modify fun c => { saved with notes := c.notes }
    return none

/-- A declaration that may stand wherever a statement may, if one stands here. -/
def freeDeclaration? (grammar : Grammar) (decorated : List Node) : Parser (Option Node) := do
  let offset ← start
  let next ← peek
  match ← keyword? with
  | none => return none
  | some .kwDeclare => declared? grammar decorated
  | some .kwGlobal =>
    if next.kind == .punct .lbrace then
      some <$> moduleTail grammar offset false
    else
      return none
  | some word =>
    if startsTypeDeclaration (← read) word next then
      typeDeclaration? grammar offset decorated false
    else
      return none

/-- A name alone on its line that would start an interface. -/
def loneInterface? : Parser (Option Node) := do
  let t ← token
  let next ← peek
  if keywordOf? t == some .kwInterface && next.afterBreak && isWord next then
    complain t.start "`interface` cannot be used as an identifier in strict mode"
    advance
    let e : Node := .mk (.expr (.ident "interface")) ⟨t.start, t.stop⟩ []
    discard eatSemicolon
    some <$> finish t.start (.stmt .expression) [e]
  else
    return none

/-- A declaration, a labelled statement or an expression. -/
def declarationOrExpression (grammar : Grammar) (decorated : List Node) : Parser Node := do
  match ← freeDeclaration? grammar decorated with
  | some d => return asStatement d
  | none =>
    match ← loneInterface? with
    | some s => return s
    | none =>
      if isReference (← read) (← token) && (← peekIs? .colon) then
        labelledStatement grammar
      else
        expressionStatement grammar

/-- Variables, a function or a class. Where declarations have no place, functions and classes are
passed over with a complaint. -/
def placedDeclaration (grammar : Grammar) (withDeclarations : Bool) (offset : Nat)
    (decorated : List Node) : Parser Node := do
  let t ← token
  let isPlaced := match keywordOf? t with
    | some .kwFunction | some .kwClass => true
    | _ => false
  if isPlaced && !withDeclarations then
    complain t.start "Declaration is not allowed"
  let isVar := keywordOf? t == some .kwVar
  let isConstEnum := keywordOf? t == some .kwConst && (← peekIsWord? .kwEnum)
  let isAsync := keywordOf? t == some .kwAsync
  let outer := if keywordOf? t == some .kwClass then offset else t.start
  let found ← do
    if withDeclarations || isPlaced || isVar || isConstEnum || isAsync then
      valueDeclaration? grammar outer decorated
    else
      pure none
  match found with
  | some d => return asStatement d
  | none => declarationOrExpression grammar decorated

/-- A call that imports a module, or data about the module itself, as a statement. -/
def importStatement (grammar : Grammar) : Parser Node := do
  let offset ← start
  let next ← peek
  if next.kind == .punct .lparen || next.kind == .punct .dot then
    let e ← grammar .expression
    discard eatSemicolon
    finish offset (.stmt .expression) [e]
  else
    fail "'import', and 'export' cannot be used outside of module code"

/-- A statement after its decorators, which count only for classes. -/
def plainStatement (grammar : Grammar) (withDeclarations : Bool) (offset : Nat)
    (decorated : List Node) : Parser Node := do
  let t ← token
  match t.kind with
  | .punct .lbrace => block grammar (.stmt .block)
  | .punct .semi =>
    advance
    finish t.start (.stmt .empty) []
  | .word _ =>
    match keywordOf? t with
    | some .kwBreak => jump true
    | some .kwContinue => jump false
    | some .kwDebugger =>
      advance
      expectSemicolon
      finish t.start (.stmt .debugger) []
    | some .kwDo => doWhileLoop grammar
    | some .kwFor => forLoop grammar
    | some .kwIf => ifElse grammar (← remaining)
    | some .kwReturn => returnStatement grammar
    | some .kwSwitch => switchStatement grammar
    | some .kwThrow => throwStatement grammar
    | some .kwTry => tryStatement grammar
    | some .kwCatch | some .kwFinally => strayHandler grammar
    | some .kwWhile => whileLoop grammar
    | some .kwWith => withStatement grammar
    | some .kwImport => importStatement grammar
    | some .kwExport => fail "'import', and 'export' cannot be used outside of module code"
    | some .kwUsing | some .kwAwait =>
      match ← if withDeclarations then atUsing? else pure none with
      | some awaiting => usingStatement grammar awaiting
      | none => declarationOrExpression grammar decorated
    | some .kwVar | some .kwConst | some .kwLet | some .kwFunction | some .kwClass
    | some .kwAsync => placedDeclaration grammar withDeclarations offset decorated
    | _ => declarationOrExpression grammar decorated
  | _ => expressionStatement grammar

/-- A statement. -/
def statement (grammar : Grammar) (withDeclarations : Bool) : Parser Node := do
  let offset ← start
  let decorated ← decorators grammar
  plainStatement grammar withDeclarations offset decorated

end Retouch.Syntax.Parser
