import Retouch.Syntax.Parser.Expression

/-!
# Declarations

- `declaredVariables`: the variables after `var`, `let` or `const`.
- `typeDeclaration?`: an enumeration, interface, type alias or namespace, or an abstract class.
- `valueDeclaration?`: variables, a function or a class.
- `ambientDeclaration?`: what can stand after `declare`.

A declaration comes as a node of the form `.decl`; `asStatement` makes it a statement.
-/

namespace Retouch.Syntax.Parser

/-- One variable with its type and initial value. In the head of a loop a missing value is no
fault before `in` and `of`. -/
def declarator (grammar : Grammar) (kind : VarKind) (inLoopHead : Bool) : Parser Node := do
  let offset ← start
  let target ← bindingTarget grammar (kind != .varWord)
  let isName := match target.form with
    | .pattern (.ident _ _) => true
    | _ => false
  let definite ← if isName then eat .bang else pure false
  let target := annotate target (← typeAnnotation? grammar)
  let owed ← do
    if inLoopHead then pure !((← atWord? .kwIn) || (← atWord? .kwOf)) else pure true
  if owed then
    if ← eat .eq then
      let value ← grammar .assignment
      finish offset (.declarator definite) [target, value]
    else
      if !(← read).inDeclare then
        if kind == .constWord then
          complain offset "'const' declarations must be initialized"
        else if !isName then
          failAt offset "Destructuring bindings require initializers"
      finish offset (.declarator definite) [target, .absent]
  else
    finish offset (.declarator definite) [target, .absent]

/-- Variables separated by commas. Only after `var` in the head of a loop is `in` no operator. -/
def declarators (grammar : Grammar) (kind : VarKind) (inLoopHead : Bool) :
    Nat → List Node → Parser (List Node)
  | 0, _ => exhausted
  | fuel + 1, done => do
    if ← at? .semi then
      let previous := (← get).previous
      complain (if done.isEmpty then previous.stop else previous.start)
        "Trailing comma is not allowed"
      return done.reverse
    let inside (c : Context) : Context := if kind != .varWord || !inLoopHead then c.withIn else c
    let d ← within inside (declarator grammar kind inLoopHead)
    if ← eat .comma then
      declarators grammar kind inLoopHead fuel (d :: done)
    else
      return (d :: done).reverse

/-- Skip tokens up to the end of the statement. -/
def skipStatement : Nat → Parser Unit
  | 0 => exhausted
  | fuel + 1 => do
    if ← eatSemicolon then
      return
    advance
    match (← token).kind with
    | .bad _ => return
    | _ => skipStatement fuel

/-- Variables after the word that declares them, to the end of the statement. -/
def declaredVariables (grammar : Grammar) (kind : VarKind) : Parser (List Node) := do
  let all ← declarators grammar kind false (← remaining) []
  if !(← eatSemicolon) then
    complain (← tokenOffset) "Expected a semicolon"
    try
      discard (grammar .expression)
    catch _ =>
      pure ()
    skipStatement (← remaining)
  return all

/-- A declaration as a statement. -/
def asStatement : Node → Node
  | .mk (.decl d) span parts => .mk (.stmt (.declaration d)) span parts
  | n => n

/-- A class from the word `class` on. -/
def classDeclaration (grammar : Grammar) (offset : Nat) (decorated : List Node)
    (isAbstract ambient : Bool) : Parser Node := do
  expectWord .kwClass
  let (name, body) ← namedClass grammar offset decorated isAbstract true
  finish offset (.decl (.classDecl ambient)) [name, body]

/-- A function from the word `function` on. -/
def functionDeclaration (grammar : Grammar) (offset : Nat) (isAsync ambient : Bool) :
    Parser Node := do
  expectWord .kwFunction
  let (name, function) ← namedFunction grammar offset isAsync false true
  finish offset (.decl (.function ambient)) [name, function]

/-- The name of a member of an enumeration. A name in brackets must be a string. -/
def enumKey (grammar : Grammar) : Parser Node := do
  let t ← token
  match t.kind with
  | .string _ => stringLiteral
  | .number _ =>
    complain t.start "An enum member cannot have a numeric name"
    propertyKey grammar
  | .punct .lbracket =>
    advance
    let e ← grammar .expression
    expect .rbracket
    match e with
    | .mk (.expr (.string _)) _ _ => return e
    | .mk (.expr .template) _ [.mk (.quasi raw) span _] =>
      return .mk (.name ("\"" ++ raw ++ "\"")) span []
    | _ =>
      complain t.start "Computed property names are not allowed in enums"
      return e
  | _ => anyName

/-- One member of an enumeration, and whether the comma after it is read. A token that stands in
place of the comma is passed over. -/
def enumMember (grammar : Grammar) : Parser (Node × Bool) := do
  let offset ← start
  let key ← enumKey grammar
  if ← eat .eq then
    let value ← grammar .assignment
    return (← finish offset (.other "member") [key, value], ← eat .comma)
  else
    let member ← finish offset (.other "member") [key, .absent]
    if ← at? .rbrace then
      return (member, false)
    if !(← at? .comma) then
      complain (← tokenOffset) "Expected a semicolon"
    advance
    return (member, true)

/-- Members up to the closing brace. -/
def enumMembers (grammar : Grammar) : Nat → List Node → Parser (List Node)
  | 0, _ => exhausted
  | fuel + 1, done => do
    if ← at? .rbrace then
      return done.reverse
    let (m, separated) ← enumMember grammar
    if !separated && !(← at? .rbrace) then
      complain (← tokenOffset) ("Expected ',', got '" ++ (← describe) ++ "'")
    enumMembers grammar fuel (m :: done)

/-- An enumeration from the word `enum` on. -/
def enumDeclaration (grammar : Grammar) (offset : Nat) (isConst ambient : Bool) :
    Parser Node := do
  expectWord .kwEnum
  let name ← anyName
  expect .lbrace
  let members ← enumMembers grammar (← remaining) []
  expect .rbrace
  finish offset (.decl (.enum isConst ambient)) (name :: members)

/-- Skip tokens up to an opening brace. -/
def skipToBrace : Nat → Parser Unit
  | 0 => exhausted
  | fuel + 1 => do
    if (← at? .lbrace) || (← atEnd?) then
      return
    advance
    skipToBrace fuel

/-- An interface from its name on. -/
def interfaceTail (grammar : Grammar) (offset : Nat) (ambient : Bool) : Parser Node := do
  let name ← anyName
  match name.form with
  | .name n => if isBuiltInName n then complain name.span.start "interface name is invalid"
  | _ => pure ()
  let generics ← typeParameters? grammar .ofType
  let extended ← do
    if ← eatWord .kwExtends then heritage grammar (← remaining) [] else pure []
  if ← atWord? .kwExtends then
    complain (← start) "'extends' clause already seen"
    skipToBrace (← remaining)
  let elements ← typeElements grammar
  finish offset (.decl (.interface ambient))
    [name, .ofOption generics, .group extended, .group elements]

/-- A type alias from its name on. -/
def aliasTail (grammar : Grammar) (offset : Nat) (ambient : Bool) : Parser Node := do
  let name ← anyName
  let generics ← typeParameters? grammar .ofType
  expect .eq
  let type ← unconditioned (grammar .type)
  expectSemicolon
  finish offset (.decl (.typeAlias ambient)) [name, .ofOption generics, type]

/-- Module items up to and with the closing brace. A missing brace is passed over. -/
def namespaceItems (grammar : Grammar) : Nat → List Node → Parser (List Node)
  | 0, _ => exhausted
  | fuel + 1, done => do
    if ← eat .rbrace then
      return done.reverse
    if ← atEnd? then
      complain (← tokenOffset) "Expected '\x7d', got '<eof>'"
      return done.reverse
    let item ← grammar .moduleItem
    namespaceItems grammar fuel (item :: done)

/-- The body of a namespace. -/
def namespaceBody (grammar : Grammar) : Parser Node := do
  let offset ← start
  expect .lbrace
  let items ← namespaceItems grammar (← remaining) []
  finish offset .block items

/-- The body of a module, which may be left out. -/
def moduleBody? (grammar : Grammar) : Parser Node := do
  if ← at? .lbrace then
    namespaceBody grammar
  else
    expectSemicolon
    return .absent

/-- Names of a namespace joined by points, after the first. -/
def namespacePath (offset : Nat) : Nat → Node → Parser Node
  | 0, _ => exhausted
  | fuel + 1, left => do
    if ← eat .dot then
      let right ← anyName
      namespacePath offset fuel (← finish offset .qualified [left, right])
    else
      return left

/-- A namespace from its name on. -/
def namespaceTail (grammar : Grammar) (offset : Nat) (ambient : Bool) : Parser Node := do
  let first ← anyName
  let name ← namespacePath first.span.start (← remaining) first
  let body ← namespaceBody grammar
  finish offset (.decl (.namespaceDecl ambient .named)) [name, body]

/-- A declaration of the global scope or of a module with a string for a name. -/
def moduleTail (grammar : Grammar) (offset : Nat) (ambient : Bool) : Parser Node := do
  let isGlobal ← atWord? .kwGlobal
  let name ← if isGlobal then anyName else stringLiteral
  let body ← moduleBody? grammar
  finish offset (.decl (.namespaceDecl ambient (if isGlobal then .globalScope else .quoted)))
    [name, body]

/-- An enumeration, interface, type alias or namespace, or an abstract class, from its leading word
on, if the word is such a one. -/
def typeDeclaration? (grammar : Grammar) (offset : Nat) (decorated : List Node)
    (ambient : Bool) : Parser (Option Node) := do
  let t ← token
  match keywordOf? t with
  | some .kwAbstract =>
    advance
    some <$> classDeclaration grammar offset decorated true ambient
  | some .kwEnum => some <$> enumDeclaration grammar offset false ambient
  | some .kwInterface =>
    advance
    some <$> interfaceTail grammar offset ambient
  | some .kwType =>
    advance
    some <$> aliasTail grammar offset ambient
  | some .kwNamespace =>
    advance
    some <$> namespaceTail grammar offset ambient
  | some .kwModule =>
    advance
    match (← token).kind with
    | .string _ => some <$> moduleTail grammar offset ambient
    | _ => some <$> namespaceTail grammar offset ambient
  | _ => return none

/-- Such a declaration after another word, such as `declare`; `module` must be on the same line. -/
def nextTypeDeclaration? (grammar : Grammar) (offset : Nat) (decorated : List Node)
    (ambient : Bool) : Parser (Option Node) := do
  let t ← token
  if keywordOf? t == some .kwModule && t.afterBreak then
    return none
  typeDeclaration? grammar offset decorated ambient

/-- Whether such a declaration starts with a word, judged by the token after it. Everywhere else the
word is a name. -/
def startsTypeDeclaration (c : Context) (word : Keyword) (next : Token) : Bool :=
  let isOperator := !next.afterBreak
    && (keywordOf? next == some .kwAs || keywordOf? next == some .kwSatisfies)
  let named := isReference c next && !isOperator
  match word with
  | .kwAbstract => keywordOf? next == some .kwClass && !next.afterBreak
  | .kwEnum | .kwInterface => isWord next && !next.afterBreak
  | .kwNamespace => named
  | .kwModule =>
    !next.afterBreak && match next.kind with
      | .string _ => true
      | _ => named
  | .kwType => named && !next.afterBreak
  | _ => false

/-- Whether variables are declared after the word `let`, judged by the token after it. -/
def followsLet (next : Token) : Bool :=
  match next.kind with
  | .word _ =>
    match keywordOf? next with
    | some k => !k.isReserved
    | none => true
  | .punct .lbracket | .punct .lbrace => true
  | _ => false

/-- Variables, from the word that declares them. -/
def variableDeclaration (grammar : Grammar) (offset : Nat) (kind : VarKind) (ambient : Bool) :
    Parser Node := do
  advance
  let all ← declaredVariables grammar kind
  finish offset (.decl (.var kind ambient)) all

/-- Constants or a constant enumeration, from the word `const` on. -/
def constDeclaration (grammar : Grammar) (offset : Nat) (ambient : Bool) : Parser Node := do
  if ← peekIsWord? .kwEnum then
    advance
    enumDeclaration grammar offset true ambient
  else
    variableDeclaration grammar offset .constWord ambient

/-- Variables, a function or a class, if one stands here. -/
def valueDeclaration? (grammar : Grammar) (offset : Nat) (decorated : List Node) :
    Parser (Option Node) := do
  let next ← peek
  match ← keyword? with
  | some .kwClass => some <$> classDeclaration grammar offset decorated false false
  | some .kwFunction => some <$> functionDeclaration grammar offset false false
  | some .kwAsync =>
    if keywordOf? next == some .kwFunction && !next.afterBreak then
      advance
      some <$> functionDeclaration grammar offset true false
    else
      return none
  | some .kwConst => some <$> constDeclaration grammar offset false
  | some .kwVar => some <$> variableDeclaration grammar offset .varWord false
  | some .kwLet =>
    if followsLet next then
      some <$> variableDeclaration grammar offset .letWord false
    else
      return none
  | _ => return none

/-- What can stand after the word `declare`, which has been read; its range starts at the given
offset. -/
def ambientDeclaration? (grammar : Grammar) (offset : Nat) (decorated : List Node) :
    Parser (Option Node) := do
  if (← read).inDeclare then
    complain offset "`declare` modifier not allowed for code already in an ambient context"
  within (fun c => { c with inDeclare := true }) do
    match ← keyword? with
    | some .kwFunction => some <$> functionDeclaration grammar offset false true
    | some .kwClass => some <$> classDeclaration grammar offset decorated false true
    | some .kwConst => some <$> constDeclaration grammar offset true
    | some .kwVar => some <$> variableDeclaration grammar offset .varWord true
    | some .kwLet => some <$> variableDeclaration grammar offset .letWord true
    | some .kwGlobal => some <$> moduleTail grammar offset true
    | _ => nextTypeDeclaration? grammar offset decorated true

end Retouch.Syntax.Parser
