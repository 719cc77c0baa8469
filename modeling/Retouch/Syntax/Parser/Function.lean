import Retouch.Syntax.Parser.Type

/-!
# Blocks, functions and classes

- `block`: statements in braces.
- `functionTail`: a function from its type parameters to its body.
- `classMember`: one member of a class, with the words before its key.
- `classTail`: a class from its type parameters to its closing brace.
-/

namespace Retouch.Syntax.Parser

/-- Statements up to and with the closing brace. A missing brace is passed over. -/
def statementsToBrace (grammar : Grammar) : Nat → List Node → Parser (List Node)
  | 0, _ => exhausted
  | fuel + 1, done => do
    if ← eat .rbrace then
      return done.reverse
    if ← atEnd? then
      complain (← tokenOffset) "Expected '\x7d', got '<eof>'"
      return done.reverse
    let s ← grammar (.statement true)
    statementsToBrace grammar fuel (s :: done)

/-- Statements in braces, as a node of a given form. -/
def block (grammar : Grammar) (form : Form := .block) : Parser Node := do
  let offset ← start
  expect .lbrace
  let statements ← statementsToBrace grammar (← remaining) []
  finish offset form statements

/-- The directive for strict code among the strings at the start of a body, as it is written. -/
def strictDirective? : List Node → Option Node
  | .mk (.stmt .expression) _ [.mk (.expr (.string v)) span _] :: rest =>
    if v == "use strict".toList.map Char.toNat && span.stop == span.start + 12 then
      some (.mk (.expr (.string v)) span [])
    else
      strictDirective? rest
  | _ => none

/-- Complain about a directive for strict code under parameters that are not plain names. -/
def checkDirective (simple : Bool) (body : Node) : Parser Unit := do
  if !simple then
    match strictDirective? body.parts with
    | some directive =>
      complain directive.span.start
        "Illegal 'use strict' directive in function with non-simple parameter list."
    | none => pure ()

/-- The body of a function, or nothing where the function is only declared. -/
def functionBody? (grammar : Grammar) (isAsync isGenerator simple : Bool) :
    Parser (Option Node) := do
  if (← read).inDeclare && (← at? .lbrace) then
    complain (← start) "An implementation cannot be declared in ambient contexts"
  if !(← at? .lbrace) && (← eatSemicolon) then
    return none
  let inside (c : Context) : Context := (Context.inBody isAsync isGenerator false c).withIn
  let body ← within inside (block grammar)
  checkDirective simple body
  return some body

/-- Parameters of a function that is only declared have no default values. -/
def noteDeclaredDefaults : List Node → Parser Unit
  | [] => pure ()
  | p :: rest => do
    match p.parts with
    | [_, .mk (.pattern .assign) span _] =>
      complain span.start
        "A parameter initializer is only allowed in a function or constructor implementation"
    | _ => pure ()
    noteDeclaredDefaults rest

/-- A function from its type parameters to its body; its range starts at the given offset. The
parameters are checked before the body is read. -/
def functionTail (grammar : Grammar) (offset : Nat) (decorated : List Node)
    (isAsync isGenerator : Bool) (check : List Node → Parser Unit := fun _ => pure ()) :
    Parser Node := do
  let outside (c : Context) : Context :=
    { c with inAsync := isAsync, inGenerator := isGenerator, inClassField := false }
  within outside do
    let inside (c : Context) : Context := { c with inParameters := true, inFunction := false }
    let generics ← within inside (typeParameters? grammar)
    let ps ← within inside (parameters grammar)
    check ps
    let result ← resultType? grammar
    let body ← functionBody? grammar isAsync isGenerator (areSimple ps)
    if body.isNone then
      noteDeclaredDefaults ps
    finish offset (.function isAsync isGenerator)
      [.group decorated, .ofOption generics, .group ps, .ofOption result, .ofOption body]

/-- A function after the word `function` and what stands before it: its name and its node. The name
of an expression is read as a name inside the function. -/
def namedFunction (grammar : Grammar) (offset : Nat) (isAsync isExpression nameRequired : Bool) :
    Parser (Node × Node) := do
  let isGenerator ← eat .star
  let nameContext (c : Context) : Context :=
    if isExpression then
      { c with inAsync := isAsync, inGenerator := isGenerator, inClassField := false }
    else
      { c with inClassField := false }
  let name ← within nameContext do
    if nameRequired || isReference (← read) (← token) then
      declaredName false
    else
      pure .absent
  let function ← within (fun c => { c with awaitsColon := false })
    (functionTail grammar offset [] isAsync isGenerator)
  return (name, function)

/-! ## Class members -/

/-- Whether the parameters of a method start here. -/
def atMethod? : Parser Bool := do
  return (← at? .lparen) || (← at? .lt)

/-- Whether a property goes on or ends here. -/
def atProperty? (lineBreakEnds : Bool) : Parser Bool := do
  let t ← token
  match t.kind with
  | .punct .eq | .punct .semi | .punct .rbrace | .punct .colon | .punct .bang => return true
  | .eof => return lineBreakEnds
  | _ => return lineBreakEnds && t.afterBreak

/-- A key that is the given name, written plainly. -/
def isNamed (name : String) (key : Node) : Bool :=
  match key.form with
  | .name n => n == name
  | _ => false

/-- A key that makes a method the constructor. -/
def isConstructorKey (key : Node) : Bool :=
  match key.form with
  | .name n => n == "constructor"
  | .expr (.string v) => v == "constructor".toList.map Char.toNat
  | _ => false

/-- A key that is a private name. -/
def isPrivateKey (key : Node) : Bool :=
  match key.form with
  | .privateName _ => true
  | _ => false

/-- What is known of a class member before its key. -/
structure MemberHead where
  offset : Nat
  decorated : List Node
  /-- the word `declare` -/
  declared : Option Span := none
  access : Option Keyword := none
  /-- the word `static` before all other modifiers but `declare` and the access -/
  leadingStatic : Option Span := none
  isStatic : Bool := false
  isAccessor : Bool := false
  isAbstract : Bool := false
  isOverride : Bool := false
  /-- the word `readonly` -/
  fixed : Option Span := none
  /-- the last modifier after `static` -/
  lastModifier : Option Span := none

/-- The words of a head in the order in which they are printed, `static` left out. -/
def MemberHead.words (h : MemberHead) : List String :=
  (if h.declared.isSome then ["declare"] else [])
    ++ (h.access.map Keyword.text).toList
    ++ (if h.isAbstract then ["abstract"] else [])
    ++ (if h.isOverride then ["override"] else [])
    ++ (if h.fixed.isSome then ["readonly"] else [])
    ++ (if h.isAccessor then ["accessor"] else [])

/-- A private name cannot have an access modifier. -/
def checkPrivateAccess (head : MemberHead) (key : Node) : Parser Unit := do
  if isPrivateKey key && head.access.isSome then
    complain head.offset "An accessibility modifier cannot be used with a private identifier"

/-- A method after its key. -/
def methodTail (grammar : Grammar) (head : MemberHead) (kind : String) (key : Node)
    (optional isAsync isGenerator : Bool) (check : List Node → Parser Unit := fun _ => pure ()) :
    Parser Node := do
  let function ← functionTail grammar head.offset head.decorated isAsync isGenerator check
  checkPrivateAccess head key
  let hasBody := match function.parts with
    | [_, _, _, _, body] => body.isPresent
    | _ => false
  if head.isAbstract && hasBody && !isPrivateKey key then
    complain head.offset "Abstract method cannot have an implementation."
  let words := if optional then head.words ++ ["?"] else head.words
  finish head.offset (.member (.method kind head.isStatic (isPrivateKey key) words))
    [key, function]

/-- A property after its key. -/
def propertyTail (grammar : Grammar) (head : MemberHead) (key : Node) (optional : Bool) :
    Parser Node := do
  if isConstructorKey key then
    failAt key.span.start "Classes may not have a non-static field named 'constructor'"
  if isPrivateKey key then
    if head.declared.isSome then
      complain key.span.start "'declare' modifier cannot be used with a private identifier"
    if head.isAbstract then
      complain key.span.start "'abstract' modifier cannot be used with a private identifier"
  let definite ← do
    if optional then pure false else eat .bang
  let type ← typeAnnotation? grammar
  let value ← do
    if ← eat .eq then
      some <$> within (fun c => { c.withIn with inClassField := true }) (grammar .assignment)
    else
      pure none
  if !(← eatSemicolon) then
    complain (← tokenOffset) "Expected a semicolon"
  if !head.isAccessor then
    checkPrivateAccess head key
    if head.isAbstract && value.isSome && !isPrivateKey key then
      complain head.offset "Abstract property cannot have an initializer."
  let words := head.words ++ (if optional then ["?"] else []) ++ (if definite then ["!"] else [])
  let form : MemberForm := if head.isAccessor then
      .autoAccessor head.isStatic (isPrivateKey key) words
    else
      .property head.isStatic (isPrivateKey key) words
  finish head.offset (.member form)
    [key, .ofOption type, .ofOption value, .group head.decorated]

/-- A constructor has no type parameters. -/
def refusedTypeParameters (grammar : Grammar) : Parser Unit := do
  if !(← at? .lt) then
    return
  if ← peekIs? .gt then
    advance
    complain (← start) "Type parameter list cannot be empty"
    advance
  else
    let generics ← typeParameters grammar .ofFunction
    for p in generics.parts do
      complain p.span.start "Type parameters cannot appear on a constructor declaration"

/-- The constructor after its key. -/
def constructorTail (grammar : Grammar) (head : MemberHead) (key : Node) : Parser Node := do
  if head.isOverride then
    complain head.offset "'override' modifier cannot appear on a constructor declaration"
  within (fun c => { c with inClassField := false }) do
    refusedTypeParameters grammar
    let ps ← parameters grammar true
    if ← eat .colon then
      let type ← grammar .type
      complain type.span.start "Type annotation cannot appear on a constructor declaration"
    let body ← functionBody? grammar false false (areSimple ps)
    if body.isNone then
      for p in ps do
        match p.form with
        | .parameter (_ :: _) =>
          complain p.span.start
            "A parameter property is only allowed in a constructor implementation"
        | _ => pure ()
      noteDeclaredDefaults ps
    match head.leadingStatic with
    | some span =>
      complain span.start "'static' modifier cannot appear on a constructor declaration"
    | none => pure ()
    if head.isAbstract then
      match head.lastModifier with
      | some span =>
        complain span.start
          "'abstract' modifier can only appear on a class, method, or property declaration."
      | none => pure ()
    finish head.offset (.member (.constructor (head.access.map Keyword.text).toList))
      [key, .group ps, .ofOption body]

/-- A static block after its leading word. -/
def staticBlock (grammar : Grammar) (offset : Nat) : Parser Node := do
  let body ← within (fun c => { c with inStaticBlock := true, inClassField := true })
    (block grammar)
  finish offset (.member .staticBlock) [body]

/-- A method cannot be marked as read-only. -/
def readonlyMethod : String := "A method cannot be readonly"

/-- Complain about the parameters of an accessor; the receiver does not count. -/
def checkAccessor (isGet : Bool) (offset : Nat) (ps : List Node) : Parser Unit := do
  let count := (ps.filter fun p => !isThisParameter p).length
  if isGet then
    if count != 0 then
      complain offset "A `get` accessor cannot have parameters"
  else
    if count != 1 then
      complain offset "A `set` accessor must have exactly one parameter"
    match ps with
    | p :: _ =>
      if isRestParameter p then
        complain p.span.start "Rest pattern is not allowed in setter"
    | [] => pure ()

/-- An asynchronous method, from what stands after `async`. -/
def asyncMember (grammar : Grammar) (head : MemberHead) (optional : Bool) : Parser Node := do
  let head ← do
    if (← modifier? [.kwOverride]).isSome then
      complain (← get).previous.start "'override' modifier must precede 'async' modifier."
      pure { head with isOverride := true }
    else
      pure head
  let isGenerator ← eat .star
  let name ← memberKey grammar
  if isConstructorKey name then
    failAt name.span.start "Constructor can't be an async function"
  if head.fixed.isSome then
    failAt head.offset readonlyMethod
  let optional ← (do return optional || (← eat .question))
  methodTail grammar head "method" name optional true isGenerator

/-- An accessor, from what stands after `get` or `set`. -/
def accessorMember (grammar : Grammar) (head : MemberHead) (word : Node) (optional : Bool) :
    Parser Node := do
  let name ← memberKey grammar
  if head.fixed.isSome then
    complain word.span.start "A getter or a setter cannot be readonly"
  if isConstructorKey name then
    complain word.span.start "Class constructor can't be an accessor"
  let isGet := isNamed "get" word
  methodTail grammar head (if isGet then "get" else "set") name optional false false
    (checkAccessor isGet word.span.start)

/-- A class member from its key on. -/
def memberFromKey (grammar : Grammar) (head : MemberHead) : Parser Node := do
  let key ← match head.fixed with
    | some span =>
      if (← at? .bang) || (← at? .colon) then
        pure (.mk (.name "readonly") span [])
      else
        memberKey grammar
    | none => memberKey grammar
  let optional ← eat .question
  if ← atMethod? then
    match head.declared with
    | some span =>
      complain span.start "`declare` modifier cannot appear on class elements of this kind"
    | none => pure ()
    if head.fixed.isSome then
      failAt head.offset readonlyMethod
    if isConstructorKey key then
      constructorTail grammar head key
    else
      methodTail grammar head "method" key optional false false
  else
    let here ← token
    let accessor := (isNamed "get" key || isNamed "set" key) && !(← atProperty? false)
      && !(here.afterBreak && here.kind == .punct .star)
    if !accessor && (← atProperty? true) then
      propertyTail grammar head key optional
    else if isNamed "async" key && !here.afterBreak then
      asyncMember grammar head optional
    else if accessor then
      accessorMember grammar head key optional
    else
      failUnexpected "* for generator, private key, identifier or async"

/-- A generator method, from what stands after the star. -/
def generatorMember (grammar : Grammar) (head : MemberHead) : Parser Node := do
  let key ← memberKey grammar
  if head.fixed.isSome then
    complain head.offset readonlyMethod
  if isConstructorKey key then
    complain key.span.start "Constructor can't be a generator"
  methodTail grammar head "method" key false false true

/-- What is wrong with a modifier after the words of a head, if anything. -/
def MemberHead.fault? (h : MemberHead) (hasParent : Bool) : Keyword → Option String
  | .kwAbstract =>
    if h.isAbstract then some "'abstract' modifier already seen."
    else if h.isOverride then some "'abstract' modifier must precede 'override' modifier."
    else none
  | .kwOverride =>
    if h.isOverride then some "'override' modifier already seen."
    else if h.fixed.isSome then some "'override' modifier must precede 'readonly' modifier."
    else if h.declared.isSome then
      some "'override' modifier cannot be used with 'declare' modifier."
    else if !hasParent then
      some ("This member cannot have an 'override' modifier because its containing class does "
        ++ "not extend another class.")
    else none
  | .kwReadonly => if h.fixed.isSome then some "'readonly' modifier already seen." else none
  | .kwStatic =>
    if h.isOverride then some "'static' modifier must precede 'override' modifier." else none
  | _ => none

/-- A head with one more modifier. -/
def MemberHead.add (h : MemberHead) (span : Span) (word : Keyword) : MemberHead :=
  let h := { h with lastModifier := some span }
  match word with
  | .kwAbstract => { h with isAbstract := true }
  | .kwOverride => { h with isOverride := true }
  | .kwReadonly => { h with fixed := some (h.fixed.getD span) }
  | .kwStatic => { h with isStatic := true }
  | _ => h

/-- Read modifiers that come in any order. -/
def memberModifiers : Nat → MemberHead → Parser MemberHead
  | 0, _ => exhausted
  | fuel + 1, head => do
    match ← modifier? [.kwAbstract, .kwReadonly, .kwOverride, .kwStatic] true with
    | none => return head
    | some word =>
      let span := (← get).previous
      match head.fault? (← read).hasParent word with
      | some message => complain span.start message
      | none => pure ()
      memberModifiers fuel (head.add span word)

/-- A member whose key is the word just read, which is a modifier elsewhere. -/
def memberNamedBy? (grammar : Grammar) (head : MemberHead) (name : String)
    (lineBreakEnds : Bool) : Parser (Option Node) := do
  let key : Node := .mk (.name name) (← get).previous []
  if ← atMethod? then
    some <$> methodTail grammar head "method" key false false false
  else if (← atProperty? lineBreakEnds) || (← at? .question) then
    let optional ← eat .question
    some <$> propertyTail grammar head key optional
  else
    return none

/-- The access modifier of a member. -/
def accessModifier? : Parser (Option Keyword) := do
  match ← modifier? [.kwPublic, .kwProtected, .kwPrivate, .kwIn, .kwOut] with
  | some .kwIn | some .kwOut =>
    let word := (← get).previous
    let text := if word.stop == word.start + 2 then "in" else "out"
    complain word.start
      ("'" ++ text ++ "' modifier can only appear on a type parameter of a class, interface or "
        ++ "type alias")
    return none
  | word => return word

/-- A class member after `declare`, its access, `static` and `accessor`. -/
def modifiedMember (grammar : Grammar) (head : MemberHead) : Parser Node := do
  let head ← memberModifiers (← remaining) head
  let head ← do
    if !head.isAccessor && (← eatWord .kwAccessor) then
      pure { head with isAccessor := true }
    else
      pure head
  let misplaced := "Modifiers cannot appear here"
  if head.isStatic && (← at? .lbrace) then
    match head.declared with
    | some span => complain span.start misplaced
    | none => pure ()
    if head.access.isSome then
      complain (← start) misplaced
    staticBlock grammar head.offset
  else if (← atWord? .kwStatic) && (← peekIs? .lbrace) then
    for span in head.lastModifier.toList ++ head.leadingStatic.toList do
      complain span.start misplaced
    advance
    staticBlock grammar head.offset
  else
    let indexed ← do
      if head.isAbstract || head.isOverride || head.access.isSome then pure false
      else atIndexSignature?
    if indexed then
      let parts ← indexSignature grammar
      let words := (if head.isStatic then ["static"] else [])
        ++ (if head.fixed.isSome then ["readonly"] else [])
      finish head.offset (.member (.index words)) parts
    else if ← eat .star then
      generatorMember grammar head
    else
      memberFromKey grammar head

/-- A class member after `declare` and its access. -/
def placedMember (grammar : Grammar) (head : MemberHead) : Parser Node := do
  let plain := { head with leadingStatic := none, isStatic := false }
  if ← eatWord .kwStatic then
    let span := (← get).previous
    match ← memberNamedBy? grammar plain "static" false with
    | some m => return m
    | none =>
      let head := { head with leadingStatic := some span, isStatic := true }
      if ← eatWord .kwAccessor then
        match ← memberNamedBy? grammar head "accessor" true with
        | some m => return m
        | none => modifiedMember grammar { head with isAccessor := true }
      else
        modifiedMember grammar head
  else if ← eatWord .kwAccessor then
    match ← memberNamedBy? grammar head "accessor" true with
    | some m => return m
    | none => modifiedMember grammar { head with isAccessor := true }
  else
    modifiedMember grammar head

/-- One member of a class. -/
def classMember (grammar : Grammar) : Parser Node := do
  let offset ← start
  let decorated ← decorators grammar
  let before ← eatWord .kwDeclare
  let early := (← get).previous
  let access ← accessModifier?
  let head : MemberHead := { offset := offset, decorated := decorated, access := access }
  let after ← if before then pure false else eatWord .kwDeclare
  if before || after then
    match ← memberNamedBy? grammar head "declare" true with
    | some m => return m
    | none =>
      let late := (← get).previous
      placedMember grammar { head with declared := some (if before then early else late) }
  else
    placedMember grammar head

/-! ## Classes -/

/-- Whether a member is a constructor with a body. -/
def isImplementedConstructor (m : Node) : Bool :=
  match m.form, m.parts with
  | .member (.constructor _), [_, _, body] => body.isPresent
  | _, _ => false

/-- Whether a member is an abstract method. -/
def isAbstractMethod (m : Node) : Bool :=
  match m.form with
  | .member (.method _ _ _ words) => words.contains "abstract"
  | _ => false

/-- Members up to and with the closing brace. -/
def classMembers (grammar : Grammar) (isAbstract : Bool) :
    Nat → Bool → List Node → Parser (List Node)
  | 0, _, _ => exhausted
  | fuel + 1, hasConstructor, done => do
    if ← eat .rbrace then
      return done.reverse
    let offset ← start
    if ← eat .semi then
      let empty ← finish offset (.member .empty) []
      classMembers grammar isAbstract fuel hasConstructor (empty :: done)
    else
      let m ← classMember grammar
      if isAbstractMethod m && !isAbstract then
        complain m.span.start "Abstract methods can only appear within an abstract class."
      let isConstructor := isImplementedConstructor m && !(← read).inDeclare
      if isConstructor && hasConstructor then
        complain m.span.start "A class can only have one constructor"
      classMembers grammar isAbstract fuel (hasConstructor || isConstructor) (m :: done)

/-- Whether a list of types in the head of a class or interface ends here. -/
def atHeritageEnd? : Parser Bool := do
  return (← at? .lbrace) || (← atWord? .kwImplements) || (← atWord? .kwExtends)

/-- Types that a class implements or an interface extends, separated by commas. -/
def heritage (grammar : Grammar) : Nat → List Node → Parser (List Node)
  | 0, _ => exhausted
  | fuel + 1, done => do
    if ← atHeritageEnd? then
      return done.reverse
    let item ← grammar .heritage
    if ← eat .comma then
      heritage grammar fuel (item :: done)
    else if ← atHeritageEnd? then
      return (item :: done).reverse
    else
      failExpected ","

/-- The parent of a class and its type arguments. -/
def parentClass (grammar : Grammar) : Parser (Node × Node) := do
  match ← grammar .leftHand with
  | .mk (.expr .instantiation) _ [inner, arguments] => return (inner, arguments)
  | other =>
    let arguments ← if ← at? .lt then some <$> typeArguments grammar else pure none
    return (other, .ofOption arguments)

/-- What a class extends and implements. -/
structure ClassHeritage where
  parent : Node
  arguments : Node
  implemented : List Node

/-- What a class extends and implements, from its first clause on. -/
def classHeritage (grammar : Grammar) : Parser ClassHeritage := do
  let (parent, arguments) ← do
    if ← eatWord .kwExtends then
      let found ← parentClass grammar
      if ← eat .comma then
        for other in ← heritage grammar (← remaining) [] do
          complain other.span.start "Classes can only extend a single class"
      pure found
    else
      pure (.absent, .absent)
  if ← eatWord .kwExtends then
    complain (← get).previous.start "'extends' clause already seen"
    discard (parentClass grammar)
  let implemented ← do
    if ← eatWord .kwImplements then heritage grammar (← remaining) [] else pure []
  if ← eatWord .kwImplements then
    complain (← get).previous.start "'implements' clause already seen"
    discard (heritage grammar (← remaining) [])
  if ← eatWord .kwExtends then
    complain (← get).previous.start "'extends' clause must precede 'implements' clause"
    discard (parentClass grammar)
  return ⟨parent, arguments, implemented⟩

/-- A class from its type parameters to its closing brace. -/
def classTail (grammar : Grammar) (offset : Nat) (decorated : List Node) (isAbstract : Bool) :
    Parser Node := do
  let generics ← typeParameters? grammar .ofClass
  let ⟨parent, arguments, implemented⟩ ← classHeritage grammar
  expect .lbrace
  let inside (c : Context) : Context :=
    { c with inClass := true, hasParent := parent.isPresent }
  let members ← within inside (do classMembers grammar isAbstract (← remaining) false [])
  finish offset (.classBody isAbstract)
    [.group decorated, .ofOption generics, parent, arguments, .group implemented, .group members]

/-- Names of built-in types, which no class or interface can have. -/
def isBuiltInName (name : String) : Bool :=
  ["string", "null", "number", "object", "any", "unknown", "boolean", "bigint", "symbol", "void",
    "never", "intrinsic"].contains name

/-- A class after the word `class`: its name and its node. -/
def namedClass (grammar : Grammar) (offset : Nat) (decorated : List Node)
    (isAbstract nameRequired : Bool) : Parser (Node × Node) := do
  let named ← do
    if nameRequired then
      pure true
    else
      pure (isReference (← read) (← token) && !(← atWord? .kwImplements))
  let name ← if named then declaredName true else pure .absent
  match name.form with
  | .name n => if isBuiltInName n then complain name.span.start "Invalid class name"
  | _ => pure ()
  let body ← classTail grammar offset decorated isAbstract
  return (name, body)

end Retouch.Syntax.Parser
