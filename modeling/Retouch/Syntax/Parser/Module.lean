import Retouch.Syntax.Parser.Statement

/-!
# Imports, exports and whole documents

- `moduleItem`: an import, an export or a statement.
- `parseGoal`: the grammar, tied together.
- `parse`: the syntax tree of a text, or its first fault.
-/

namespace Retouch.Syntax.Parser

/-- A name in an import or export list, which may be a string. -/
def exportedName : Parser Node := do
  match (← token).kind with
  | .string _ => stringLiteral
  | _ => anyName

/-- What tells the names of an import from those of an export. -/
structure ListRules where
  /-- the word `type` stands before the whole list -/
  typeOnly : Bool
  /-- the complaint about a second `type` -/
  doubled : String
  /-- how a new name is read -/
  renamed : Parser Node

/-- A name of a list after what has been read of it. -/
def listedName (offset : Nat) (isType : Bool) (name renamed : Node) : Parser Node :=
  finish offset (.other (if isType then "type specifier" else "specifier")) [name, renamed]

/-- A name after `type`, which is itself a name if only `as` and another name follow it. The flag
tells whether what follows is still to be read. -/
def typedName (rules : ListRules) (offset : Nat) (word : Node) :
    Parser (Node × Bool × Bool) := do
  let refuse : Parser Unit := do
    if rules.typeOnly then
      complain word.span.start rules.doubled
  let name ← anyName
  if !isNamed "as" name then
    refuse
    return (name, true, true)
  if !(← atAnyWord?) then
    refuse
    return (← listedName offset true name .absent, true, false)
  let second ← rules.renamed
  if isNamed "as" second && (← atAnyWord?) then
    let renamed ← rules.renamed
    refuse
    return (← listedName offset true name renamed, true, false)
  return (← listedName offset false word second, false, false)

/-- One name of an import list. -/
def importedName (typeOnly : Bool) : Parser Node := do
  let offset ← start
  let rules : ListRules := ⟨typeOnly, "The 'type' modifier cannot be used on a named import when "
    ++ "'import type' is used on its import statement.", declaredName false⟩
  let first ← exportedName
  let (name, isType, more) ← do
    if isNamed "type" first && (← atAnyWord?) then typedName rules offset first
    else pure (first, false, true)
  if !more then
    return name
  if ← eatWord .kwAs then
    listedName offset isType name (← declaredName false)
  else
    match name.form with
    | .name text =>
      match Keyword.ofText? text with
      | some k =>
        if k.isReservedInModule then
          failAt name.span.start "cannot import as reserved word"
      | none => pure ()
    | .expr (.string value) =>
      failAt name.span.start ("A string literal cannot be used as an imported binding.\n"
        ++ "- Did you mean `import \x7b " ++ quotedValue value ++ " as foo \x7d`?")
    | _ => pure ()
    listedName offset isType name .absent

/-- One name of an export list. -/
def namedExport (typeOnly : Bool) : Parser Node := do
  let offset ← start
  let rules : ListRules := ⟨typeOnly, "The 'type' modifier cannot be used on a named export when "
    ++ "'export type' is used on its export statement.", anyName⟩
  let first ← exportedName
  let (name, isType, more) ← do
    if isNamed "type" first && (← atAnyWord?) then typedName rules offset first
    else pure (first, false, true)
  if !more then
    return name
  let renamed ← if ← eatWord .kwAs then exportedName else pure .absent
  listedName offset isType name renamed

/-- Names up to and with the closing brace. -/
def listedNames (item : Parser Node) : Nat → List Node → Parser (List Node)
  | 0, _ => exhausted
  | fuel + 1, done => do
    if ← eat .rbrace then
      return done.reverse
    let s ← item
    if !(← at? .rbrace) then
      expect .comma
    listedNames item fuel (s :: done)

/-- The module that is named after `from`. -/
def fromClause : Parser Node := do
  expectWord .kwFrom
  stringLiteral

/-- The attributes of an import on the same line, if there are any. -/
def importAttributes (grammar : Grammar) : Parser Node := do
  if ← afterBreak? then
    return .absent
  if (← eatWord .kwWith) || (← eatWord .kwAssert) then
    objectLiteral grammar
  else
    return .absent

/-- What an import is given as another name for. -/
def moduleReference : Parser Node := do
  let offset ← start
  if (← atWord? .kwRequire) && (← peekIs? .lparen) then
    advance
    expect .lparen
    let source ← stringLiteral
    expect .rparen
    finish offset (.other "require") [source]
  else
    entityName

/-- An import under another name, from its equals sign on. -/
def importEquals (offset : Nat) (exported typeOnly : Bool) (name : Node) : Parser Node := do
  expect .eq
  let reference ← moduleReference
  expectSemicolon
  finish offset (.moduleItem (.importEquals exported typeOnly)) [name, reference]

/-- What an import statement starts with, before its list of names. -/
structure ImportHead where
  typeOnly : Bool := false
  phase : ImportPhase := .evaluation
  /-- the name of the default export here -/
  default : Option Node := none

/-- The name of the default export, with the words before it. Words that mark the import are names
themselves if no other name follows. -/
def importHead : Parser ImportHead := do
  if !isReference (← read) (← token) then
    return {}
  let first ← declaredName false
  let atList := (← at? .star) || (← at? .lbrace)
  let atName := isReference (← read) (← token)
  let atFrom ← atWord? .kwFrom
  let next ← peek
  let fromNext := keywordOf? next == some .kwFrom
  if isNamed "type" first then
    if atList then
      return { typeOnly := true }
    if atName && (!atFrom || fromNext || next.kind == .punct .eq) then
      let name ← declaredName false
      return { typeOnly := true, default := some name }
    return { default := some first }
  else if (isNamed "source" first || isNamed "defer" first) && !(← at? .eq) then
    let phase : ImportPhase := if isNamed "source" first then .source else .defer
    if atList then
      return { phase := phase }
    if atName && !atFrom || fromNext then
      let name ← declaredName false
      return { phase := phase, default := some name }
    return { default := some first }
  else
    return { default := some first }

/-- Imported names from the star or brace on. -/
def importList (head : ImportHead) : Parser (List Node) := do
  let offset ← start
  if head.phase != .source && (← eat .star) then
    expectWord .kwAs
    let name ← declaredName false
    return [← finish offset (.other "namespace") [name]]
  else if head.phase == .evaluation && (← eat .lbrace) then
    listedNames (importedName head.typeOnly) (← remaining) []
  else
    return []

/-- An import from the word `import` on. -/
def importItem (grammar : Grammar) : Parser Node := do
  let offset ← start
  expectWord .kwImport
  match (← token).kind with
  | .string _ =>
    let source ← stringLiteral
    let attributes ← importAttributes grammar
    discard eatSemicolon
    finish offset (.moduleItem (.importDecl false .evaluation)) [.group [], source, attributes]
  | _ =>
    let head ← importHead
    match head.default, ← at? .eq with
    | some name, true => importEquals offset false head.typeOnly name
    | _, _ =>
      let defaults ← match head.default with
        | some name => do
          if !(← atWord? .kwFrom) then
            expect .comma
          pure [.mk (.other "default") name.span [name]]
        | none => pure []
      let more ← importList head
      let source ← fromClause
      let attributes ← importAttributes grammar
      expectSemicolon
      finish offset (.moduleItem (.importDecl head.typeOnly head.phase))
        [.group (defaults ++ more), source, attributes]

/-- The module that names are exported from, its attributes, and the end of the statement. -/
def exportSource (grammar : Grammar) : Parser (Node × Node) := do
  let source ← fromClause
  let attributes ← importAttributes grammar
  discard eatSemicolon
  return (source, attributes)

/-- Complain about exported names that only another module can have. -/
def checkExported (names : List Node) : Parser Unit := do
  for n in names do
    match n.parts with
    | .mk (.name text) span _ :: _ =>
      match Keyword.ofText? text with
      | some k =>
        if k.isReserved || k == .kwPackage then
          complain span.start ("`" ++ text ++ "` cannot be used without `from` clause")
      | none => pure ()
    | .mk (.expr (.string _)) span _ :: _ =>
      complain span.start
        "A string literal cannot be used as an exported binding without `from`."
    | _ => pure ()

/-- An exported list of names. -/
def exportList (grammar : Grammar) (offset : Nat) (typeOnly : Bool) : Parser Node := do
  expect .lbrace
  let names ← listedNames (namedExport typeOnly) (← remaining) []
  if ← atWord? .kwFrom then
    let (source, attributes) ← exportSource grammar
    finish offset (.moduleItem (.exportNamed typeOnly)) [.group names, source, attributes]
  else
    checkExported names
    discard eatSemicolon
    finish offset (.moduleItem (.exportNamed typeOnly)) [.group names, .absent, .absent]

/-- An export of everything in a module. -/
def exportStar (grammar : Grammar) (offset : Nat) (typeOnly : Bool) : Parser Node := do
  let star ← start
  expect .star
  if ← eatWord .kwAs then
    let name ← exportedName
    let all ← finish star (.other "namespace") [name]
    let (source, attributes) ← exportSource grammar
    finish offset (.moduleItem (.exportNamed typeOnly)) [.group [all], source, attributes]
  else
    let (source, attributes) ← exportSource grammar
    finish offset (.moduleItem (.exportAll typeOnly)) [source, attributes]

/-- Decorators after `export` or `default`, or those that stood before. -/
def decoratorsAfter (grammar : Grammar) (before : List Node) : Parser (List Node) := do
  let offset ← start
  let after ← decorators grammar
  if after.isEmpty then
    return before
  if !before.isEmpty then
    failAt offset ("Decorators may not appear after `export` or `export default` if they also "
      ++ "appear before `export`.")
  return after

/-- The default export, from what stands after `default`. -/
def exportDefault (grammar : Grammar) (offset : Nat) (before : List Node) : Parser Node := do
  let decorated ← decoratorsAfter grammar before
  let inner ← start
  let next ← peek
  let sameLine := !next.afterBreak
  match ← keyword?, keywordOf? next with
  | some .kwAbstract, some .kwClass =>
    if sameLine then
      advance
      advance
      let (name, body) ← namedClass grammar inner decorated true false
      finish offset (.moduleItem .exportDefaultDecl) [name, body]
    else
      expressionExport
  | some .kwInterface, _ =>
    advance
    let declared ← interfaceTail grammar inner false
    match declared.parts with
    | [name, generics, extended, elements] =>
      return .mk (.moduleItem .exportDefaultInterface) ⟨offset, declared.span.stop⟩
        [name, elements, generics, extended]
    | _ => fail "Expected ident"
  | some .kwClass, _ =>
    advance
    let (name, body) ← namedClass grammar inner decorated false false
    finish offset (.moduleItem .exportDefaultDecl) [name, body]
  | some .kwAsync, some .kwFunction =>
    if sameLine then
      advance
      advance
      let (name, function) ← namedFunction grammar inner true false false
      finish offset (.moduleItem .exportDefaultDecl) [name, function]
    else
      expressionExport
  | some .kwFunction, _ =>
    advance
    let (name, function) ← namedFunction grammar inner false false false
    finish offset (.moduleItem .exportDefaultDecl) [name, function]
  | _, _ => expressionExport
where
  /-- An expression as the default export. -/
  expressionExport : Parser Node := do
    let e ← within Context.withIn (grammar .assignment)
    expectSemicolon
    finish offset (.moduleItem .exportDefaultExpr) [e]

/-- An export that only has a meaning for types or for whole modules, if one stands here. -/
def typeExport? (grammar : Grammar) (offset : Nat) (decorated : List Node) :
    Parser (Option Node) := do
  let inner ← start
  let ambient ← do
    if ← eatWord .kwDeclare then ambientDeclaration? grammar inner decorated else pure none
  let found ← match ambient with
    | some d => pure (some d)
    | none => attempt do
      let inner ← start
      nextTypeDeclaration? grammar inner decorated false
  match found with
  | some d => some <$> finish offset (.moduleItem .exportDecl) [d]
  | none =>
    if ← eatWord .kwImport then
      let typeOnly := (← atWord? .kwType) && isReference (← read) (← peek)
      if typeOnly then
        advance
      let name ← anyName
      some <$> importEquals offset true typeOnly name
    else if ← eat .eq then
      let e ← grammar .expression
      expectSemicolon
      some <$> finish offset (.moduleItem .exportAssign) [e]
    else if ← eatWord .kwAs then
      expectWord .kwNamespace
      let name ← identifier
      expectSemicolon
      some <$> finish offset (.moduleItem .exportNamespace) [name]
    else
      return none

/-- Exported names, or everything, from the star or brace on. -/
def exportNames (grammar : Grammar) (offset : Nat) (typeOnly : Bool) : Parser Node := do
  if ← at? .star then exportStar grammar offset typeOnly else exportList grammar offset typeOnly

/-- An export from the word `export` on, after decorators. -/
def exportItem (grammar : Grammar) (before : List Node) : Parser Node := do
  let offset ← start
  expectWord .kwExport
  match ← typeExport? grammar offset before with
  | some item => return item
  | none =>
    let typeOnly ← eatWord .kwType
    if !typeOnly && (← eatWord .kwDefault) then
      exportDefault grammar offset before
    else
      let decorated ← decoratorsAfter grammar before
      let inner ← start
      let found ← do
        if typeOnly then pure none else valueDeclaration? grammar inner decorated
      match found with
      | some d => finish offset (.moduleItem .exportDecl) [d]
      | none => exportNames grammar offset typeOnly

/-- An import, an export or a statement. -/
def moduleItem (grammar : Grammar) : Parser Node := do
  let offset ← start
  let decorated ← decorators grammar
  match ← keyword? with
  | some .kwImport =>
    let next ← peek
    if next.kind == .punct .lparen || next.kind == .punct .dot then
      importStatement grammar
    else
      importItem grammar
  | some .kwExport => exportItem grammar decorated
  | _ => plainStatement grammar true offset decorated

/-! ## The whole grammar -/

/-- One level of the grammar over the levels below it. -/
def goal (grammar : Grammar) : Goal → Parser Node
  | .expression => expression grammar
  | .assignment => assignment grammar
  | .binary => binary grammar
  | .binaryAfter left => do binaryRest grammar (← remaining) 0 left
  | .unary => unary grammar
  | .leftHand => leftHand grammar
  | .newOrMember => newOrMember grammar
  | .statement withDeclarations => statement grammar withDeclarations
  | .moduleItem => moduleItem grammar
  | .binding => bindingTarget grammar false
  | .type => typeExpr grammar
  | .decorator => decorator grammar
  | .heritage => heritageItem grammar
  | .jsx nested => element grammar nested

/-- The grammar to a given depth. -/
def parseGoal : Nat → Grammar
  | 0, _ => exhausted
  | depth + 1, g => goal (parseGoal depth) g

/-- Module items up to the end of the text. -/
def items (grammar : Grammar) : Nat → List Node → Parser (List Node)
  | 0, _ => exhausted
  | fuel + 1, done => do
    if ← atEnd? then
      return done.reverse
    let item ← grammar .moduleItem
    items grammar fuel (item :: done)

/-- A whole document. -/
def program (length : Nat) : Parser Node := do
  let found ← items (parseGoal (4 * length + 8)) (length + 2) []
  return .mk .program ⟨0, length⟩ found

/-- The place where the first token is looked for: a line that starts with `#!` is skipped. -/
def firstPlace (text : Text) : Place :=
  match text with
  | '#' :: '!' :: _ => skipLine text 0
  | _ => ⟨text, 0⟩

end Parser

open Retouch.Syntax.Parser in
/-- The syntax tree of a text, or its first fault. A fault that cannot be passed over comes before
those that can. -/
def parse (dialect : Dialect) (text : Text) : Except SyntaxError Node :=
  let place := firstPlace text
  let empty : Token := ⟨.eof, place.offset, place.offset, false⟩
  let cursor : Cursor := ⟨empty, place, place, ⟨place.offset, place.offset⟩, none, [], []⟩
  let whole : Parser Node := do
    load place false
    program text.size
  match (whole { dialect := dialect }).run cursor with
  | (.error e, _) => .error e
  | (.ok tree, after) =>
    match after.notes.getLast? with
    | some e => .error e
    | none => .ok tree

end Retouch.Syntax
