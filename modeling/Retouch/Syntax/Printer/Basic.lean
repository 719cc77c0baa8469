import Retouch.Syntax.Printer.Pen

/-!
# Printing syntax trees

A tree is printed in one uniform layout: a statement per line, four spaces per level, arrays and
objects broken into lines, comments left out. Literals are printed as they were written.

- `printNode`: print a node, to a given depth.
- `Node.print`: the text of a whole document.
-/

namespace Retouch.Syntax

mutual

/-- Height of a tree. -/
def Node.height : Node → Nat
  | .mk _ _ parts => 1 + heightOf parts

/-- Height of the highest of several trees. -/
def heightOf : List Node → Nat
  | [] => 0
  | n :: rest => max n.height (heightOf rest)

end

namespace Printer

open Pen

/-- How the parts of a node are printed. -/
abbrev Emit := Node → Pen

/-- The text that a node was read from. -/
def asWritten (source : Text) (n : Node) : Pen :=
  match Text.slice? source n.span.start n.span.stop with
  | some text => writeText text
  | none => pure ()

/-- Print a part if it is there. -/
def optionally (n : Node) (p : Pen) : Pen :=
  if n.isPresent then p else pure ()

/-- A part with a text before it, if it is there. -/
def after (text : String) (emit : Emit) (n : Node) : Pen :=
  optionally n do
    write text
    emit n

/-- Statements in braces; none stay on one line. -/
def braced (emit : Emit) (statements : List Node) : Pen := do
  write "\x7b"
  if !statements.isEmpty then
    line
    deeper (all (statements.map fun s => do emit s; line))
  write "\x7d"

/-- Items in braces, one per line; none still make an empty line. -/
def bracedLines (emit : Emit) (items : List Node) : Pen := do
  write "\x7b"
  brokenList "" (items.map emit)
  write "\x7d"

/-- Whether a statement is a block. -/
def isBlock (n : Node) : Bool :=
  match n.form with
  | .stmt .block | .block => true
  | _ => false

/-- A conditional statement. -/
def ifElse (emit : Emit) (test yes no : Node) : Pen := do
  write "if ("
  emit test
  write ") "
  let isNested := match yes.form with
    | .stmt .ifElse => no.isPresent
    | _ => false
  if isNested then
    write "\x7b"
    line
    deeper (emit yes)
    line
    write "\x7d"
  else
    emit yes
  optionally no do
    if isBlock yes || isNested then
      write " "
    write "else "
    emit no

/-- Words before a declaration. -/
def ambientWord (ambient : Bool) : Pen :=
  if ambient then write "declare " else pure ()

/-- The word that declares variables. -/
def varWord : VarKind → String
  | .varWord => "var "
  | .letWord => "let "
  | .constWord => "const "

/-- A function from its type parameters on. -/
def functionTail (emit : Emit) (function : Node) : Pen :=
  match function.parts with
  | [_, generics, ps, result, body] => do
    emit generics
    write "("
    commaList (ps.parts.map emit)
    write ")"
    after ": " emit result
    if body.isPresent then
      write " "
      emit body
    else
      write ";"
  | _ => pure ()

/-- The words before a function's name. -/
def functionWords (function : Node) : Pen :=
  match function.form with
  | .function isAsync isGenerator => do
    if isAsync then write "async "
    write (if isGenerator then "function*" else "function")
  | _ => pure ()

/-- A function with its name. -/
def namedFunction (emit : Emit) (name function : Node) : Pen := do
  functionWords function
  after " " emit name
  functionTail emit function

/-- Decorators, each on a line of its own. -/
def decorators (emit : Emit) (decorated : List Node) : Pen :=
  all (decorated.map fun d => do emit d; line)

/-- The decorators of a class. -/
def classDecorators (emit : Emit) (body : Node) : Pen :=
  match body.form, body.parts with
  | .classBody _, decorated :: _ => decorators emit decorated.parts
  | _, _ => pure ()

/-- A class with its name, without its decorators. -/
def plainClass (emit : Emit) (name body : Node) : Pen :=
  match body.form, body.parts with
  | .classBody isAbstract, [_, generics, parent, arguments, implemented, members] => do
    if isAbstract then write "abstract "
    write "class"
    after " " emit name
    emit generics
    after " extends " emit parent
    emit arguments
    if !implemented.parts.isEmpty then
      write " implements "
      commaList (implemented.parts.map emit)
    write " "
    bracedLines emit members.parts
  | _, _ => pure ()

/-- A class with its name. -/
def namedClass (emit : Emit) (name body : Node) : Pen := do
  classDecorators emit body
  plainClass emit name body

/-- A declaration, without the semicolon after variables. -/
def declaration (emit : Emit) (d : DeclForm) (parts : List Node) : Pen :=
  match d, parts with
  | .classDecl ambient, [name, body] => do
    ambientWord ambient
    namedClass emit name body
  | .function ambient, [name, function] => do
    ambientWord ambient
    namedFunction emit name function
  | .var kind ambient, declarators => do
    ambientWord ambient
    write (varWord kind)
    commaList (declarators.map emit)
  | .usingVars awaiting, declarators => do
    if awaiting then write "await "
    write "using "
    commaList (declarators.map emit)
  | .interface ambient, [name, generics, extended, elements] => do
    ambientWord ambient
    write "interface "
    emit name
    emit generics
    if !extended.parts.isEmpty then
      write " extends "
      commaList (extended.parts.map emit)
    write " "
    bracedLines emit elements.parts
  | .typeAlias ambient, [name, generics, type] => do
    ambientWord ambient
    write "type "
    emit name
    emit generics
    write " = "
    emit type
    write ";"
  | .enum isConst ambient, name :: members => do
    ambientWord ambient
    if isConst then write "const "
    write "enum "
    emit name
    write " \x7b"
    brokenList "," (members.map emit)
    write "\x7d"
  | .namespaceDecl ambient form, [name, body] => do
    ambientWord ambient
    match form with
    | .named => write "namespace "
    | .quoted => write "module "
    | .globalScope => pure ()
    emit name
    optionally body do
      write " "
      bracedLines emit body.parts
  | _, _ => pure ()

/-- Whether a declaration ends with a semicolon of the statement. -/
def endsWithSemicolon : DeclForm → Bool
  | .var _ _ | .usingVars _ => true
  | _ => false

/-- A case of a switch. -/
def switchCase (emit : Emit) (test : Node) (body : List Node) : Pen := do
  if test.isPresent then
    write "case "
    emit test
  else
    write "default"
  write ":"
  if !body.isEmpty then
    line
    deeper (all (body.map fun s => do emit s; line))

/-- A word with an optional operand, as a statement. -/
def wordStatement (emit : Emit) (word : String) (operand : Node) : Pen := do
  write word
  after " " emit operand
  write ";"

/-- A statement. -/
def statement (emit : Emit) (form : StmtForm) (parts : List Node) : Pen :=
  match form, parts with
  | .block, statements => braced emit statements
  | .empty, _ => write ";"
  | .debugger, _ => write "debugger;"
  | .withStmt, [object, body] => do
    write "with("
    emit object
    write ")"
    emit body
  | .returnStmt, [value] => wordStatement emit "return" value
  | .throwStmt, [value] => wordStatement emit "throw" value
  | .breakStmt, [label] => wordStatement emit "break" label
  | .continueStmt, [label] => wordStatement emit "continue" label
  | .labeled, [label, body] => do
    emit label
    write ": "
    emit body
  | .ifElse, [test, yes, no] => ifElse emit test yes no
  | .switchStmt, discriminant :: cases => do
    write "switch("
    emit discriminant
    write ")"
    bracedLines emit cases
  | .tryStmt, [body, handler, final] => do
    write "try "
    emit body
    after " " emit handler
    after " finally" emit final
  | .whileLoop, [test, body] => do
    write "while("
    emit test
    write ")"
    emit body
  | .doWhileLoop, [body, test] => do
    write "do "
    emit body
    write "while ("
    emit test
    write ")"
  | .forLoop, [head, test, update, body] => do
    write "for("
    emit head
    write ";"
    after " " emit test
    write ";"
    after " " emit update
    write ")"
    emit body
  | .forInLoop, [head, object, body] => do
    write "for("
    emit head
    write " in "
    emit object
    write ")"
    emit body
  | .forOfLoop awaiting, [head, object, body] => do
    write (if awaiting then "for await (" else "for(")
    emit head
    write " of "
    emit object
    write ")"
    emit body
  | .declaration d, parts => do
    declaration emit d parts
    if endsWithSemicolon d then write ";"
  | .expression, [e] => do
    emit e
    write ";"
  | _, _ => pure ()

/-- Whether a sign has to be kept apart from the operand after it. -/
def keepsApart (op : UnaryOp) (operand : Node) : Bool :=
  match op, operand.form with
  | .plus, .expr (.unary .plus) | .minus, .expr (.unary .minus) => true
  | .plus, .expr (.update true true) | .minus, .expr (.update false true) => true
  | _, _ => false

/-- Whether a unary operator is a word. -/
def isWordOp : UnaryOp → Bool
  | .typeOf | .void | .delete => true
  | _ => false

/-- The arguments of a call. -/
def arguments (emit : Emit) (args : Node) : Pen := do
  write "("
  commaList (args.parts.map emit)
  write ")"

/-- A member after its object. -/
def memberTail (emit : Emit) (name : Node) (optional : Bool) : Pen :=
  match name.form with
  | .computed => do
    if optional then write "?."
    emit name
  | _ => do
    write (if optional then "?." else ".")
    emit name

/-- Pieces and substitutions of a template. -/
def templateParts (emit : Emit) (parts : List Node) : Pen := do
  write "`"
  all (parts.map fun p =>
    match p.form with
    | .quasi raw => write raw
    | _ => do
      write "$\x7b"
      emit p
      write "\x7d")
  write "`"

/-- Whether a list ends with a hole. -/
def endsWithHole (elements : List Node) : Bool :=
  match elements.getLast? with
  | some last => !last.isPresent
  | none => false

/-- The parts of a list; a hole at its end has a comma of its own. -/
def withHoles (emit : Emit) (elements : List Node) : List Pen :=
  let items := elements.map emit
  if endsWithHole elements then
    items.dropLast ++ [write ", "]
  else
    items

/-- Items in brackets of some kind, one per line, or nothing between the brackets. -/
def brokenIn (opening closing : String) (items : List Pen) : Pen := do
  write opening
  if !items.isEmpty then
    brokenList "," items
  write closing

/-- Whether a number is written with digits only, so that a point after it would belong to it. -/
def isPlainNumber (source : Text) (n : Node) : Bool :=
  match n.form with
  | .expr (.number _) =>
    match Text.slice? source n.span.start n.span.stop with
    | some text => text.all fun c => c.isDigit || c == '_'
    | none => false
  | _ => false

/-- What stands between the tags of an element. -/
def child (emit : Emit) (n : Node) : Pen :=
  match n with
  | .mk (.other "container") _ parts => do
    write "\x7b"
    all (parts.map emit)
    write "\x7d"
  | .mk (.other "spread") _ parts => do
    write "\x7b..."
    all (parts.map emit)
    write "\x7d"
  | .mk (.other text) _ _ => writeText (text.toList.drop 5)
  | n => emit n

/-- An attribute of an element. -/
def tagAttribute (emit : Emit) (n : Node) : Pen :=
  match n with
  | .mk (.other "attribute") _ [name, value] => do
    emit name
    optionally value do
      write "="
      child emit value
  | .mk .spread _ [e] => do
    write "\x7b..."
    emit e
    write "\x7d"
  | n => emit n

/-- An expression. -/
def expression (source : Text) (emit : Emit) (whole : Node) (form : ExprForm)
    (parts : List Node) : Pen :=
  match form, parts with
  | .this, _ => write "this"
  | .ident name, _ => write name
  | .privateRef name, _ => write ("#" ++ name)
  | .array, elements => brokenIn "[" "]" (withHoles emit elements)
  | .object, properties => brokenIn "\x7b" "\x7d" (properties.map emit)
  | .function, [name, function] => namedFunction emit name function
  | .classExpr, [name, body] => namedClass emit name body
  | .unary op, [operand] => do
    write op.text
    if isWordOp op || keepsApart op operand then write " "
    emit operand
  | .update increment true, [operand] => do
    write (if increment then "++" else "--")
    emit operand
  | .update increment false, [operand] => do
    emit operand
    write (if increment then "++" else "--")
  | .binary op, [left, right] => do
    emit left
    write (" " ++ op.text ++ " ")
    emit right
  | .assign op, [target, value] => do
    emit target
    write (" " ++ op ++ " ")
    emit value
  | .member, [object, name] => do
    emit object
    if isPlainNumber source object && name.form != .computed then
      write "."
    memberTail emit name false
  | .superMember, [name] => do
    write "super"
    memberTail emit name false
  | .optionalMember optional, [object, name] => do
    emit object
    memberTail emit name optional
  | .conditional, [test, yes, no] => do
    emit test
    write " ? "
    emit yes
    write " : "
    emit no
  | .call, [callee, types, args] => do
    emit callee
    emit types
    arguments emit args
  | .optionalCall optional, [callee, _, args] => do
    emit callee
    if optional then write "?."
    arguments emit args
  | .newExpr, [callee, types, args] => do
    write "new "
    emit callee
    emit types
    optionally args (arguments emit args)
  | .sequence, items => commaList (items.map emit)
  | .template, pieces => templateParts emit pieces
  | .tagged, [tag, types, pieces] => do
    emit tag
    emit types
    templateParts emit pieces.parts
  | .arrow isAsync, [generics, ps, result, body] => do
    if isAsync then write "async "
    emit generics
    write "("
    commaList (ps.parts.map emit)
    write ")"
    optionally result do
      write ": "
      emit result
      write " "
    write "=>"
    emit body
  | .yieldExpr delegate, [value] => do
    write (if delegate then "yield*" else "yield")
    after " " emit value
  | .awaitExpr, [value] => do
    write "await "
    emit value
  | .paren, [inner] => do
    write "("
    emit inner
    write ")"
  | .asType, [e, type] => do
    emit e
    write " as "
    emit type
  | .asConst, [e] => do
    emit e
    write " as const"
  | .satisfies, [e, type] => do
    emit e
    write " satisfies "
    emit type
  | .nonNull, [e] => do
    emit e
    write "!"
  | .typeAssertion, [type, e] => do
    write "<"
    emit type
    write ">"
    emit e
  | .instantiation, [e, types] => do
    emit e
    emit types
  | .newTarget, _ => write "new.target"
  | .importMeta, _ => write "import.meta"
  | .jsxElement, [name, types, attributes, children] => do
    write "<"
    emit name
    emit types
    all (attributes.parts.map fun a => do write " "; tagAttribute emit a)
    if children.isPresent then
      write ">"
      all (children.parts.map (child emit))
      write "</"
      emit name
      write ">"
    else
      write "/>"
  | .jsxFragment, [children] => do
    write "<>"
    all (children.parts.map (child emit))
    write "</>"
  | _, _ => asWritten source whole

/-- A property of an object literal. -/
def property (emit : Emit) (form : PropertyForm) (parts : List Node) : Pen :=
  match form, parts with
  | .shorthand name, _ => write name
  | .keyValue, [key, value] => do
    emit key
    write ": "
    emit value
  | .assign, [key, value] => do
    emit key
    write " = "
    emit value
  | .getter, [key, _, body] => do
    write "get "
    emit key
    write " () "
    emit body
  | .setter, [key, ps, body] => do
    write "set "
    emit key
    write " "
    arguments emit ps
    emit body
  | .method, [key, function] => do
    match function.form with
    | .function isAsync isGenerator => do
      if isAsync then write "async "
      if isGenerator then write "*"
    | _ => pure ()
    emit key
    write " "
    functionTail emit function
  | _, _ => pure ()

/-- Words before a member, and the marks after its key. -/
def memberWords (isStatic : Bool) (modifiers : List String) : Pen := do
  let words := modifiers.filter fun w => w != "?" && w != "!"
  let (early, late) := words.partition fun w =>
    w == "declare" || w == "public" || w == "protected" || w == "private"
  all (early.map fun w => write (w ++ " "))
  if isStatic then write "static "
  all (late.map fun w => write (w ++ " "))

/-- The mark after a member's key. -/
def memberMark (modifiers : List String) : Pen := do
  if modifiers.contains "?" then write "?"
  if modifiers.contains "!" then write "!"

/-- A property of a class. -/
def classProperty (emit : Emit) (isStatic : Bool) (modifiers : List String) (parts : List Node) :
    Pen :=
  match parts with
  | [key, type, value, decorated] => do
    decorators emit decorated.parts
    memberWords isStatic modifiers
    emit key
    memberMark modifiers
    after ": " emit type
    after " = " emit value
    write ";"
  | _ => pure ()

/-- A member of a class. -/
def member (emit : Emit) (form : MemberForm) (parts : List Node) : Pen :=
  match form, parts with
  | .constructor modifiers, [_, ps, body] => do
    all (modifiers.map fun w => write (w ++ " "))
    write "constructor("
    commaList (ps.parts.map emit)
    write ")"
    if body.isPresent then emit body else write ";"
  | .method kind isStatic _ modifiers, [key, function] => do
    match function.parts with
    | decorated :: _ => decorators emit decorated.parts
    | [] => pure ()
    memberWords isStatic modifiers
    if kind != "method" then write (kind ++ " ")
    match function.form with
    | .function isAsync isGenerator => do
      if isAsync then write "async "
      if isGenerator then write "*"
    | _ => pure ()
    emit key
    memberMark modifiers
    functionTail emit function
  | .property isStatic _ modifiers, parts => classProperty emit isStatic modifiers parts
  | .autoAccessor isStatic _ modifiers, parts => classProperty emit isStatic modifiers parts
  | .staticBlock, [body] => do
    write "static"
    emit body
  | .index modifiers, [name, type] => do
    all (modifiers.map fun w => write (w ++ " "))
    write "["
    emit name
    write "]"
    after ": " emit type
    write ";"
  | .empty, _ => write ";"
  | _, _ => pure ()

/-- A binding pattern or assignment target. -/
def pattern (emit : Emit) (form : PatternForm) (parts : List Node) : Pen :=
  let mark (optional : Bool) : Pen := if optional then write "?" else pure ()
  match form, parts with
  | .ident name optional, [type] => do
    write name
    mark optional
    after ": " emit type
  | .array optional, [elements, type] => do
    write "["
    commaList (withHoles emit elements.parts)
    write "]"
    mark optional
    after ": " emit type
  | .object optional, [properties, type] => do
    if properties.parts.isEmpty then
      write "\x7b\x7d"
    else
      write "\x7b "
      commaList (properties.parts.map emit)
      write " \x7d"
    mark optional
    after ": " emit type
  | .assign, [target, value] => do
    emit target
    write " = "
    emit value
  | .rest, [target, type] => do
    write "..."
    emit target
    after ": " emit type
  | .keyValue, [key, value] => do
    emit key
    write ": "
    emit value
  | .shorthand name, [value] => do
    write name
    after " = " emit value
  | .expr, [e] => emit e
  | _, _ => pure ()

/-- An element of an interface or a type literal. -/
def typeElement (emit : Emit) (form : ElementForm) (parts : List Node) : Pen :=
  match form, parts with
  | .property isReadonly optional, [key, type] => do
    if isReadonly then write "readonly "
    emit key
    if optional then write "?"
    after ": " emit type
    write ";"
  | .method optional, [key, generics, ps, result] => do
    emit key
    if optional then write "?"
    emit generics
    arguments emit ps
    after ": " emit result
    write ";"
  | .index isReadonly, [name, type] => do
    if isReadonly then write "readonly "
    write "["
    emit name
    write "]"
    after ": " emit type
    write ";"
  | .call, [generics, ps, result] => do
    emit generics
    arguments emit ps
    after " : " emit result
    write ";"
  | .construct, [generics, ps, result] => do
    write "new"
    emit generics
    arguments emit ps
    after ": " emit result
    write ";"
  | .getter, [key, type] => do
    write "get "
    emit key
    write "()"
    after ": " emit type
    write ";"
  | .setter, [key, ps] => do
    write "set "
    emit key
    arguments emit ps
    write ";"
  | _, _ => pure ()

/-- A mark of a mapped type with its sign. -/
def mappedMark (sign mark : String) : Pen :=
  if sign == "" then pure ()
  else if sign == "yes" then write mark
  else write (sign ++ mark)

/-- A type. -/
def type (source : Text) (emit : Emit) (whole : Node) (form : TypeForm) (parts : List Node) : Pen :=
  match form, parts with
  | .word w, _ => write w.text
  | .this, _ => write "this"
  | .reference, [name, args] => do
    emit name
    emit args
  | .literal, elements => bracedLines emit elements
  | .union, types => joined (write " | ") (types.map emit)
  | .intersection, types => joined (write " & ") (types.map emit)
  | .array, [element] => do
    emit element
    write "[]"
  | .optional, [inner] => do
    emit inner
    write "?"
  | .rest, [inner] => do
    write "..."
    emit inner
  | .function, [generics, ps, result] => do
    emit generics
    arguments emit ps
    write " => "
    emit result
  | .constructor isAbstract, [generics, ps, result] => do
    write (if isAbstract then "abstract new" else "new")
    after " " emit generics
    arguments emit ps
    write " => "
    emit result
  | .conditional, [checked, bound, yes, no] => do
    emit checked
    write " extends "
    emit bound
    write " ? "
    emit yes
    write " : "
    emit no
  | .paren, [inner] => do
    write "("
    emit inner
    write ")"
  | .operator word, [operand] => do
    write (word ++ " ")
    emit operand
  | .indexed, [object, index] => do
    emit object
    write "["
    emit index
    write "]"
  | .value, [literal] => emit literal
  | .query, [entity, args] => do
    write "typeof "
    emit entity
    emit args
  | .tuple, elements => do
    write "["
    commaList (elements.map emit)
    write "]"
  | .tupleElement, [rest, name, optional, inner] => do
    optionally name do
      optionally rest (write "...")
      emit name
      optionally optional (write "?")
      write ": "
    emit inner
  | .infer, [parameter] => do
    write "infer "
    emit parameter
  | .predicate asserting, [subject, type] => do
    if asserting then write "asserts "
    emit subject
    after " is " emit type
  | .importType, [origin, options, qualifier, args] => do
    write "import("
    emit origin
    after ", " emit options
    write ")"
    after "." emit qualifier
    emit args
  | .template, parts => templateParts emit parts
  | .mapped readonlySign optionalSign, [name, constraint, renamed, type] => do
    write "\x7b"
    line
    deeper do
      mappedMark readonlySign "readonly "
      write "["
      emit name
      write " in "
      emit constraint
      after " as " emit renamed
      write "]"
      mappedMark optionalSign "?"
      after ": " emit type
      write ";"
    line
    write "\x7d"
  | _, _ => asWritten source whole

/-- A name of an import or export list. -/
def specifier (emit : Emit) (name renamed : Node) : Pen := do
  emit name
  after " as " emit renamed

/-- Names of an import or export list, in braces. -/
def specifiers (emit : Emit) (names : List Node) : Pen := do
  write "\x7b "
  commaList (names.map emit)
  write (if names.isEmpty then "\x7d" else " \x7d")

/-- What an import brings in: single names first, then the list in braces. -/
def importClause (emit : Emit) (names : List Node) : Pen := do
  let isSingle (n : Node) : Bool := match n.form with
    | .other "default" | .other "namespace" => true
    | _ => false
  let (single, listed) := names.partition isSingle
  commaList (single.map emit ++ if listed.isEmpty then [] else [specifiers emit listed])

/-- The word for the phase of an import. -/
def phaseWord : ImportPhase → String
  | .evaluation => ""
  | .source => "source "
  | .defer => "defer "

/-- An import or export. -/
def moduleItem (source : Text) (emit : Emit) (whole : Node) (form : ModuleForm)
    (parts : List Node) : Pen :=
  match form, parts with
  | .importDecl typeOnly phase, [names, origin, attributes] => do
    write (if typeOnly then "import type " else "import ")
    write (phaseWord phase)
    if !names.parts.isEmpty then
      importClause emit names.parts
      write " from "
    emit origin
    after " with " emit attributes
    write ";"
  | .exportDecl, [d] => do
    match d with
    | .mk (.decl (.classDecl ambient)) _ [name, body] => do
      classDecorators emit body
      write "export "
      ambientWord ambient
      plainClass emit name body
    | .mk (.decl f) _ _ => do
      write "export "
      emit d
      if endsWithSemicolon f then write ";"
    | _ => pure ()
  | .exportNamed typeOnly, [names, origin, attributes] => do
    write (if typeOnly then "export type " else "export ")
    let isAll := names.parts.any fun n => n.form == .other "namespace"
    if isAll then commaList (names.parts.map emit) else specifiers emit names.parts
    after " from " emit origin
    after " with " emit attributes
    write ";"
  | .exportDefaultDecl, [name, body] => do
    write "export default "
    match body.form with
    | .classBody _ => namedClass emit name body
    | _ => namedFunction emit name body
  | .exportDefaultInterface, [name, elements, generics, extended] => do
    write "export default "
    declaration emit (.interface false) [name, generics, extended, elements]
  | .exportDefaultExpr, [e] => do
    write "export default "
    emit e
    write ";"
  | .exportAll typeOnly, [origin, attributes] => do
    write (if typeOnly then "export type * from " else "export * from ")
    emit origin
    after " with " emit attributes
    write ";"
  | .exportAssign, [e] => do
    write "export = "
    emit e
  | .exportNamespace, [name] => do
    write "export = "
    emit name
  | .importEquals exported typeOnly, [name, reference] => do
    if exported then write "export "
    write (if typeOnly then "import type " else "import ")
    emit name
    write " = "
    emit reference
    write ";"
  | _, _ => asWritten source whole

/-- One level of printing over the levels below it. -/
def layer (source : Text) (emit : Emit) : Emit
  | .mk form span parts =>
    let whole : Node := .mk form span parts
    match form, parts with
    | .absent, _ => pure ()
    | .group, items => commaList (items.map emit)
    | .program, items => joined line (items.map emit)
    | .moduleItem f, parts => do
      moduleItem source emit whole f parts
      line
    | .stmt .block, statements => braced emit statements
    | .stmt f, parts => do
      statement emit f parts
      line
    | .decl d, parts => declaration emit d parts
    | .block, statements => braced emit statements
    | .expr f, parts => expression source emit whole f parts
    | .declarator _, [target, value] => do
      emit target
      after " = " emit value
    | .loopVars kind, declarators => do
      write (varWord kind)
      commaList (declarators.map emit)
    | .member f, parts => member emit f parts
    | .parameter modifiers, [decorated, target] => do
      if !decorated.parts.isEmpty then
        line
        decorators emit decorated.parts
      all (modifiers.map fun w => write (w ++ " "))
      emit target
    | .switchCase, test :: body => switchCase emit test body
    | .catchClause, [target, body] => do
      write "catch "
      optionally target do
        write "("
        emit target
        write ")"
      write " "
      emit body
    | .property f, parts => property emit f parts
    | .pattern f, parts => pattern emit f parts
    | .element f, parts => typeElement emit f parts
    | .type f, parts => type source emit whole f parts
    | .name n, _ => write n
    | .privateName n, _ => write ("#" ++ n)
    | .computed, [e] => do
      write "["
      emit e
      write "]"
    | .spread, [e] => do
      write "..."
      emit e
    | .superRef, _ => write "super"
    | .importRef phase, _ => do
      write "import"
      match phase with
      | .evaluation => pure ()
      | .source => write ".source"
      | .defer => write ".defer"
    | .quasi raw, _ => write raw
    | .typeArgs, types | .typeParams, types => do
      write "<"
      commaList (types.map emit)
      write ">"
    | .typeParam name modifiers, [bound, default] => do
      all (modifiers.map fun w => write (w ++ " "))
      write name
      after " extends " emit bound
      after " = " emit default
    | .qualified, [left, right] => do
      emit left
      write "."
      emit right
    | .other "target", [target] => emit target
    | .other "using", [word, name] => do
      emit word
      write " "
      emit name
    | .other "heritage", [e, args] => do
      emit e
      emit args
    | .other "decorator", [e] => do
      write "@"
      emit e
    | .other "member", [key, value] => do
      emit key
      after " = " emit value
    | .other "specifier", [name, renamed] => specifier emit name renamed
    | .other "type specifier", [name, renamed] => do
      write "type "
      specifier emit name renamed
    | .other "default", [name] => emit name
    | .other "require", [origin] => do
      write "require("
      emit origin
      write ")"
    | .other ":", [left, right] => do
      emit left
      write ":"
      emit right
    | .other "namespace", [name] => do
      write "* as "
      emit name
    | _, _ => asWritten source whole

/-- Print a node to a given depth. -/
def printNode (source : Text) : Nat → Emit
  | 0, _ => pure ()
  | depth + 1, n => layer source (printNode source depth) n

end Printer

/-- The text of a whole document, in one uniform layout. -/
def Node.print (source : Text) (n : Node) : Text :=
  Pen.text (Printer.printNode source n.height n)

end Retouch.Syntax
