import Retouch.Syntax.Token

/-!
# Syntax trees

A syntax tree is a rose tree: every node has a form, the byte range it covers and its parts. The
form says which construct a node is and holds the data that is not a part, such as an operator
or a name. The number and order of parts are fixed by the form; a part that is left out is an
`absent` node, and a list of parts is a `group` node.

- `Form`: the constructs of the language, by syntactic category.
- `Node`: a tree.
- `Node.same`: equality of trees up to byte ranges.
-/

namespace Retouch.Syntax

/-- Operators between two operands. -/
inductive BinaryOp where
  | eqEq | notEq | eqEqEq | notEqEq | lt | ltEq | gt | gtEq | shl | shr | ushr | add | sub | mul
  | div | mod | bitOr | bitXor | bitAnd | or | and | inside | instanceOf | power | nullish
deriving DecidableEq, Repr

/-- Spelling of a binary operator. -/
def BinaryOp.text : BinaryOp → String
  | .eqEq => "=="
  | .notEq => "!="
  | .eqEqEq => "==="
  | .notEqEq => "!=="
  | .lt => "<"
  | .ltEq => "<="
  | .gt => ">"
  | .gtEq => ">="
  | .shl => "<<"
  | .shr => ">>"
  | .ushr => ">>>"
  | .add => "+"
  | .sub => "-"
  | .mul => "*"
  | .div => "/"
  | .mod => "%"
  | .bitOr => "|"
  | .bitXor => "^"
  | .bitAnd => "&"
  | .or => "||"
  | .and => "&&"
  | .inside => "in"
  | .instanceOf => "instanceof"
  | .power => "**"
  | .nullish => "??"

/-- How tightly a binary operator binds. -/
def BinaryOp.precedence : BinaryOp → Nat
  | .nullish => 1
  | .or => 1
  | .and => 2
  | .bitOr => 3
  | .bitXor => 4
  | .bitAnd => 5
  | .eqEq | .notEq | .eqEqEq | .notEqEq => 6
  | .lt | .ltEq | .gt | .gtEq | .inside | .instanceOf => 7
  | .shl | .shr | .ushr => 8
  | .add | .sub => 9
  | .mul | .div | .mod => 10
  | .power => 11

/-- Operators before one operand. -/
inductive UnaryOp where
  | minus | plus | bang | tilde | typeOf | void | delete
deriving DecidableEq, Repr

/-- Spelling of a unary operator. -/
def UnaryOp.text : UnaryOp → String
  | .minus => "-"
  | .plus => "+"
  | .bang => "!"
  | .tilde => "~"
  | .typeOf => "typeof"
  | .void => "void"
  | .delete => "delete"

/-- The words that introduce variables. -/
inductive VarKind where
  | varWord | letWord | constWord
deriving DecidableEq, Repr

/-- Spelling of a variable kind. -/
def VarKind.text : VarKind → String
  | .varWord => "var"
  | .letWord => "let"
  | .constWord => "const"

/-- The built-in types that a single word names. -/
inductive TypeWord where
  | any | unknown | number | object | boolean | bigint | string | symbol | void | undefined
  | null | never | intrinsic
deriving DecidableEq, Repr

/-- Spelling of a built-in type. -/
def TypeWord.text : TypeWord → String
  | .any => "any"
  | .unknown => "unknown"
  | .number => "number"
  | .object => "object"
  | .boolean => "boolean"
  | .bigint => "bigint"
  | .string => "string"
  | .symbol => "symbol"
  | .void => "void"
  | .undefined => "undefined"
  | .null => "null"
  | .never => "never"
  | .intrinsic => "intrinsic"

/-- What a namespace is called: names joined by points, a string, or nothing but `global`. -/
inductive NamespaceForm where
  | named | quoted | globalScope
deriving DecidableEq, Repr

/-- Declarations, with their parts. -/
inductive DeclForm where
  /-- name, class -/
  | classDecl (ambient : Bool)
  /-- name, function -/
  | function (ambient : Bool)
  /-- declarators -/
  | var (kind : VarKind) (ambient : Bool)
  /-- declarators -/
  | usingVars (awaiting : Bool)
  /-- name, type parameters or absent, group of extended types, group of elements -/
  | interface (ambient : Bool)
  /-- name, type parameters or absent, type -/
  | typeAlias (ambient : Bool)
  /-- name, members -/
  | enum (isConst ambient : Bool)
  /-- name, body or absent -/
  | namespaceDecl (ambient : Bool) (form : NamespaceForm)
deriving DecidableEq, Repr

/-- Statements, with their parts. -/
inductive StmtForm where
  /-- statements -/
  | block
  | empty
  | debugger
  /-- object, body -/
  | withStmt
  /-- value or absent -/
  | returnStmt
  /-- label, body -/
  | labeled
  /-- label or absent -/
  | breakStmt
  /-- label or absent -/
  | continueStmt
  /-- test, consequent, alternate or absent -/
  | ifElse
  /-- discriminant, cases -/
  | switchStmt
  /-- value -/
  | throwStmt
  /-- block, catch clause or absent, final block or absent -/
  | tryStmt
  /-- test, body -/
  | whileLoop
  /-- body, test -/
  | doWhileLoop
  /-- start or absent, test or absent, update or absent, body -/
  | forLoop
  /-- declared variables or assigned target, object, body -/
  | forInLoop
  /-- declared variables or assigned target, object, body -/
  | forOfLoop (awaiting : Bool)
  /-- the parts of the declaration -/
  | declaration (d : DeclForm)
  /-- expression -/
  | expression
deriving DecidableEq, Repr

/-- How far the module of an import is run. -/
inductive ImportPhase where
  | evaluation | source | defer
deriving DecidableEq, Repr

/-- Imports and exports, with their parts. -/
inductive ModuleForm where
  /-- specifiers group, source string, attributes or absent -/
  | importDecl (typeOnly : Bool) (phase : ImportPhase)
  /-- declaration -/
  | exportDecl
  /-- specifiers group, source string or absent, attributes or absent -/
  | exportNamed (typeOnly : Bool)
  /-- name or absent, class or function -/
  | exportDefaultDecl
  /-- name, group of elements, type parameters or absent, group of extended types -/
  | exportDefaultInterface
  /-- expression -/
  | exportDefaultExpr
  /-- source string, attributes or absent -/
  | exportAll (typeOnly : Bool)
  /-- name, module reference -/
  | importEquals (exported typeOnly : Bool)
  /-- expression -/
  | exportAssign
  /-- name -/
  | exportNamespace
deriving DecidableEq, Repr

/-- Expressions, with their parts. -/
inductive ExprForm where
  | this
  | ident (name : String)
  /-- a private name as the left operand of `in` -/
  | privateRef (name : String)
  | string (value : CodePoints)
  | number (value : Numeral)
  | bigint (value : Nat)
  | boolean (value : Bool)
  | null
  | regex (body flags : String)
  /-- elements, each an expression, a spread or absent -/
  | array
  /-- properties and spreads -/
  | object
  /-- name or absent, function -/
  | function
  /-- name or absent, class -/
  | classExpr
  /-- operand -/
  | unary (op : UnaryOp)
  /-- operand -/
  | update (increment before : Bool)
  /-- left, right -/
  | binary (op : BinaryOp)
  /-- target, value -/
  | assign (op : String)
  /-- object, member name -/
  | member
  /-- member name -/
  | superMember
  /-- test, consequent, alternate -/
  | conditional
  /-- callee, type arguments or absent, group of arguments -/
  | call
  /-- callee, type arguments or absent, group of arguments or absent -/
  | newExpr
  /-- expressions -/
  | sequence
  /-- pieces and substitutions in turn, starting and ending with a piece -/
  | template
  /-- tag, type arguments or absent, group of pieces and substitutions -/
  | tagged
  /-- type parameters or absent, group of parameters, return type or absent, body -/
  | arrow (isAsync : Bool)
  /-- value or absent -/
  | yieldExpr (delegate : Bool)
  /-- value -/
  | awaitExpr
  /-- expression -/
  | paren
  /-- object, member name -/
  | optionalMember (optional : Bool)
  /-- callee, type arguments or absent, group of arguments -/
  | optionalCall (optional : Bool)
  /-- expression, type -/
  | asType
  /-- expression -/
  | asConst
  /-- expression, type -/
  | satisfies
  /-- expression -/
  | nonNull
  /-- type, expression -/
  | typeAssertion
  /-- expression, type arguments -/
  | instantiation
  | newTarget
  | importMeta
  /-- name, type arguments or absent, group of attributes, group of children or absent -/
  | jsxElement
  /-- group of children -/
  | jsxFragment
  /-- in place of an operand that is missing -/
  | invalid
deriving DecidableEq, Repr

/-- Members of a class, with their parts. -/
inductive MemberForm where
  /-- key, group of parameters, body or absent -/
  | constructor (modifiers : List String)
  /-- key, function -/
  | method (kind : String) (isStatic isPrivate : Bool) (modifiers : List String)
  /-- key, type or absent, value or absent, decorators -/
  | property (isStatic isPrivate : Bool) (modifiers : List String)
  /-- key, type or absent, value or absent, decorators -/
  | autoAccessor (isStatic isPrivate : Bool) (modifiers : List String)
  /-- block -/
  | staticBlock
  /-- parameter, type or absent -/
  | index (modifiers : List String)
  | empty
deriving DecidableEq, Repr

/-- Properties of an object literal, with their parts. -/
inductive PropertyForm where
  /-- a name that stands for itself -/
  | shorthand (name : String)
  /-- key, value -/
  | keyValue
  /-- name, value -/
  | assign
  /-- key, type or absent, body -/
  | getter
  /-- key, group of parameters, body -/
  | setter
  /-- key, function -/
  | method
deriving DecidableEq, Repr

/-- Binding patterns and assignment targets, with their parts. -/
inductive PatternForm where
  /-- type or absent -/
  | ident (name : String) (optional : Bool)
  /-- group of elements, type or absent -/
  | array (optional : Bool)
  /-- group of properties, type or absent -/
  | object (optional : Bool)
  /-- target, default value -/
  | assign
  /-- target, type or absent -/
  | rest
  /-- key, value -/
  | keyValue
  /-- default value or absent -/
  | shorthand (name : String)
  /-- expression -/
  | expr
deriving DecidableEq, Repr

/-- Elements of an interface or a type literal, with their parts. -/
inductive ElementForm where
  /-- key, type or absent -/
  | property (isReadonly optional : Bool)
  /-- key, type parameters or absent, group of parameters, type or absent -/
  | method (optional : Bool)
  /-- parameter, type or absent -/
  | index (isReadonly : Bool)
  /-- type parameters or absent, group of parameters, type or absent -/
  | call
  /-- type parameters or absent, group of parameters, type or absent -/
  | construct
  /-- key, type or absent -/
  | getter
  /-- key, parameter -/
  | setter
deriving DecidableEq, Repr

/-- Types, with their parts. -/
inductive TypeForm where
  | word (w : TypeWord)
  | this
  /-- name, type arguments or absent -/
  | reference
  /-- elements -/
  | literal
  /-- types -/
  | union
  /-- types -/
  | intersection
  /-- element type -/
  | array
  /-- elements -/
  | tuple
  /-- label or absent, type -/
  | tupleElement
  /-- type -/
  | optional
  /-- type -/
  | rest
  /-- type parameters or absent, group of parameters, result -/
  | function
  /-- type parameters or absent, group of parameters, result -/
  | constructor (isAbstract : Bool)
  /-- checked type, bound, two results -/
  | conditional
  /-- type parameter -/
  | infer
  /-- type -/
  | paren
  /-- operand -/
  | operator (word : String)
  /-- object type, index type -/
  | indexed
  /-- parameter name, constraint, renaming or absent, type or absent -/
  | mapped (readonlySign optionalSign : String)
  /-- literal expression -/
  | value
  /-- pieces and types in turn -/
  | template
  /-- entity, type arguments or absent -/
  | query
  /-- argument string, qualifier or absent, type arguments or absent -/
  | importType
  /-- subject, type or absent -/
  | predicate (asserts : Bool)
deriving DecidableEq, Repr

/-- The constructs of the language. -/
inductive Form where
  /-- a part that is left out -/
  | absent
  /-- a list of parts -/
  | group
  /-- module items -/
  | program
  | moduleItem (f : ModuleForm)
  | stmt (f : StmtForm)
  /-- a declaration that is not itself a statement -/
  | decl (f : DeclForm)
  /-- a block that is not itself a statement; statements -/
  | block
  | expr (f : ExprForm)
  /-- pattern, initial value or absent -/
  | declarator (definite : Bool)
  /-- variables declared in the head of a loop; declarators -/
  | loopVars (kind : VarKind)
  /-- group of decorators, type parameters or absent, group of parameters, return type or absent,
  body or absent -/
  | function (isAsync isGenerator : Bool)
  /-- group of decorators, type parameters or absent, parent or absent, type arguments of the
  parent or absent, group of implemented types, group of members -/
  | classBody (isAbstract : Bool)
  | member (f : MemberForm)
  /-- group of decorators, pattern -/
  | parameter (modifiers : List String)
  /-- test or absent, statements -/
  | switchCase
  /-- parameter or absent, body -/
  | catchClause
  | property (f : PropertyForm)
  | pattern (f : PatternForm)
  | element (f : ElementForm)
  | type (f : TypeForm)
  /-- a name that is no expression -/
  | name (name : String)
  /-- a private name -/
  | privateName (name : String)
  /-- a computed key; expression -/
  | computed
  /-- an expanded element or argument; expression -/
  | spread
  /-- the parent class as a callee -/
  | superRef
  /-- the import function as a callee -/
  | importRef (phase : ImportPhase)
  /-- a piece of a template, as written -/
  | quasi (raw : String)
  /-- type arguments; types -/
  | typeArgs
  /-- type parameters -/
  | typeParams
  /-- constraint or absent, default or absent -/
  | typeParam (name : String) (modifiers : List String)
  /-- left part, right name -/
  | qualified
  /-- a construct that matters only for equality; its tag and its parts -/
  | other (tag : String)
deriving DecidableEq, Repr

/-- A syntax tree. -/
inductive Node where
  | mk (form : Form) (span : Span) (parts : List Node)

namespace Node

/-- Which construct a node is. -/
def form : Node → Form
  | mk form _ _ => form

/-- The byte range of a node. -/
def span : Node → Span
  | mk _ span _ => span

/-- The parts of a node. -/
def parts : Node → List Node
  | mk _ _ parts => parts

/-- A part that is left out. -/
def absent : Node := mk .absent ⟨0, 0⟩ []

/-- Whether a part is there. -/
def isPresent (n : Node) : Bool :=
  match n.form with
  | .absent => false
  | _ => true

/-- A part that may be left out. -/
def ofOption : Option Node → Node
  | some n => n
  | none => absent

/-- A list of parts. -/
def group (parts : List Node) : Node := mk .group ⟨0, 0⟩ parts

mutual

/-- Equality of trees up to byte ranges. -/
def same : Node → Node → Bool
  | mk f _ ps, mk g _ qs => f == g && sameList ps qs

/-- Equality of lists of trees up to byte ranges. -/
def sameList : List Node → List Node → Bool
  | [], [] => true
  | p :: ps, q :: qs => same p q && sameList ps qs
  | _, _ => false

end

end Node

end Retouch.Syntax
