import Retouch.Syntax.Node

/-!
# Kinds of constructs

- `Form.kind`: the stable name of a construct.
- `Form.isStatement`, `Form.isStatementList`, `Form.isFunctionBoundary`, `Form.isLoop`: the
  properties of a construct that refactorings ask for.
-/

namespace Retouch.Syntax

/-- Name of a declaration. -/
def DeclForm.kind : DeclForm → String
  | .classDecl _ => "class-declaration"
  | .function _ => "function-declaration"
  | .var _ _ => "variable-declaration"
  | .usingVars _ => "using-declaration"
  | .interface _ => "ts-interface-declaration"
  | .typeAlias _ => "ts-type-alias-declaration"
  | .enum _ _ => "ts-enum-declaration"
  | .namespaceDecl _ _ => "ts-module-declaration"

/-- Name of a statement. -/
def StmtForm.kind : StmtForm → String
  | .block => "block-statement"
  | .empty => "empty-statement"
  | .debugger => "debugger-statement"
  | .withStmt => "with-statement"
  | .returnStmt => "return-statement"
  | .labeled => "labeled-statement"
  | .breakStmt => "break-statement"
  | .continueStmt => "continue-statement"
  | .ifElse => "if-statement"
  | .switchStmt => "switch-statement"
  | .throwStmt => "throw-statement"
  | .tryStmt => "try-statement"
  | .whileLoop => "while-statement"
  | .doWhileLoop => "do-while-statement"
  | .forLoop => "for-statement"
  | .forInLoop => "for-in-statement"
  | .forOfLoop _ => "for-of-statement"
  | .declaration d => d.kind
  | .expression => "expression-statement"

/-- Name of an import or export. -/
def ModuleForm.kind : ModuleForm → String
  | .importDecl _ _ => "import-declaration"
  | .exportDecl => "export-declaration"
  | .exportNamed _ => "export-named-declaration"
  | .exportDefaultDecl | .exportDefaultInterface | .exportDefaultExpr =>
    "export-default-declaration"
  | .exportAll _ => "export-all-declaration"
  | .importEquals _ _ | .exportAssign | .exportNamespace => "module-declaration"

/-- Name of an expression. -/
def ExprForm.kind : ExprForm → String
  | .this => "this-expression"
  | .ident _ => "identifier"
  | .string _ => "string-literal"
  | .number _ => "numeric-literal"
  | .bigint _ => "bigint-literal"
  | .boolean _ => "boolean-literal"
  | .null => "null-literal"
  | .regex _ _ => "regexp-literal"
  | .array => "array-expression"
  | .object => "object-expression"
  | .function => "function-expression"
  | .classExpr => "class-expression"
  | .unary _ => "unary-expression"
  | .update _ _ => "update-expression"
  | .binary .and | .binary .or => "logical-expression"
  | .binary _ => "binary-expression"
  | .assign _ => "assignment-expression"
  | .member => "member-expression"
  | .conditional => "conditional-expression"
  | .call => "call-expression"
  | .newExpr => "new-expression"
  | .sequence => "sequence-expression"
  | .template => "template-literal"
  | .tagged => "tagged-template-expression"
  | .arrow _ => "arrow-function-expression"
  | .yieldExpr _ => "yield-expression"
  | .awaitExpr => "await-expression"
  | .paren => "parenthesized-expression"
  | .optionalMember _ | .optionalCall _ => "optional-chain-expression"
  | .asType => "ts-as-expression"
  | .nonNull => "ts-non-null-expression"
  | .privateRef _ | .superMember | .asConst | .satisfies | .typeAssertion | .instantiation
  | .newTarget | .importMeta | .jsxElement | .jsxFragment | .invalid => "expression"

/-- Name of a member of a class. -/
def MemberForm.kind : MemberForm → String
  | .constructor _ => "class-constructor"
  | .method _ _ _ _ => "class-method"
  | .property _ _ _ => "class-property"
  | .staticBlock => "static-block"
  | .autoAccessor _ _ _ | .index _ | .empty => "class-member"

/-- Name of a property of an object literal. -/
def PropertyForm.kind : PropertyForm → String
  | .method | .getter | .setter => "object-method"
  | .shorthand _ | .keyValue | .assign => "object-property"

/-- Name of an element of an interface or a type literal. -/
def ElementForm.kind : ElementForm → String
  | .property _ _ => "ts-property-signature"
  | .method _ => "ts-method-signature"
  | .index _ => "ts-index-signature"
  | .call | .construct | .getter | .setter => "ts-type-element"

/-- Name of a type. -/
def TypeForm.kind : TypeForm → String
  | .word _ => "ts-keyword-type"
  | .literal => "ts-type-literal"
  | .reference => "ts-type-reference"
  | .union | .intersection => "ts-union-type"
  | .array => "ts-array-type"
  | _ => "ts-type"

namespace Form

/-- Name of a construct; parts that are no constructs of their own have none. -/
def kind : Form → String
  | .program => "program"
  | .moduleItem f => f.kind
  | .stmt f => f.kind
  | .decl f => f.kind
  | .block => "block-statement"
  | .expr f => f.kind
  | .declarator _ => "variable-declarator"
  | .function _ _ => "function"
  | .classBody _ => "class-body"
  | .member f => f.kind
  | .switchCase => "switch-case"
  | .catchClause => "catch-clause"
  | .property f => f.kind
  | .pattern _ => "pattern"
  | .element f => f.kind
  | .type f => f.kind
  | _ => ""

/-- Statements, imports, exports and declarations. -/
def isStatement : Form → Bool
  | .stmt _ | .moduleItem _ | .decl _ => true
  | _ => false

/-- Constructs whose parts run one after another as statements. -/
def isStatementList : Form → Bool
  | .program | .stmt .block | .block | .switchCase => true
  | _ => false

/-- Constructs that start the scope of a function or of a member of a class. -/
def isFunctionBoundary : Form → Bool
  | .function _ _ | .expr (.arrow _) | .member _ => true
  | _ => false

/-- Loops. -/
def isLoop : Form → Bool
  | .stmt .forLoop | .stmt .forInLoop | .stmt (.forOfLoop _) | .stmt .whileLoop
  | .stmt .doWhileLoop => true
  | _ => false

/-- Statements proper. -/
def isProperStatement : Form → Bool
  | .stmt _ => true
  | _ => false

/-- Expressions. -/
def isExpression : Form → Bool
  | .expr _ => true
  | _ => false

/-- Conditional statements. -/
def isIf : Form → Bool
  | .stmt .ifElse => true
  | _ => false

/-- Declarations, whether or not they are statements. -/
def isDeclaration : Form → Bool
  | .stmt (.declaration _) | .decl _ => true
  | _ => false

end Form

end Retouch.Syntax
