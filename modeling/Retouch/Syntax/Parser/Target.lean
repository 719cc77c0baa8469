import Retouch.Syntax.Parser.Name

/-!
# Assignment targets

An expression that turns out to stand on the left of an assignment, or among the parameters of an
arrow function, is read again as a pattern.

- `asPattern`: the pattern that an expression stands for, with complaints about the parts that
  cannot stand in a pattern.
- `isSimpleTarget`: a variable or a property access.
- `finishAssignment`: the operator and value after a target, if they are there.
-/

namespace Retouch.Syntax.Parser

/-- An expression that can be the target of an assignment but is no name and no pattern. -/
def isAccess : ExprForm → Bool
  | .member | .superMember | .optionalMember _ | .optionalCall _ | .paren | .asType | .satisfies
  | .nonNull | .typeAssertion | .instantiation => true
  | _ => false

/-- A variable or a property access, whatever type assertions and parentheses surround it. -/
def isSimpleTarget : Node → Bool
  | .mk (.expr (.ident name)) _ _ => !isRestricted name
  | .mk (.expr .member) _ _ => true
  | .mk (.expr .superMember) _ _ => true
  | .mk (.expr .paren) _ [inner] => isSimpleTarget inner
  | .mk (.expr .nonNull) _ [inner] => isSimpleTarget inner
  | .mk (.expr .asType) _ [inner, _] => isSimpleTarget inner
  | .mk (.expr .satisfies) _ [inner, _] => isSimpleTarget inner
  | .mk (.expr .typeAssertion) _ [_, inner] => isSimpleTarget inner
  | .mk (.expr .instantiation) _ [inner, _] => isSimpleTarget inner
  | _ => false

/-- A target that is refused at once; the others are refused when the whole is known. -/
def isDeniedTarget (denyCall : Bool) : Node → Bool
  | .mk (.expr (.string _)) _ _ | .mk (.expr (.number _)) _ _ | .mk (.expr (.bigint _)) _ _
  | .mk (.expr (.boolean _)) _ _ | .mk (.expr .null) _ _ | .mk (.expr (.regex _ _)) _ _
  | .mk (.expr (.binary _)) _ _ => false
  | .mk (.expr .call) _ _ => denyCall
  | .mk (.expr .paren) _ [inner] => isDeniedTarget denyCall inner
  | _ => true

/-- A name that strict code cannot assign to. -/
def isRestrictedName : Node → Bool
  | .mk (.expr (.ident name)) _ _ => isRestricted name
  | _ => false

/-- Complain about an operand that cannot be assigned to. -/
def checkTarget (target : Node) (denyCall : Bool) : Parser Unit := do
  if isRestrictedName target then
    complain target.span.start "Invalid use of 'arguments' in strict mode"
  else if !isSimpleTarget target && isDeniedTarget denyCall target then
    complain target.span.start
      "The left-hand side of an assignment expression must be a variable or a property access."

/-- What an expression is read again as. -/
inductive PatternMode where
  /-- what stands on the left of an assignment -/
  | target
  /-- a part of an array or object there -/
  | element
  /-- a parameter or a part of one, which admits names only -/
  | binding
deriving DecidableEq, Repr

/-- What the parts of an array or object are read again as. -/
def PatternMode.inner : PatternMode → PatternMode
  | .binding => .binding
  | _ => .element

/-- Complain about something that cannot stand in a pattern. -/
def noteNoPattern (span : Span) : Parser Unit :=
  complain span.start "Not a pattern"

/-- Whether an expression is looked at as a target when it is part of a pattern. -/
def isElementForm : ExprForm → Bool
  | .member | .superMember | .call | .newExpr | .string _ | .number _ | .bigint _ | .boolean _
  | .null | .regex _ _ | .function | .classExpr | .paren | .template | .asType | .satisfies
  | .nonNull | .typeAssertion => true
  | _ => false

/-- An expression that is kept as it is in a pattern. -/
def keptExpression (mode : PatternMode) (form : ExprForm) (span : Span) (parts : List Node) :
    Parser Node := do
  let e : Node := .mk (.expr form) span parts
  match mode with
  | .target => pure ()
  | .element =>
    if form != .invalid then
      if !isElementForm form then
        noteNoPattern span
      else if !isSimpleTarget e then
        complain span.start "Cannot assign to this"
  | .binding =>
    if form != .invalid then
      noteNoPattern span
  return .mk (.pattern .expr) span [e]

/-- Complain about the comma after the last element of a literal, which is a rest element. -/
def noteTrailingComma (literalStart : Nat) : Parser Unit := do
  match (← get).trailingCommas.lookup literalStart with
  | some comma => complain comma "Trailing comma isn't permitted after a rest element"
  | none => pure ()

/-- Whether an expression is an assignment. -/
def isAssignment (e : Node) : Bool :=
  match e.form with
  | .expr (.assign _) => true
  | _ => false

mutual

/-- The pattern that an expression stands for. -/
def asPattern (mode : PatternMode) : Node → Parser Node
  | .mk (.expr (.ident name)) span _ => do
    if mode == .element && isRestricted name then
      complain span.start "Cannot assign to this"
    return .mk (.pattern (.ident name false)) span [.absent]
  | .mk (.expr .array) span parts => do
    let elements ← asElements mode.inner span.start parts
    return .mk (.pattern (.array false)) span [.group elements, .absent]
  | .mk (.expr .object) span parts => do
    let properties ← asProperties mode.inner span.start parts
    return .mk (.pattern (.object false)) span [.group properties, .absent]
  | .mk (.expr (.assign op)) span parts => do
    if mode != .target && op == "=" then
      return .mk (.pattern .assign) span parts
    else
      noteNoPattern span
      return .mk (.pattern .expr) span [.mk (.expr (.assign op)) span parts]
  | .mk (.expr form) span parts => keptExpression mode form span parts
  | .mk form span parts => return .mk form span parts

/-- The elements of an array pattern. Holes at its end are left out. -/
def asElements (mode : PatternMode) (literalStart : Nat) : List Node → Parser (List Node)
  | [] => return []
  | .mk .absent span parts :: rest => do
    if rest.all fun n => !n.isPresent then
      return []
    return .mk .absent span parts :: (← asElements mode literalStart rest)
  | .mk .spread span [inner] :: rest => do
    if rest.isEmpty then
      if isAssignment inner then
        complain span.start "A rest parameter cannot have an initializer"
      noteTrailingComma literalStart
      let target ← asPattern mode inner
      return [.mk (.pattern .rest) span [target, .absent]]
    else
      complain span.start "Rest element must be final element"
      asElements mode literalStart rest
  | n :: rest => do
    let element ← asPattern mode n
    return element :: (← asElements mode literalStart rest)

/-- The properties of an object pattern. -/
def asProperties (mode : PatternMode) (literalStart : Nat) : List Node → Parser (List Node)
  | [] => return []
  | .mk .spread span [inner] :: rest => do
    if rest.isEmpty then
      noteTrailingComma literalStart
    else
      complain span.start "Rest element must be final element"
    let isName := match inner.form with
      | .expr (.ident _) => true
      | _ => false
    if mode == .binding && !isName then
      complain span.start "`...` must be followed by an identifier in declaration contexts"
    else if isAssignment inner then
      complain span.start "A rest parameter cannot have an initializer"
    let target ← asPattern mode inner
    return .mk (.pattern .rest) span [target, .absent] :: (← asProperties mode literalStart rest)
  | .mk (.property (.shorthand name)) span _ :: rest => do
    let property : Node := .mk (.pattern (.shorthand name)) span [.absent]
    return property :: (← asProperties mode literalStart rest)
  | .mk (.property .assign) span [.mk (.name name) _ _, value] :: rest => do
    let property : Node := .mk (.pattern (.shorthand name)) span [value]
    return property :: (← asProperties mode literalStart rest)
  | .mk (.property .keyValue) span [key, value] :: rest => do
    let target ← asPattern mode value
    let property : Node := .mk (.pattern .keyValue) span [key, target]
    return property :: (← asProperties mode literalStart rest)
  | .mk form span parts :: rest => do
    match form with
    | .property _ => failAt span.start "Not a pattern"
    | _ => return .mk form span parts :: (← asProperties mode literalStart rest)

end

/-- Read an expression again as a pattern. -/
def rereadPattern (mode : PatternMode) (e : Node) : Parser Node := do
  if mode == .target then
    match e.form with
    | .expr .array | .expr .object | .expr .invalid => pure ()
    | _ => checkTarget e true
  asPattern mode e

mutual

/-- Complain about the names in a parameter that strict code cannot bind. -/
def noteRestrictedNames : Node → Parser Unit
  | .mk (.pattern (.ident name _)) span _ => noteRestricted name span.start
  | .mk (.pattern (.shorthand name)) span _ => noteRestricted name span.start
  | .mk (.pattern .assign) _ [target, _] => noteRestrictedNames target
  | .mk (.pattern .keyValue) _ [_, target] => noteRestrictedNames target
  | .mk (.pattern .expr) _ _ => pure ()
  | .mk (.pattern _) _ parts => noteRestrictedIn parts
  | .mk .group _ parts => noteRestrictedIn parts
  | _ => pure ()

/-- The same for several patterns. -/
def noteRestrictedIn : List Node → Parser Unit
  | [] => pure ()
  | n :: rest => do
    noteRestrictedNames n
    noteRestrictedIn rest

end

/-- The assignment operator that a punctuator is. -/
def assignOp? : Punct → Option String
  | .eq => some "="
  | .plusEq => some "+="
  | .minusEq => some "-="
  | .starEq => some "*="
  | .slashEq => some "/="
  | .percentEq => some "%="
  | .powerEq => some "**="
  | .shlEq => some "<<="
  | .shrEq => some ">>="
  | .ushrEq => some ">>>="
  | .ampEq => some "&="
  | .barEq => some "|="
  | .caretEq => some "^="
  | .ampAmpEq => some "&&="
  | .barBarEq => some "||="
  | .nullishEq => some "??="
  | _ => none

/-- The assignment operator that stands here. -/
def atAssignOp? : Parser (Option String) := do
  match (← token).kind with
  | .punct p => return assignOp? p
  | _ => return none

/-- Whether a pattern can be the target of an assignment. -/
def isTargetPattern : Node → Bool
  | .mk (.pattern (.ident _ _)) _ _ | .mk (.pattern (.array _)) _ _
  | .mk (.pattern (.object _)) _ _ => true
  | .mk (.pattern .expr) _ [.mk (.expr form) _ _] => isAccess form
  | _ => false

/-- The operator and value after a target, if they are there. -/
def finishAssignment (grammar : Grammar) (offset : Nat) (target : Node) : Parser Node := do
  match ← atAssignOp? with
  | none => return target
  | some op =>
    let left ← do
      if op == "=" then
        rereadPattern .target target
      else
        if !isSimpleTarget target then
          complain target.span.start
            "The left-hand side of an assignment expression must be a variable or a property access."
        if isRestrictedName target then
          complain target.span.start "Invalid use of 'arguments' in strict mode"
        match target with
        | .mk (.expr (.ident name)) span _ =>
          pure (.mk (.pattern (.ident name false)) span [.absent])
        | e => pure (.mk (.pattern .expr) e.span [e])
    if !isTargetPattern left then
      failAt target.span.start "Invalid assignment target"
    advance
    let value ← grammar .assignment
    finish offset (.expr (.assign op)) [left, value]

end Retouch.Syntax.Parser
