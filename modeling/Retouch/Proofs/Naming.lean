import Retouch.Proofs.Scopes

/-!
# Where names lead

A name can stand for a value, a type, or something that holds further names, and for several of them
at once. Each of these meanings is declared in scopes and occurs in the constructs inside of them.

- `Syntax.resolve`: where a name leads, seen from inside of scopes.
- `Syntax.Naming`: for names of one kind, which scopes constructs open and which names occur in them.
- `Syntax.Naming.occurrences`: the names that occur in a tree, each with where it leads.
- `Syntax.Naming.occurrences_append`: what is around a tree matters to its free names only.
- `Syntax.Naming.occurrences_eq_iff`: so two scopes around statements are alike to them exactly if
  they are for the free names.
- `Syntax.values`, `Syntax.types`, `Syntax.spaces`: the names that stand for values, for types, and
  for what holds names.
-/

namespace Retouch.Syntax

/-! ## Scopes -/

/-- A scope: names with the ranges of what declares them. -/
abbrev Scope := List (String × Span)

/-- What declares a name in a scope. -/
def Scope.declarers (scope : Scope) (name : String) : List Span :=
  (scope.filter fun entry => entry.1 == name).map Prod.snd

/-- The scope of names that one construct declares. -/
def scopeOf (names : List String) (span : Span) : Scope := names.map fun name => (name, span)

theorem declarers_append (a b : Scope) (name : String) :
    Scope.declarers (a ++ b) name = a.declarers name ++ b.declarers name := by
  unfold Scope.declarers
  rw [List.filter_append, List.map_append]

theorem declarers_flatMap {α : Type} (list : List α) (scope : α → Scope) (name : String) :
    Scope.declarers (list.flatMap scope) name = list.flatMap fun a => (scope a).declarers name := by
  unfold Scope.declarers
  rw [List.filter_flatMap, List.map_flatMap]

theorem declarers_eq_nil_iff {scope : Scope} {name : String} :
    scope.declarers name = [] ↔ name ∉ scope.map Prod.fst := by
  unfold Scope.declarers
  rw [List.map_eq_nil_iff, List.filter_eq_nil_iff, List.mem_map]
  constructor
  · rintro h ⟨entry, hmem, rfl⟩
    exact h entry hmem (beq_self_eq_true _)
  · intro h entry hmem hname
    exact h ⟨entry, hmem, beq_iff_eq.mp hname⟩

/-- Where a name leads, seen from inside of scopes, innermost first: how many scopes are around the
one in which it is declared, and what declares it there. -/
def resolve : List Scope → String → Option (Nat × List Span)
  | [], _ => none
  | scope :: outer, name =>
    if scope.declarers name = [] then resolve outer name
    else some (outer.length, scope.declarers name)

/-- A name leads to one of the scopes. -/
theorem resolve_lt {scopes : List Scope} {name : String} {depth : Nat} {declarers : List Span}
    (h : resolve scopes name = some (depth, declarers)) : depth < scopes.length := by
  induction scopes with
  | nil => cases h
  | cons scope outer ih =>
    rw [resolve] at h
    split at h
    · exact Nat.lt_succ_of_lt (ih h)
    · cases h
      exact Nat.lt_succ_self _

/-- Two scopes in one place lead a name to the same place exactly if the same declares it there. -/
theorem resolve_cons_eq_iff {a b : Scope} {outer : List Scope} {name : String} :
    resolve (a :: outer) name = resolve (b :: outer) name ↔ a.declarers name = b.declarers name := by
  refine ⟨fun h => ?_, fun h => by rw [resolve, resolve, h]⟩
  -- a scope around both is not at their depth
  have hout (declarers : List Span) : resolve outer name ≠ some (outer.length, declarers) :=
    fun h => Nat.lt_irrefl _ (resolve_lt h)
  rw [resolve, resolve] at h
  by_cases ha : a.declarers name = []
  · by_cases hb : b.declarers name = []
    · rw [ha, hb]
    · rw [if_pos ha, if_neg hb] at h
      exact absurd h (hout _)
  · by_cases hb : b.declarers name = []
    · rw [if_neg ha, if_pos hb] at h
      exact absurd h.symm (hout _)
    · rw [if_neg ha, if_neg hb] at h
      exact (Prod.mk.inj (Option.some.inj h)).2

/-! ## Kinds of names -/

/-- How names of one kind are declared and used. -/
structure Naming where
  /-- the scopes that a construct with the given range and parts opens for one of its parts,
  innermost first -/
  opens : Form → Span → List Node → Nat → Node → List Scope
  /-- the names that occur at a construct with the given parts, not counting those in its parts -/
  occurring : Form → List Node → List String
  /-- the parts in which names of this kind can occur, by their index -/
  enters : Form → Nat → Bool

/-- A name that occurs somewhere, with where it leads. -/
structure Occurrence where
  span : Span
  name : String
  target : Option (Nat × List Span)
deriving DecidableEq

/-- An occurrence inside of further scopes: a name that is declared further in leads there, and any
other one out of the tree. -/
def Occurrence.within (outer : List Scope) (o : Occurrence) : Occurrence :=
  { o with target := match o.target with
    | some (depth, declarers) => some (depth + outer.length, declarers)
    | none => resolve outer o.name }

theorem resolve_append (inner outer : List Scope) (span : Span) (name : String) :
    (⟨span, name, resolve (inner ++ outer) name⟩ : Occurrence) =
      Occurrence.within outer ⟨span, name, resolve inner name⟩ := by
  induction inner with
  | nil => rfl
  | cons scope inner ih =>
    rw [List.cons_append, resolve, resolve]
    by_cases h : scope.declarers name = []
    · rw [if_pos h, if_pos h]
      exact ih
    · rw [if_neg h, if_neg h, List.length_append]
      rfl

/-- Inside of one scope, a name leads nowhere if neither the tree nor the scope declares it. -/
theorem Occurrence.within_eq_none_iff {scope : Scope} {o : Occurrence} :
    (o.within [scope]).target = none ↔ o.target = none ∧ scope.declarers o.name = [] := by
  obtain ⟨span, name, target⟩ := o
  cases target with
  | some target => exact ⟨nofun, fun h => nomatch h.1⟩
  | none =>
    show (if scope.declarers name = [] then none else some (0, scope.declarers name)) = none ↔ _
    by_cases h : scope.declarers name = []
    · rw [if_pos h]
      exact ⟨fun _ => ⟨rfl, h⟩, fun _ => rfl⟩
    · rw [if_neg h]
      exact ⟨nofun, fun hboth => absurd hboth.2 h⟩

namespace Naming

variable (k : Naming)

mutual

/-- The names that occur in a tree, in order, given the scopes around it. -/
def occurrences (scopes : List Scope) : Node → List Occurrence
  | .mk form span parts =>
    ((k.occurring form parts).map fun name => ⟨span, name, resolve scopes name⟩)
      ++ occurrencesFrom scopes form span parts 0 parts

/-- The names that occur in the parts of a construct from an index on. -/
def occurrencesFrom (scopes : List Scope) (form : Form) (span : Span) (all : List Node) :
    Nat → List Node → List Occurrence
  | _, [] => []
  | i, part :: rest =>
    (if k.enters form i then occurrences (k.opens form span all i part ++ scopes) part else [])
      ++ occurrencesFrom scopes form span all (i + 1) rest

end

/-- The names that occur in trees and that nothing in them binds. -/
def freeNames (trees : List Node) : List String :=
  ((trees.flatMap (k.occurrences [])).filter fun o => o.target.isNone).map Occurrence.name

mutual

/-- What is around a tree matters to its free names only. -/
theorem occurrences_append (inner outer : List Scope) : ∀ n : Node,
    k.occurrences (inner ++ outer) n = (k.occurrences inner n).map (Occurrence.within outer)
  | .mk form span parts => by
    rw [occurrences, occurrences, List.map_append,
      occurrencesFrom_append inner outer form span parts 0 parts]
    congr 1
    rw [List.map_map]
    exact List.map_congr_left fun name _ => resolve_append inner outer span name

theorem occurrencesFrom_append (inner outer : List Scope) (form : Form) (span : Span)
    (all : List Node) : ∀ (i : Nat) (parts : List Node),
    k.occurrencesFrom (inner ++ outer) form span all i parts =
      (k.occurrencesFrom inner form span all i parts).map (Occurrence.within outer)
  | _, [] => rfl
  | i, part :: rest => by
    rw [occurrencesFrom, occurrencesFrom, List.map_append,
      occurrencesFrom_append inner outer form span all (i + 1) rest]
    split
    · rw [← List.append_assoc, occurrences_append (k.opens form span all i part ++ inner) outer part]
    · rfl

end

theorem flatMap_occurrences (trees : List Node) (scopes : List Scope) :
    trees.flatMap (k.occurrences scopes) =
      (trees.flatMap (k.occurrences [])).map (Occurrence.within scopes) := by
  rw [List.map_flatMap]
  exact congrArg (trees.flatMap ·) (funext fun n => k.occurrences_append [] scopes n)

theorem mem_freeNames_iff {trees : List Node} {name : String} :
    name ∈ k.freeNames trees ↔
      ∃ o ∈ trees.flatMap (k.occurrences []), o.target = none ∧ o.name = name := by
  rw [freeNames, List.mem_map]
  constructor
  · rintro ⟨o, ho, hname⟩
    obtain ⟨hmem, hfree⟩ := List.mem_filter.mp ho
    exact ⟨o, hmem, Option.isNone_iff_eq_none.mp hfree, hname⟩
  · rintro ⟨o, hmem, hfree, hname⟩
    exact ⟨o, List.mem_filter.mpr ⟨hmem, Option.isNone_iff_eq_none.mpr hfree⟩, hname⟩

/-- The names of trees lead to the same places in one or the other scope exactly if those that are
free in the trees do. -/
theorem occurrences_eq_iff {trees : List Node} {a b : Scope} {outer : List Scope} :
    trees.flatMap (k.occurrences (a :: outer)) = trees.flatMap (k.occurrences (b :: outer)) ↔
      ∀ name ∈ k.freeNames trees, a.declarers name = b.declarers name := by
  rw [k.flatMap_occurrences trees (a :: outer), k.flatMap_occurrences trees (b :: outer),
    List.map_inj_left]
  constructor
  · intro h name hname
    obtain ⟨o, hmem, hfree, rfl⟩ := k.mem_freeNames_iff.mp hname
    have htarget := congrArg Occurrence.target (h o hmem)
    simp only [Occurrence.within, hfree] at htarget
    exact resolve_cons_eq_iff.mp htarget
  · intro h o hmem
    unfold Occurrence.within
    cases htarget : o.target with
    | some target => rfl
    | none =>
      have hname : o.name ∈ k.freeNames trees := k.mem_freeNames_iff.mpr ⟨o, hmem, htarget, rfl⟩
      simp only [resolve_cons_eq_iff.mpr (h o.name hname)]

/-- The free names of a construct are those of its parts that it does not declare for them. -/
theorem mem_freeNames_of_opens {n : Node} {scope : Scope} {name : String}
    (h : k.occurrences [] n = n.parts.flatMap (k.occurrences [scope])) :
    name ∈ k.freeNames [n] ↔ name ∈ k.freeNames n.parts ∧ scope.declarers name = [] := by
  rw [k.mem_freeNames_iff, k.mem_freeNames_iff, List.flatMap_singleton, h,
    k.flatMap_occurrences n.parts [scope]]
  constructor
  · rintro ⟨_, hmem, hfree, rfl⟩
    obtain ⟨o, ho, rfl⟩ := List.mem_map.mp hmem
    obtain ⟨hnone, hout⟩ := Occurrence.within_eq_none_iff.mp hfree
    exact ⟨⟨o, ho, hnone, rfl⟩, hout⟩
  · rintro ⟨⟨o, ho, hnone, rfl⟩, hout⟩
    exact ⟨_, List.mem_map_of_mem ho, Occurrence.within_eq_none_iff.mpr ⟨hnone, hout⟩, rfl⟩

/-- From an index on, all parts are entered and have the same scopes opened for them. -/
theorem occurrencesFrom_eq_flatMap {k : Naming} {scopes opened : List Scope} {form : Form}
    {span : Span} {all : List Node} {i : Nat} (henters : ∀ j, k.enters form j = true)
    (h : ∀ j part, i ≤ j → k.opens form span all j part = opened) (parts : List Node) :
    k.occurrencesFrom scopes form span all i parts =
      parts.flatMap (k.occurrences (opened ++ scopes)) := by
  induction parts generalizing i with
  | nil => rfl
  | cons part rest ih =>
    rw [occurrencesFrom, if_pos (henters i), h i part (Nat.le_refl i), List.flatMap_cons,
      ih fun j part hj => h j part (Nat.le_of_succ_le hj)]

end Naming

/-! ## Declarations -/

open Node

/-- The names of types that a declaration makes in the list that it stands in. -/
def DeclForm.typeNames (d : DeclForm) (parts : List Node) : List String :=
  match d with
  | .interface _ | .typeAlias _ | .classDecl _ | .enum _ _ =>
    (parts.head?.bind leadingName?).toList
  | _ => []

/-- The names of what holds further names that a declaration makes in the list that it stands in. -/
def DeclForm.spaceNames (d : DeclForm) (parts : List Node) : List String :=
  match d with
  | .enum _ _ | .namespaceDecl _ .named => (parts.head?.bind leadingName?).toList
  | _ => []

namespace Node

/-- The names of types that a statement, an import or an export makes in the list that it stands
in. Whether an import is a type is not known. -/
def typeNames (n : Node) : List String :=
  match n.form, n.parts with
  | .stmt (.declaration d), parts | .decl d, parts => d.typeNames parts
  | .moduleItem .exportDecl, [.mk (.decl d) _ parts] => d.typeNames parts
  | .moduleItem .exportDefaultDecl, [name, .mk (.classBody _) _ _] => name.leadingName?.toList
  | .moduleItem .exportDefaultInterface, name :: _ | .moduleItem (.importEquals _ _), name :: _ =>
    name.leadingName?.toList
  | .moduleItem (.importDecl _ _), specifiers :: _ => specifiers.parts.filterMap importedName?
  | _, _ => []

/-- The names of what holds further names that a statement, an import or an export makes in the list
that it stands in. Whether an import holds names is not known. -/
def spaceNames (n : Node) : List String :=
  match n.form, n.parts with
  | .stmt (.declaration d), parts | .decl d, parts => d.spaceNames parts
  | .moduleItem .exportDecl, [.mk (.decl d) _ parts] => d.spaceNames parts
  | .moduleItem (.importEquals _ _), name :: _ => name.leadingName?.toList
  | .moduleItem (.importDecl _ _), specifiers :: _ => specifiers.parts.filterMap importedName?
  | _, _ => []

/-- The names that an export lists, if it takes them from no other module. -/
def exportedNames : List Node → List String
  | [names, source, _] =>
    if source.isPresent then [] else names.parts.filterMap fun n => n.parts.head?.bind leadingName?
  | _ => []

end Node

/-! ## Lists of statements -/

/-- The scope of a list of statements, given the names that a statement declares. -/
def listScope (names : Node → List String) (statements : List Node) : Scope :=
  statements.flatMap fun n => scopeOf (names n) n.span

/-- The scopes that a construct opens for the statements in it. A side of an `if` that is no block is
treated like a block with one statement. -/
def Form.opensList (names : Node → List String) (form : Form) (parts : List Node) (i : Nat)
    (part : Node) : List Scope :=
  match form with
  | .program | .block | .stmt .block => [listScope names parts]
  | .stmt .ifElse =>
    if i = 0 ∨ part.form = .stmt .block ∨ i = 2 ∧ part.form = .stmt .ifElse then []
    else [listScope names [part]]
  | .stmt .switchStmt =>
    if i = 0 then [] else [listScope names (parts.tail.flatMap fun case => case.parts.tail)]
  | _ => []

/-! ## Names of values -/

/-- The scopes that a construct opens for names of values. -/
def Form.opensValues (form : Form) (span : Span) (parts : List Node) (i : Nat) (part : Node) :
    List Scope :=
  match form with
  | .program => [listScope declaredNames parts]
  | .stmt .forLoop | .stmt .forInLoop | .stmt (.forOfLoop _) =>
    [scopeOf (Node.mk form span parts).iterationNames span]
  | .function _ _ => functionScopes (i = 4)
  | .expr (.arrow _) => functionScopes (i = 3)
  | .member (.constructor _) | .property .getter | .property .setter => functionScopes (i = 2)
  | .member .staticBlock => functionScopes true
  | .stmt (.declaration (.namespaceDecl _ _)) | .decl (.namespaceDecl _ _) =>
    [scopeOf (varNamesAll parts) span]
  | .expr .function | .expr .classExpr | .stmt (.declaration (.classDecl _))
  | .decl (.classDecl _) => [scopeOf (parts.head?.bind leadingName?).toList span]
  | .stmt (.declaration (.enum _ _)) | .decl (.enum _ _) =>
    [scopeOf (parts.filterMap fun m => m.parts.head?.bind leadingName?) span]
  | .catchClause | .type .function | .type (.constructor _) | .element _ | .member (.index _) =>
    [scopeOf (boundNamesAll parts) span]
  | form => form.opensList lexicalNames parts i part
where
  /-- The parameters of a function, and in its body also the variables that are declared there. -/
  functionScopes (isBody : Bool) : List Scope :=
    [scopeOf (boundNamesAll parts ++ if isBody then varNamesAll parts else []) span]

/-- The value that an element is made from: the first of several names that are joined by points, or
a name that is no built-in one. -/
def Node.tagValue? (n : Node) : Option String :=
  match n.form with
  | .qualified => n.leadingName?
  | _ => n.leadingName?.filter fun word =>
    !(word.toList.head?.any Char.isLower || word.toList.contains '-')

/-- The names of values that occur at a construct: as expressions, as targets of declarations and
assignments, as names of elements, as what a type is about, or in the list of an export. -/
def Form.occurringValues (form : Form) (parts : List Node) : List String :=
  match form with
  | .expr (.ident word) | .property (.shorthand word) | .pattern (.ident word _)
  | .pattern (.shorthand word) => [word]
  | .type .query | .type (.predicate _) => (parts.head?.bind leadingName?).toList
  | .expr .jsxElement => (parts.head?.bind tagValue?).toList
  | .moduleItem (.exportNamed _) => exportedNames parts
  | _ => []

/-- The names of values. What an interface extends or a class implements is a type. -/
def values : Naming where
  opens := Form.opensValues
  occurring := Form.occurringValues
  enters form i := !(form == .other "heritage" && i == 0)

/-! ## Names of types -/

/-- The part that holds the type parameters of a construct, by its index. -/
def Form.parameterIndex? : Form → Option Nat
  | .stmt (.declaration (.interface _)) | .decl (.interface _)
  | .stmt (.declaration (.typeAlias _)) | .decl (.typeAlias _)
  | .function _ _ | .classBody _ | .element (.method _) => some 1
  | .moduleItem .exportDefaultInterface => some 2
  | .expr (.arrow _) | .element .call | .element .construct | .type .function
  | .type (.constructor _) => some 0
  | _ => none

/-- The name of a type parameter. -/
def Node.parameterName? (n : Node) : Option String :=
  match n.form with
  | .typeParam name _ => some name
  | _ => none

/-- The scope of type parameters. -/
def parameterScope (parameters : List Node) : Scope :=
  parameters.flatMap fun p => scopeOf p.parameterName?.toList p.span

mutual

/-- The type parameters that a type infers. Those in the bound of a conditional type inside of it
belong to that one. -/
def Node.inferredScope : Node → Scope
  | .mk form _ parts =>
    (if form = .type .infer then parameterScope parts else []) ++ inferredScopeFrom form 0 parts

def inferredScopeFrom (form : Form) : Nat → List Node → Scope
  | _, [] => []
  | i, part :: rest =>
    (if form = .type .conditional ∧ i = 1 then [] else part.inferredScope)
      ++ inferredScopeFrom form (i + 1) rest

end

/-- The scopes that a construct opens for names of types. What the bound of a conditional type infers
is in scope in its first result only. -/
def Form.opensTypes (form : Form) (span : Span) (parts : List Node) (i : Nat) (part : Node) :
    List Scope :=
  match form.parameterIndex? with
  | some j => [(parts[j]?.map fun list => parameterScope list.parts).getD []]
  | none =>
    match form with
    | .expr .classExpr | .type (.mapped _ _) =>
      [scopeOf (parts.head?.bind leadingName?).toList span]
    | .type .infer => [parameterScope parts]
    | .type .conditional => if i = 2 then (parts[1]?.map Node.inferredScope).toList else []
    | form => form.opensList typeNames parts i part

/-- The names of types that occur at a construct: of a reference, of what an interface extends or a
class implements, or in the list of an export. A name before a point is none of a type. -/
def Form.occurringTypes (form : Form) (parts : List Node) : List String :=
  match form, parts with
  | .type .reference, .mk (.name word) _ _ :: _ => [word]
  | .other "heritage", .mk (.expr (.ident word)) _ _ :: _ => [word]
  | .moduleItem (.exportNamed _), _ => exportedNames parts
  | _, _ => []

/-- The names of types. -/
def types : Naming where
  opens := Form.opensTypes
  occurring := Form.occurringTypes
  enters _ _ := true

/-! ## Names of what holds names -/

/-- The first of the names that an expression joins by points. -/
def Node.leadingIdent? : Node → Option String
  | .mk (.expr (.ident word)) _ _ => some word
  | .mk (.expr .member) _ (object :: _) => leadingIdent? object
  | _ => none

/-- The names that occur at a construct for what holds further names: before a point in a type, or in
the list of an export. -/
def Form.occurringSpaces (form : Form) (parts : List Node) : List String :=
  match form, parts with
  | .type .reference, .mk .qualified _ (left :: _) :: _ => left.leadingName?.toList
  | .other "heritage", .mk (.expr .member) _ (object :: _) :: _ => object.leadingIdent?.toList
  | .moduleItem (.importEquals _ _), [_, reference] => reference.leadingName?.toList
  | .moduleItem (.exportNamed _), _ => exportedNames parts
  | _, _ => []

/-- The names of namespaces and the like. -/
def spaces : Naming where
  opens form _ := form.opensList spaceNames
  occurring := Form.occurringSpaces
  enters _ _ := true

/-! ## Meanings -/

/-- What a name can stand for: one name can stand for several things at once. -/
inductive Meaning where
  | value
  | type
  /-- something that holds further names -/
  | space
deriving DecidableEq

instance {P : Meaning → Prop} [DecidablePred P] : Decidable (∀ m, P m) :=
  decidable_of_iff (P .value ∧ P .type ∧ P .space)
    ⟨fun ⟨hvalue, htype, hspace⟩ m => by cases m <;> assumption, fun h => ⟨h _, h _, h _⟩⟩

namespace Meaning

/-- How the names that have a meaning are declared and used. -/
def naming : Meaning → Naming
  | value => values
  | type => types
  | space => spaces

/-- The names to which a statement gives a meaning in the list that it stands in. -/
def names : Meaning → Node → List String
  | value => lexicalNames
  | type => typeNames
  | space => spaceNames

variable (m : Meaning) {span : Span} {parts : List Node} {part : Node} {i : Nat}

theorem enters_stmt (f : StmtForm) : m.naming.enters (.stmt f) i = true := by
  cases m <;> rfl

/-- No name occurs at a statement itself. -/
theorem occurrences_stmt (f : StmtForm) (scopes : List Scope) :
    m.naming.occurrences scopes (.mk (.stmt f) span parts) =
      m.naming.occurrencesFrom scopes (.stmt f) span parts 0 parts := by
  cases m <;> rfl

/-- A case of a switch has no scope of its own. -/
theorem occurrences_switchCase (scopes : List Scope) :
    m.naming.occurrences scopes (.mk .switchCase span parts) =
      parts.flatMap (m.naming.occurrences scopes) := by
  have hopens : ∀ j part, 0 ≤ j → m.naming.opens .switchCase span parts j part = [] := by
    intro j part _
    cases m <;> rfl
  have henters (j : Nat) : m.naming.enters .switchCase j = true := by
    cases m <;> rfl
  have hparts : m.naming.occurrencesFrom scopes .switchCase span parts 0 parts =
      parts.flatMap (m.naming.occurrences scopes) :=
    Naming.occurrencesFrom_eq_flatMap henters hopens parts
  rw [← hparts]
  cases m <;> rfl

theorem opens_block : m.naming.opens (.stmt .block) span parts i part = [listScope m.names parts] := by
  cases m <;> rfl

theorem opens_ifElse : m.naming.opens (.stmt .ifElse) span parts i part =
    if i = 0 ∨ part.form = .stmt .block ∨ i = 2 ∧ part.form = .stmt .ifElse then []
    else [listScope m.names [part]] := by
  cases m <;> rfl

theorem opens_switchStmt : m.naming.opens (.stmt .switchStmt) span parts i part =
    if i = 0 then []
    else [listScope m.names (parts.tail.flatMap fun case => case.parts.tail)] := by
  cases m <;> rfl

end Meaning

end Retouch.Syntax
