import Retouch.Proofs.Breaks
import Retouch.Proofs.Hoisting

/-!
# Names and their scopes

Which names the constructs of a document declare, and where they are in scope.

- `Syntax.Node.boundNames`: the names that a pattern, a parameter or a declarator binds.
- `Syntax.Node.lexicalNames`, `Syntax.Node.varNames`: the names that a statement declares for the
  list that it stands in, and those that it declares for the whole function or module.
- `Syntax.Node.namesFor`, `Syntax.Node.namesThrough`: the names that a construct brings into scope
  for what it holds directly, and those that it brings into scope for the statements of its body or
  for the members of its class.
- `Tree.scopeAt`: the names that come into scope at a construct, on the way inwards.
- `Tree.scope?`: the construct to whose scope a name belongs, seen from another construct.

Names of types are left out, since no expression reads them. So are namespaces and enumerations as
scopes, since nothing in them has an entry in the tree.
-/

namespace Retouch

open Syntax (Node Form DeclForm)

namespace Syntax

/-! ## Names that constructs declare -/

namespace Node

mutual

/-- The names that a pattern, a parameter or a declarator binds, or a list of them. -/
def boundNames : Node → List String
  | .mk form _ parts =>
    match form with
    | .pattern (.ident name _) | .pattern (.shorthand name) => [name]
    | .pattern _ | .group | .parameter _ | .declarator _ | .loopVars _ => boundNamesAll parts
    | _ => []

def boundNamesAll : List Node → List String
  | [] => []
  | n :: rest => boundNames n ++ boundNamesAll rest

end

/-- The first of the names that are joined by points. -/
def leadingName? : Node → Option String
  | .mk (.name name) _ _ => some name
  | .mk .qualified _ (left :: _) => leadingName? left
  | _ => none

/-- The name under which something is imported: the last one of a specifier. -/
def importedName? (specifier : Node) : Option String :=
  (specifier.parts.filterMap leadingName?).getLast?

end Node

open Node

/-- The names that a declaration makes in the list that it stands in. -/
def DeclForm.lexicalNames (d : DeclForm) (parts : List Node) : List String :=
  match d with
  | .var .varWord _ => []
  | .var _ _ | .usingVars _ => boundNamesAll parts
  | .classDecl _ | .function _ | .enum _ _ | .namespaceDecl _ .named =>
    (parts.head?.bind leadingName?).toList
  | .namespaceDecl _ _ | .interface _ | .typeAlias _ => []

/-- Whether the parts of a construct are variables of the whole function. -/
def Form.declaresVars : Form → Bool
  | .stmt (.declaration (.var .varWord _)) | .decl (.var .varWord _) | .loopVars .varWord => true
  | _ => false

namespace Node

/-- The names that a statement, an import or an export makes in the list that it stands in. -/
def lexicalNames (n : Node) : List String :=
  match n.form, n.parts with
  | .stmt (.declaration d), parts | .decl d, parts => d.lexicalNames parts
  | .moduleItem .exportDecl, [.mk (.decl d) _ parts] => d.lexicalNames parts
  | .moduleItem .exportDefaultDecl, name :: _ | .moduleItem (.importEquals _ _), name :: _ =>
    name.leadingName?.toList
  | .moduleItem (.importDecl _ _), specifiers :: _ => specifiers.parts.filterMap importedName?
  | _, _ => []

mutual

/-- The variables that a construct declares for the whole function around it. -/
def varNames : Node → List String
  | .mk form _ parts =>
    if form.startsBody then []
    else (if form.declaresVars then boundNamesAll parts else []) ++ varNamesAll parts

def varNamesAll : List Node → List String
  | [] => []
  | n :: rest => varNames n ++ varNamesAll rest

end

/-- All names that a statement declares for what is around it. -/
def declaredNames (n : Node) : List String :=
  n.lexicalNames ++ n.varNames

/-- The names that the cases of a switch declare: they share one scope. -/
def caseNames (n : Node) : List String :=
  n.parts.flatMap fun part =>
    match part.form with
    | .switchCase => part.parts.flatMap lexicalNames
    | _ => []

/-- The names that the head of a loop declares for each iteration. -/
def iterationNames (n : Node) : List String :=
  n.parts.flatMap fun part =>
    match part.form with
    | .loopVars .varWord => []
    | .loopVars _ => part.boundNames
    | .other "using" => part.parts.filterMap leadingName?
    | _ => []

/-! ## Where they are in scope -/

/-- The names that a construct brings into scope for a construct of the given form that it holds
directly: those of a list for its statements, those of the cases of a switch for each case, and
those of loops and parameters for all parts. -/
def namesFor (outer : Node) (inner : Form) : List String :=
  match outer.form with
  | .program => if inner.isStatement then outer.parts.flatMap declaredNames else []
  | .block | .stmt .block => if inner.isStatement then outer.parts.flatMap lexicalNames else []
  | .stmt .switchStmt => if inner = .switchCase then outer.caseNames else []
  | .stmt .forLoop | .stmt .forInLoop | .stmt (.forOfLoop _) => outer.iterationNames
  | .function _ _ | .expr (.arrow _) | .member (.constructor _) => boundNamesAll outer.parts
  | .expr .function =>
    match inner with
    | .function _ _ => (outer.parts.head?.bind leadingName?).toList
    | _ => []
  | _ => []

/-- The names that a construct brings into scope for the statements of its body: the variables that
are declared anywhere in a function, the parameter of a setter, and the variable of a catch
clause. -/
def bodyNames (around : Node) : List String :=
  match around.form with
  | .catchClause => boundNamesAll around.parts
  | .property _ => boundNamesAll around.parts ++ varNamesAll around.parts
  | .function _ _ | .expr (.arrow _) | .member _ => varNamesAll around.parts
  | _ => []

/-- The names that a construct brings into scope one level further in: for the statements of its
body, and for the members of a class that it names. -/
def namesThrough (around outer : Node) (inner : Form) : List String :=
  match outer.form with
  | .block => if inner.isStatement then around.bodyNames else []
  | .classBody _ =>
    match inner with
    | .member _ => (around.parts.head?.bind leadingName?).toList
    | _ => []
  | _ => []

end Node

end Syntax

/-! ## Scopes in a tree -/

namespace Tree

/-- The names that come into scope at a construct, and are not in scope yet at the construct around
it for this reason. -/
def scopeAt (t : Tree) (id : Nat) : List String :=
  match t.form? id, (t.parent? id).bind t.get? with
  | some inner, some outer =>
    outer.node.namesFor inner ++
      match outer.parent.bind t.get? with
      | some around => around.node.namesThrough outer.node inner
      | none => []
  | _, _ => []

/-- A construct and those around it, innermost first. -/
def outwards (t : Tree) (id : Nat) : List Nat :=
  id :: t.ancestors id

/-- The construct to whose scope a name belongs, seen from a given construct. -/
def scope? (t : Tree) (id : Nat) (name : String) : Option Nat :=
  ((t.outwards id).find? fun c => decide (name ∈ t.scopeAt c)).bind t.parent?

/-- The constructs from one construct outwards that stand below another one. -/
def within (t : Tree) (id outer : Nat) : List Nat :=
  (t.outwards id).filter fun c => decide (outer ∈ t.ancestors c)

/-- The name that a construct reads. -/
def readName? (t : Tree) (id : Nat) : Option String :=
  match t.form? id with
  | some (.expr (.ident name)) | some (.property (.shorthand name)) => some name
  | _ => none

/-- A construct that reads a name and stands at or below another one, in which no scope on the way
has that name. -/
structure ReadsFree (t : Tree) (use id : Nat) (name : String) : Prop where
  read : t.readName? use = some name
  inside : id ∈ t.outwards use
  free : ∀ c ∈ t.within use id, name ∉ t.scopeAt c

instance (t : Tree) (use id : Nat) (name : String) : Decidable (t.ReadsFree use id name) :=
  decidable_of_iff (t.readName? use = some name ∧ id ∈ t.outwards use ∧
      ∀ c ∈ t.within use id, name ∉ t.scopeAt c)
    ⟨fun ⟨read, inside, free⟩ => ⟨read, inside, free⟩, fun h => ⟨h.read, h.inside, h.free⟩⟩

variable {d : Document} {id a c : Nat} {name : String}

theorem mem_outwards_iff :
    c ∈ (ofDocument d).outwards id ↔ c = id ∨ (ofDocument d).Under id c := by
  rw [outwards, List.mem_cons, mem_ancestors_iff]

theorem mem_within_iff :
    c ∈ (ofDocument d).within id a ↔
      (c = id ∨ (ofDocument d).Under id c) ∧ (ofDocument d).Under c a := by
  rw [within, List.mem_filter, mem_outwards_iff, decide_eq_true_eq, mem_ancestors_iff]

/-- Below a construct further out stand a construct and what stands there from its parent on. -/
theorem mem_within_of_isChildOf {p : Nat} (hlink : (ofDocument d).IsChildOf id p)
    (h : a ∈ (ofDocument d).outwards p) :
    c ∈ (ofDocument d).within id a ↔ c = id ∨ c ∈ (ofDocument d).within p a := by
  have hunder : (ofDocument d).Under id a := (under_iff hlink).mpr ((mem_outwards_iff).mp h)
  rw [mem_within_iff, mem_within_iff, under_iff hlink]
  constructor
  · rintro ⟨rfl | hc, hca⟩
    · exact .inl rfl
    · exact .inr ⟨hc, hca⟩
  · rintro (rfl | ⟨hc, hca⟩)
    · exact ⟨.inl rfl, hunder⟩
    · exact ⟨.inr hc, hca⟩

/-- The way outwards passes by what is below a construct, and then goes on from there. -/
theorem exists_outwards (h : a ∈ (ofDocument d).outwards id) :
    ∃ below, (ofDocument d).outwards id = below ++ (ofDocument d).outwards a ∧
      ∀ c, c ∈ below ↔ c ∈ (ofDocument d).within id a := by
  induction id using Nat.strong_induction_on with
  | _ id ih =>
    rcases (mem_outwards_iff).mp h with rfl | hunder
    · refine ⟨[], rfl, fun c => iff_of_false List.not_mem_nil fun hc => ?_⟩
      -- nothing is at once around a construct and below it
      obtain ⟨rfl | hac, hca⟩ := (mem_within_iff).mp hc
      · exact not_under_self hca
      · exact not_under_self (hca.trans hac)
    · obtain ⟨p, hlink, -⟩ := Relation.TransGen.head'_iff.mp hunder
      have hp : a ∈ (ofDocument d).outwards p :=
        (mem_outwards_iff).mpr ((under_iff hlink).mp hunder)
      obtain ⟨below, hway, hbelow⟩ := ih p hlink.lt hp
      refine ⟨id :: below, ?_, fun c => ?_⟩
      · rw [outwards, ancestors_of_parent hlink, ← outwards, hway, List.cons_append]
      · rw [List.mem_cons, hbelow, mem_within_of_isChildOf hlink hp]

/-! ## The scope of a name from two places -/

/-- A scope is around the construct from which it is seen. -/
theorem lt_of_scope? {scope : Nat} (h : (ofDocument d).scope? id name = some scope) :
    scope < id := by
  obtain ⟨c, hfound, hlink⟩ := Option.bind_eq_some_iff.mp h
  have hlt : scope < c := IsChildOf.lt hlink
  rcases (mem_outwards_iff).mp (List.mem_of_find?_eq_some hfound) with rfl | hunder
  · exact hlt
  · exact Nat.lt_trans hlt hunder.lt

/-- Seen from further in, a name is in the same scope if no scope on the way has it. -/
theorem scope?_eq (h : a ∈ (ofDocument d).outwards id)
    (hfree : ∀ c ∈ (ofDocument d).within id a, name ∉ (ofDocument d).scopeAt c) :
    (ofDocument d).scope? id name = (ofDocument d).scope? a name := by
  obtain ⟨below, hway, hbelow⟩ := exists_outwards h
  have hnone : below.find? (fun c => decide (name ∈ (ofDocument d).scopeAt c)) = none := by
    refine List.find?_eq_none.mpr fun c hc => ?_
    rw [decide_eq_true_eq]
    exact hfree c ((hbelow c).mp hc)
  rw [scope?, scope?, hway, List.find?_append, hnone, Option.none_or]

/-- The scope of a name is the same from two places exactly if no scope between them has it: one
that does would be at or below the outer place. -/
theorem scope?_eq_iff (h : (ofDocument d).Under id a) :
    (ofDocument d).scope? id name = (ofDocument d).scope? a name ↔
      ∀ c ∈ (ofDocument d).within id a, name ∉ (ofDocument d).scopeAt c := by
  have hmem : a ∈ (ofDocument d).outwards id := (mem_outwards_iff).mpr (.inr h)
  refine ⟨fun heq c hc hname => ?_, scope?_eq hmem⟩
  obtain ⟨below, hway, hbelow⟩ := exists_outwards hmem
  -- the first scope on the way that has the name is seen from inside, and from `a` one further out
  have hsome : (below.find? fun c => decide (name ∈ (ofDocument d).scopeAt c)).isSome = true :=
    List.find?_isSome.mpr ⟨c, (hbelow c).mpr hc, decide_eq_true hname⟩
  obtain ⟨first, hfirst⟩ := Option.isSome_iff_exists.mp hsome
  obtain ⟨-, hunder⟩ := (mem_within_iff).mp ((hbelow first).mp (List.mem_of_find?_eq_some hfirst))
  obtain ⟨p, hlink, hpath⟩ := Relation.TransGen.head'_iff.mp hunder
  have hscope : (ofDocument d).scope? id name = some p := by
    rw [scope?, hway, List.find?_append, hfirst, Option.some_or, Option.bind_some]
    exact hlink
  have hlt : p < a := lt_of_scope? (heq.symm.trans hscope)
  rcases Relation.reflTransGen_iff_eq_or_transGen.mp hpath with rfl | hpath
  · exact Nat.lt_irrefl _ hlt
  · exact Nat.lt_asymm hlt (Under.lt hpath)

end Tree

end Retouch
