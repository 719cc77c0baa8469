import Retouch.Proofs.Edits
import Retouch.Proofs.Indenting

/-!
# Chains and switches run the same branch

What a chain of conditions does and what the switch written for it does are compared by running
both. A machine says what a test comes to and what a statement does whose parts do not matter here;
blocks, conditions, `return` and `throw` run as the language says. Nothing is assumed of the states
of a machine, so a trace of what has run can be one.

- `Machine.Runs`: a statement takes a state to another and completes in one of three ways.
- `Machine.not_runs_normal`: a statement that `Switch.terminates` accepts never completes normally.
- `Machine.RunsSwitch`: a switch is entered at the case for a value and runs on from case to case
  until something leaves it.
- `Switch.WrittenAs`: a text holds the words of a switch, the labels of its cases and, but for their
  indentation, the statements of its cases.
- `Switch.switch_runs_chosen_branch`: a chain of strict equalities and its switch both run the
  branch that is for the value, and no other.

A `break` of a branch leaves the switch, where it would have left what is around the chain. The
branch that runs is the same, so the comparison is up to who catches a break.
-/

namespace Retouch

open Syntax (Node Form)

/-- How a statement completes. -/
inductive Completion where
  | normal
  /-- A break that nothing has caught yet. -/
  | breaks
  /-- Control goes elsewhere: a return, a jump to a label, an exception. -/
  | leaves
deriving DecidableEq

/-- What is left of a completion outside a construct that catches breaks. -/
def Completion.caught : Completion → Completion
  | .breaks => .normal
  | c => c

/-- What expressions and the simplest statements do to the states of a machine. -/
structure Machine (σ : Type) where
  /-- The test of a condition comes to a truth value, or to none when evaluating it is left. -/
  test : Node → σ → Option Bool → σ → Prop
  /-- A `return` or a `throw` leads to a state in which control has gone elsewhere. -/
  leave : Node → σ → σ → Prop
  /-- Any other statement completes in some way. -/
  other : Node → σ → Completion → σ → Prop

namespace Machine

/-- Whether control always goes elsewhere after a statement. -/
def alwaysLeaves : Form → Bool
  | .stmt .returnStmt | .stmt .throwStmt => true
  | _ => false

/-- Whether a statement runs by the rules for its form and not as its machine says. -/
def hasRule : Form → Bool
  | .absent | .stmt .block | .stmt .ifElse => true
  | form => alwaysLeaves form

mutual

/-- Running a statement takes a state to another and completes. -/
inductive Runs {σ : Type} (M : Machine σ) : Node → σ → Completion → σ → Prop where
  | absent (span : Span) (parts : List Node) (s : σ) :
      Runs M (.mk .absent span parts) s .normal s
  | block (span : Span) {parts : List Node} {s s' : σ} {c : Completion}
      (hparts : RunsAll M parts s c s') : Runs M (.mk (.stmt .block) span parts) s c s'
  | yes (span : Span) {test yes : Node} (no : Node) {s s₁ s' : σ} {c : Completion}
      (htest : M.test test s (some true) s₁) (hyes : Runs M yes s₁ c s') :
      Runs M (.mk (.stmt .ifElse) span [test, yes, no]) s c s'
  | no (span : Span) {test no : Node} (yes : Node) {s s₁ s' : σ} {c : Completion}
      (htest : M.test test s (some false) s₁) (hno : Runs M no s₁ c s') :
      Runs M (.mk (.stmt .ifElse) span [test, yes, no]) s c s'
  | untested (span : Span) {test : Node} (yes no : Node) {s s' : σ}
      (htest : M.test test s none s') :
      Runs M (.mk (.stmt .ifElse) span [test, yes, no]) s .leaves s'
  | leaves {n : Node} {s s' : σ} (hform : alwaysLeaves n.form = true) (hleave : M.leave n s s') :
      Runs M n s .leaves s'
  | other {n : Node} {s s' : σ} {c : Completion} (hform : hasRule n.form = false)
      (hother : M.other n s c s') : Runs M n s c s'

/-- Statements run in order until one does not complete normally. -/
inductive RunsAll {σ : Type} (M : Machine σ) : List Node → σ → Completion → σ → Prop where
  | nil (s : σ) : RunsAll M [] s .normal s
  | next {n : Node} {rest : List Node} {s s₁ s' : σ} {c : Completion}
      (hn : Runs M n s .normal s₁) (hrest : RunsAll M rest s₁ c s') :
      RunsAll M (n :: rest) s c s'
  | stop {n : Node} (rest : List Node) {s s' : σ} {c : Completion}
      (hn : Runs M n s c s') (hc : c ≠ .normal) : RunsAll M (n :: rest) s c s'

end

variable {σ : Type} {M : Machine σ}

/-! ### What the rules allow -/

theorem runs_absent_iff {n : Node} (hn : n.form = .absent) {s s' : σ} {c : Completion} :
    M.Runs n s c s' ↔ c = .normal ∧ s' = s := by
  obtain ⟨form, span, parts⟩ := n
  obtain rfl : form = .absent := hn
  constructor
  · intro h
    cases h with
    | absent => exact ⟨rfl, rfl⟩
    | leaves hform => cases hform
    | other hform => cases hform
  · rintro ⟨rfl, rfl⟩
    exact .absent span parts s'

theorem runs_block_iff {span : Span} {parts : List Node} {s s' : σ} {c : Completion} :
    M.Runs (.mk (.stmt .block) span parts) s c s' ↔ M.RunsAll parts s c s' := by
  constructor
  · intro h
    cases h with
    | block _ hparts => exact hparts
    | leaves hform => cases hform
    | other hform => cases hform
  · exact .block span

/-- A condition whose test has only one outcome runs one side. -/
theorem runs_ifElse_iff {span : Span} {test yes no : Node} {s s' : σ} {c : Completion}
    {b : Bool} (htest : ∀ r s₁, M.test test s r s₁ ↔ r = some b ∧ s₁ = s) :
    M.Runs (.mk (.stmt .ifElse) span [test, yes, no]) s c s' ↔
      M.Runs (if b then yes else no) s c s' := by
  constructor
  · intro h
    cases h with
    | yes _ _ ht hyes =>
      obtain ⟨hb, rfl⟩ := (htest _ _).mp ht
      cases hb
      exact hyes
    | no _ _ ht hno =>
      obtain ⟨hb, rfl⟩ := (htest _ _).mp ht
      cases hb
      exact hno
    | untested _ _ _ ht =>
      obtain ⟨hb, -⟩ := (htest _ _).mp ht
      cases hb
    | leaves hform => cases hform
    | other hform => cases hform
  · intro h
    cases b with
    | true => exact .yes span no ((htest _ _).mpr ⟨rfl, rfl⟩) h
    | false => exact .no span yes ((htest _ _).mpr ⟨rfl, rfl⟩) h

theorem runsAll_cons_iff {n : Node} {rest : List Node} {s s' : σ} {c : Completion} :
    M.RunsAll (n :: rest) s c s' ↔
      (∃ s₁, M.Runs n s .normal s₁ ∧ M.RunsAll rest s₁ c s') ∨
      (c ≠ .normal ∧ M.Runs n s c s') := by
  constructor
  · intro h
    cases h with
    | next hn hrest => exact .inl ⟨_, hn, hrest⟩
    | stop _ hn hc => exact .inr ⟨hc, hn⟩
  · rintro (⟨s₁, hn, hrest⟩ | ⟨hc, hn⟩)
    · exact .next hn hrest
    · exact .stop rest hn hc

theorem runsAll_nil_iff {s s' : σ} {c : Completion} :
    M.RunsAll [] s c s' ↔ c = .normal ∧ s' = s := by
  constructor
  · intro h
    cases h
    exact ⟨rfl, rfl⟩
  · rintro ⟨rfl, rfl⟩
    exact .nil s'

theorem runsAll_singleton_iff {n : Node} {s s' : σ} {c : Completion} :
    M.RunsAll [n] s c s' ↔ M.Runs n s c s' := by
  rw [runsAll_cons_iff]
  constructor
  · rintro (⟨s₁, hn, hrest⟩ | ⟨-, hn⟩)
    · obtain ⟨rfl, rfl⟩ := runsAll_nil_iff.mp hrest
      exact hn
    · exact hn
  · intro hn
    by_cases hc : c = .normal
    · subst hc
      exact .inl ⟨s', hn, .nil s'⟩
    · exact .inr ⟨hc, hn⟩

/-! ### Statements that never complete normally -/

mutual

/-- A statement that control never falls out of does not complete normally. -/
theorem not_runs_normal {n : Node} (hn : Switch.terminates n = true) {s s' : σ} :
    ¬ M.Runs n s .normal s' := by
  intro h
  cases h with
  | absent => simp [Switch.terminates] at hn
  | block _ hparts =>
    rw [Switch.terminates] at hn
    exact not_runsAll_normal hn hparts
  | yes _ _ _ hyes =>
    rw [Switch.terminates, Bool.and_eq_true] at hn
    exact not_runs_normal hn.1 hyes
  | no _ _ _ hno =>
    rw [Switch.terminates, Bool.and_eq_true] at hn
    exact not_runs_normal hn.2 hno
  | other hform _ =>
    -- the forms that `terminates` accepts all have a rule
    obtain ⟨form, span, parts⟩ := n
    rw [Switch.terminates.eq_def] at hn
    split at hn <;> simp_all [hasRule, alwaysLeaves, Node.form]
termination_by sizeOf n

/-- Statements do not all complete normally when one of them never does. -/
theorem not_runsAll_normal {ns : List Node} (hns : Switch.someTerminates ns = true) {s s' : σ} :
    ¬ M.RunsAll ns s .normal s' := by
  intro h
  cases h with
  | nil => simp [Switch.someTerminates] at hns
  | next hn hrest =>
    rw [Switch.someTerminates, Bool.or_eq_true] at hns
    rcases hns with hns | hns
    · exact not_runs_normal hns hn
    · exact not_runsAll_normal hns hrest
  | stop _ _ hc => exact hc rfl
termination_by sizeOf ns

end

/-! ### Switches -/

end Machine

namespace Switch

/-- A case of a switch: its literal, or nothing for the default, its statements, and whether a
break stands behind them. -/
structure Case where
  value : Option Node
  body : List Node
  breaks : Bool

/-- The case that a branch is written as. -/
def Branch.toCase (breaks : Bool) (b : Branch) : Case := ⟨b.value, statements b.body, breaks⟩

/-- The cases that a chain is written as. -/
def Chain.cases (chain : Chain) : List Case :=
  chain.branches.map (Branch.toCase !chain.branches.all fun b => terminates b.body)

/-- The cases from the one on at which control enters, given which literals equal the value: the
first with such a literal, else the default. -/
def entry (equals : Node → Bool) (cases : List Case) : List Case :=
  match cases.dropWhile fun k => !k.value.any equals with
  | [] => cases.dropWhile fun k => k.value.isSome
  | entered => entered

/-- The branch of a chain that is for a value, given which literals equal it: the first with such a
literal, else the last `else`. -/
def Chain.chosen? (equals : Node → Bool) (chain : Chain) : Option Branch :=
  (chain.branches.find? fun b => b.value.any equals).or
    (chain.branches.find? fun b => b.value.isNone)

/-- Every test of a chain is a strict equality. -/
def isStrict : Node → Bool
  | .mk (.stmt .ifElse) _ [test, _, no] => test.form == .expr (.binary .eqEqEq) && isStrict no
  | _ => true

/-- A branch with a literal is chosen when the literal equals the value, and else one behind it. -/
theorem chosen?_cons (equals : Node → Bool) (subject literal body : Node) (more : List Branch) :
    Chain.chosen? equals ⟨subject, ⟨some literal, body⟩ :: more⟩ =
      if equals literal then some ⟨some literal, body⟩ else Chain.chosen? equals ⟨subject, more⟩ := by
  unfold Chain.chosen?
  cases hequal : equals literal with
  | true => simp [hequal]
  | false => simp [hequal]

/-- Control enters a switch at the case of the branch that is for the value. -/
theorem head?_entry_cases (chain : Chain) (equals : Node → Bool) :
    (entry equals chain.cases).head? =
      (chain.chosen? equals).map (Branch.toCase !chain.branches.all fun b => terminates b.body) := by
  have hfind (p : Option Node → Bool) :
      (chain.cases.dropWhile fun k => !p k.value).head? =
        (chain.branches.find? fun b => p b.value).map
          (Branch.toCase !chain.branches.all fun b => terminates b.body) := by
    rw [← List.find?_eq_head?_dropWhile_not, Chain.cases, List.find?_map]
    rfl
  have hmatch := hfind fun value => value.any equals
  have hdefault := hfind Option.isNone
  simp only [Option.not_isNone] at hdefault
  unfold entry Chain.chosen?
  split
  · next hnone =>
    rw [hnone, List.head?_nil, eq_comm, Option.map_eq_none_iff] at hmatch
    rw [hmatch, Option.none_or]
    exact hdefault
  · next hsome =>
    rw [hmatch]
    cases hb : chain.branches.find? fun b => b.value.any equals with
    | none =>
      rw [hb, Option.map_none, List.head?_eq_none_iff] at hmatch
      exact absurd hmatch hsome
    | some b => rfl

theorem entry_subset (equals : Node → Bool) (cases : List Case) : entry equals cases ⊆ cases := by
  unfold entry
  split
  · exact (List.dropWhile_suffix _).subset
  · exact (List.dropWhile_suffix _).subset

end Switch

namespace Machine

open Switch (Case Chain)

variable {σ : Type} {M : Machine σ}

/-- The bodies of cases run one after the other until something leaves the switch. -/
inductive RunsFrom (M : Machine σ) : List Case → σ → Completion → σ → Prop where
  | nil (s : σ) : RunsFrom M [] s .normal s
  | stop {k : Case} (rest : List Case) {s s' : σ} {c : Completion}
      (hbody : M.RunsAll k.body s c s') (hc : c ≠ .normal) : RunsFrom M (k :: rest) s c s'
  | breaks {k : Case} (rest : List Case) {s s' : σ}
      (hbody : M.RunsAll k.body s .normal s') (hk : k.breaks = true) :
      RunsFrom M (k :: rest) s .breaks s'
  | next {k : Case} {rest : List Case} {s s₁ s' : σ} {c : Completion}
      (hbody : M.RunsAll k.body s .normal s₁) (hk : k.breaks = false)
      (hrest : RunsFrom M rest s₁ c s') : RunsFrom M (k :: rest) s c s'

/-- A switch is entered at one case, runs on from there and catches breaks. -/
def RunsSwitch (M : Machine σ) (equals : Node → Bool) (cases : List Case) (s : σ) (c : Completion)
    (s' : σ) : Prop :=
  ∃ inner, M.RunsFrom (Switch.entry equals cases) s inner s' ∧ c = inner.caught

/-- The expression that a chain compares has a fixed value in a state: comparing it strictly with a
literal changes nothing and says whether the literal equals the value. -/
def Fixes (M : Machine σ) (s : σ) (subject : Node) (equals : Node → Bool) : Prop :=
  ∀ span parts operand literal,
    Switch.equality? (.mk (.expr (.binary .eqEqEq)) span parts) = some (operand, literal) →
    subject.same operand = true → ∀ r s',
      M.test (.mk (.expr (.binary .eqEqEq)) span parts) s r s' ↔ r = some (equals literal) ∧ s' = s

/-- Control does not run on from the body of a case into the next. -/
def Closed (M : Machine σ) (k : Case) : Prop :=
  k.breaks = true ∨ ∀ s s', ¬ M.RunsAll k.body s .normal s'

/-- Entered at a closed case, a switch runs the statements of that case and no others. -/
theorem runsFrom_closed_iff {k : Case} (hk : M.Closed k) {rest : List Case} {s s' : σ}
    {c : Completion} :
    (∃ inner, M.RunsFrom (k :: rest) s inner s' ∧ c = inner.caught) ↔
      ∃ inner, M.RunsAll k.body s inner s' ∧ c = inner.caught := by
  constructor
  · rintro ⟨inner, hrun, rfl⟩
    cases hrun with
    | stop _ hbody _ => exact ⟨inner, hbody, rfl⟩
    | breaks _ hbody _ => exact ⟨.normal, hbody, rfl⟩
    | next hbody hbreaks _ =>
      rcases hk with hk | hk
      · rw [hk] at hbreaks
        cases hbreaks
      · exact absurd hbody (hk _ _)
  · rintro ⟨inner, hbody, rfl⟩
    by_cases hinner : inner = .normal
    · subst hinner
      rcases hk with hk | hk
      · exact ⟨.breaks, .breaks rest hbody hk, rfl⟩
      · exact absurd hbody (hk _ _)
    · exact ⟨inner, .stop rest hbody hinner, rfl⟩

theorem runsAll_statements_iff {body : Node} {s s' : σ} {c : Completion} :
    M.RunsAll (Switch.statements body) s c s' ↔ M.Runs body s c s' := by
  obtain ⟨form, span, parts⟩ := body
  unfold Switch.statements
  split
  · next hform =>
    obtain rfl : form = .stmt .block := hform
    exact runs_block_iff.symm
  · exact runsAll_singleton_iff

/-- Breaks stand behind the cases of a chain unless no branch completes normally. -/
theorem closed_of_mem_cases {chain : Chain} {k : Case} (hk : k ∈ chain.cases) : M.Closed k := by
  obtain ⟨b, hb, rfl⟩ := List.mem_map.mp hk
  cases hall : chain.branches.all fun b => Switch.terminates b.body with
  | false => exact .inl rfl
  | true =>
    refine .inr fun s s' hbody => ?_
    have hterminates : Switch.terminates b.body = true := List.all_eq_true.mp hall b hb
    exact not_runs_normal hterminates ((runsAll_statements_iff).mp hbody)

/-- A branch runs its statements, and where there is none nothing happens. -/
def RunsBranch (M : Machine σ) (branch : Option Switch.Branch) (s : σ) (c : Completion) (s' : σ) :
    Prop :=
  match branch with
  | some b => M.RunsAll (Switch.statements b.body) s c s'
  | none => c = .normal ∧ s' = s

/-- The switch of a chain runs the branch that is for the value. -/
theorem runsSwitch_cases_iff (chain : Chain) (equals : Node → Bool) {s s' : σ} {c : Completion} :
    M.RunsSwitch equals chain.cases s c s' ↔
      ∃ inner, M.RunsBranch (chain.chosen? equals) s inner s' ∧ c = inner.caught := by
  have hhead := Switch.head?_entry_cases chain equals
  unfold RunsSwitch
  cases hentry : Switch.entry equals chain.cases with
  | nil =>
    rw [hentry, List.head?_nil, eq_comm, Option.map_eq_none_iff] at hhead
    rw [hhead]
    constructor
    · rintro ⟨inner, hrun, rfl⟩
      cases hrun
      exact ⟨.normal, ⟨rfl, rfl⟩, rfl⟩
    · rintro ⟨inner, ⟨rfl, rfl⟩, rfl⟩
      exact ⟨.normal, .nil s', rfl⟩
  | cons k rest =>
    have hk : k ∈ chain.cases := Switch.entry_subset equals chain.cases (by simp [hentry])
    rw [hentry, List.head?_cons, eq_comm, Option.map_eq_some_iff] at hhead
    obtain ⟨b, hb, rfl⟩ := hhead
    rw [hb]
    exact runsFrom_closed_iff (closed_of_mem_cases hk)

/-- A chain of strict equalities runs the branch that is for the value. -/
theorem runs_branches_iff {subject : Node} {equals : Node → Bool} {s : σ}
    (hvalue : M.Fixes s subject equals) {head : Node} {branches : List Switch.Branch}
    (hbranches : Switch.branches? (some subject) head = some branches)
    (hstrict : Switch.isStrict head = true) {s' : σ} {c : Completion} :
    M.Runs head s c s' ↔ M.RunsBranch (Chain.chosen? equals ⟨subject, branches⟩) s c s' := by
  -- the first branch runs when its literal equals the value, and else what follows it runs
  have hfirst {span : Span} {test yes no operand literal : Node}
      (heq : Switch.equality? test = some (operand, literal))
      (hagrees : Switch.agrees (some subject) operand = true)
      (hstrict : Switch.isStrict (.mk (.stmt .ifElse) span [test, yes, no]) = true) :
      M.Runs (.mk (.stmt .ifElse) span [test, yes, no]) s c s' ↔
        M.Runs (if equals literal then yes else no) s c s' := by
    rw [Switch.isStrict, Bool.and_eq_true, beq_iff_eq] at hstrict
    obtain ⟨form, testSpan, parts⟩ := test
    obtain rfl : form = .expr (.binary .eqEqEq) := hstrict.1
    exact runs_ifElse_iff (hvalue testSpan parts operand literal heq hagrees)
  generalize hknown : some subject = known at hbranches
  fun_induction Switch.branches? known head generalizing branches with
  | case1 => cases hbranches
  | case2 known span test yes no operand literal heq =>
    rename_i hagrees _ hform
    subst hknown
    cases hbranches
    rw [hfirst heq hagrees hstrict, Switch.chosen?_cons]
    cases equals literal with
    | true => exact (runsAll_statements_iff).symm
    | false => exact runs_absent_iff hform
  | case3 known span test yes no operand literal heq hagrees branch hform =>
    rename_i ih
    subst hknown
    obtain ⟨more, hmore, rfl⟩ := Option.map_eq_some_iff.mp hbranches
    rw [hfirst heq hagrees hstrict, Switch.chosen?_cons]
    rw [Switch.isStrict, Bool.and_eq_true] at hstrict
    cases equals literal with
    | true => exact (runsAll_statements_iff).symm
    | false => exact ih hstrict.2 rfl hmore
  | case4 known span test yes no operand literal heq hagrees =>
    subst hknown
    cases hbranches
    rw [hfirst heq hagrees hstrict, Switch.chosen?_cons]
    cases equals literal with
    | true => exact (runsAll_statements_iff).symm
    | false => exact (runsAll_statements_iff).symm
  | case5 => cases hbranches
  | case6 => cases hbranches

end Machine

namespace Syntax.Node

mutual

theorem same_refl : ∀ n : Node, n.same n = true
  | .mk form span parts => by
    rw [same, sameList_refl parts, beq_self_eq_true, Bool.and_self]

theorem sameList_refl : ∀ ns : List Node, sameList ns ns = true
  | [] => rfl
  | n :: ns => by rw [sameList, same_refl n, sameList_refl ns, Bool.and_self]

end

end Syntax.Node

namespace Switch

/-- The branches of a chain are found just as well by one who knows the compared expression. -/
theorem branches?_subject {head : Node} {chain : Chain} (h : chain? head = some chain) :
    branches? (some chain.subject) head = some chain.branches := by
  unfold chain? at h
  split at h
  · next span test rest =>
    split at h
    · next subject value branches heq hbranches =>
      cases h
      rw [branches?.eq_def] at hbranches ⊢
      split at hbranches
      · next hhead =>
        cases hhead
        rw [heq] at hbranches ⊢
        simpa [agrees, Node.same_refl] using hbranches
      · cases hbranches
    · cases h
  · cases h

/-- The indentation of the line in which a construct starts. -/
def indentOf (d : Document) (n : Node) : Text := d.text.indentation (d.range n.span).start

/-- The indentation of the statements of a case. -/
def bodyIndent (d : Document) (settings : Settings) (head : Node) : Text :=
  indentOf d head ++ settings.indentUnit d.text

theorem isIndent_of_mem_indentOf {d : Document} {n : Node} {c : Char} (hc : c ∈ indentOf d n) :
    Text.isIndent c = true := by
  unfold indentOf Text.indentation at hc
  split at hc
  · exact List.all_eq_true.mp List.all_takeWhile c hc
  · cases hc

theorem isIndent_of_mem_bodyIndent {d : Document} {settings : Settings} {head : Node} {c : Char}
    (hc : c ∈ bodyIndent d settings head) : Text.isIndent c = true := by
  rcases List.mem_append.mp hc with hc | hc
  · exact isIndent_of_mem_indentOf hc
  · unfold Settings.indentUnit indentUnit at hc
    split at hc
    · rw [List.mem_singleton.mp hc]
      decide
    · rw [List.eq_of_mem_replicate hc]
      decide

/-- A line opens a case: it holds the literal as the document spells it, or the word for all other
values. -/
def Opens (d : Document) (indent : Text) (value : Option Node) (line : Text) : Prop :=
  match value with
  | some v => ∃ literal, d.slice (d.range v.span) = .ok literal ∧
      line = indent ++ "case ".toList ++ literal ++ ":\n".toList
  | none => line = indent ++ "default:\n".toList

/-- Lines hold a statement: it is spelled as in the document, but for the white space with which its
lines start. -/
def Holds (d : Document) (indent : Text) (n : Node) (lines : Text) : Prop :=
  ∃ source moved, d.slice (d.range n.span) = .ok source ∧ Moved false source moved ∧
    moved = reindent source (indentOf d n) indent ∧ lines = indent ++ moved ++ ['\n']

/-- A text writes a case: the line that opens it, its statements and a break where one is due. -/
def Case.WrittenAs (k : Case) (d : Document) (indent bodyIndent text : Text) : Prop :=
  ∃ line body, Opens d indent k.value line ∧ List.Forall₂ (Holds d bodyIndent) k.body body ∧
    text = line ++ body.flatten ++ if k.breaks then bodyIndent ++ "break;\n".toList else []

/-- A text writes a switch: the compared expression and the cases in order. -/
def WrittenAs (subject : Node) (cases : List Case) (d : Document) (indent bodyIndent text : Text) :
    Prop :=
  ∃ head texts, d.slice (d.range subject.span) = .ok head ∧
    List.Forall₂ (fun k part => k.WrittenAs d indent bodyIndent part) cases texts ∧
    text = "switch (".toList ++ head ++ ") \x7b\n".toList ++ texts.flatten ++ indent
      ++ "\x7d".toList

theorem caseLine_opens {d : Document} {indent line : Text} {value : Option Node}
    (h : caseLine d indent value = .ok line) : Opens d indent value line := by
  cases value with
  | some v =>
    obtain ⟨literal, hliteral, h⟩ := Outcome.bind_eq_ok h
    cases h
    exact ⟨literal, hliteral, rfl⟩
  | none =>
    cases h
    rfl

theorem statementText_holds {d : Document} {indent lines : Text} {n : Node}
    (hindent : ∀ c ∈ indent, Text.isIndent c = true)
    (h : statementText d indent n = .ok lines) : Holds d indent n lines := by
  obtain ⟨source, hsource, h⟩ := Outcome.bind_eq_ok h
  cases h
  exact ⟨source, _, hsource, moved_reindent hindent source (indentOf d n), rfl, rfl⟩

theorem forall₂_of_mapM {α β : Type} {f : α → Outcome β} {list : List α} {results : List β}
    (h : list.mapM f = .ok results) : List.Forall₂ (fun a b => f a = .ok b) list results := by
  induction list generalizing results with
  | nil =>
    rw [List.mapM_nil] at h
    cases h
    exact .nil
  | cons a rest ih =>
    rw [List.mapM_cons] at h
    obtain ⟨b, hb, h⟩ := Outcome.bind_eq_ok h
    obtain ⟨bs, hbs, h⟩ := Outcome.bind_eq_ok h
    cases h
    exact .cons hb (ih hbs)

theorem caseText_writtenAs {d : Document} {indent new text : Text} {addBreak : Bool} {b : Branch}
    (hnew : ∀ c ∈ new, Text.isIndent c = true) (h : caseText d indent new addBreak b = .ok text) :
    (b.toCase addBreak).WrittenAs d indent new text := by
  obtain ⟨line, hline, h⟩ := Outcome.bind_eq_ok h
  obtain ⟨body, hbody, h⟩ := Outcome.bind_eq_ok h
  cases h
  exact ⟨line, body, caseLine_opens hline,
    (forall₂_of_mapM hbody).imp fun n lines => statementText_holds hnew, rfl⟩

/-- The text of a switch is that of the cases of its chain. -/
theorem switchText_writtenAs {d : Document} {settings : Settings} {head : Node} {chain : Chain}
    {text : Text} (h : switchText d settings ⟨head, chain⟩ = .ok text) :
    WrittenAs chain.subject chain.cases d (d.text.indentation (d.range head.span).start)
      (d.text.indentation (d.range head.span).start ++ settings.indentUnit d.text) text := by
  obtain ⟨subject, hsubject, h⟩ := Outcome.bind_eq_ok h
  obtain ⟨texts, htexts, h⟩ := Outcome.bind_eq_ok h
  cases h
  have hnew (c : Char) (hc : c ∈ bodyIndent d settings head) : Text.isIndent c = true :=
    isIndent_of_mem_bodyIndent hc
  refine ⟨subject, texts, hsubject, ?_, rfl⟩
  rw [Chain.cases, List.forall₂_map_left_iff]
  exact (forall₂_of_mapM htexts).imp fun b part => caseText_writtenAs hnew

/-- A chain whose tests are strict equalities is written as a switch that runs the same branch: for
every value of the compared expression, the chain and the switch both run the statements of the
first branch whose literal equals it, else of the last `else`, else none. Control does not run on
into another case, since breaks are left out only where no branch completes normally. -/
theorem switch_runs_chosen_branch {σ : Type} (M : Machine σ) {head : Node} {chain : Chain}
    (hchain : chain? head = some chain) (hstrict : isStrict head = true) {s : σ}
    {equals : Node → Bool} (hvalue : M.Fixes s chain.subject equals) :
    (∀ c s', M.Runs head s c s' ↔ M.RunsBranch (chain.chosen? equals) s c s') ∧
    (∀ c s', M.RunsSwitch equals chain.cases s c s' ↔
      ∃ inner, M.RunsBranch (chain.chosen? equals) s inner s' ∧ c = inner.caught) ∧
    (∀ k ∈ chain.cases, M.Closed k) ∧
    (∀ n, terminates n = true → ∀ s₁ s', ¬ M.Runs n s₁ .normal s') ∧
    ∀ (t : Tree) (selection : Selection) (settings : Settings) (x : Transformation),
      target? t selection = some ⟨head, chain⟩ → transform t selection settings = .ok x →
      ∃ text, WrittenAs chain.subject chain.cases t.document
          (t.document.text.indentation (t.document.range head.span).start)
          (t.document.text.indentation (t.document.range head.span).start ++
            settings.indentUnit t.document.text) text ∧
        Transformation.ofBatch t [⟨t.document.range head.span, text⟩] selection = .ok x := by
  refine ⟨fun c s' => ?_, fun c s' => ?_, fun k hk => ?_, fun n hn s₁ s' => ?_, ?_⟩
  · exact Machine.runs_branches_iff hvalue (branches?_subject hchain) hstrict
  · exact Machine.runsSwitch_cases_iff chain equals
  · exact Machine.closed_of_mem_cases hk
  · exact Machine.not_runs_normal hn
  · intro t selection settings x htarget htransform
    unfold transform at htransform
    rw [htarget] at htransform
    obtain ⟨text, htext, hx⟩ := Outcome.bind_eq_ok htransform
    exact ⟨text, switchText_writtenAs htext, hx⟩

/-- The condition `if (x === null) return; else debugger;`. -/
def nullCheck : Node :=
  .mk (.stmt .ifElse) ⟨0, 38⟩
    [.mk (.expr (.binary .eqEqEq)) ⟨4, 14⟩
      [.mk (.expr (.ident "x")) ⟨4, 5⟩ [], .mk (.expr .null) ⟨10, 14⟩ []],
    .mk (.stmt .returnStmt) ⟨16, 23⟩ [.absent], .mk (.stmt .debugger) ⟨29, 38⟩ []]

/-- A machine that writes down where the statements start that it runs, and that knows which
literals its value equals. -/
def tracing (equals : Node → Bool) : Machine (List Nat) where
  test n s r s' := ∃ operand literal, equality? n = some (operand, literal) ∧
    r = some (equals literal) ∧ s' = s
  leave n s s' := s' = s ++ [n.span.start]
  other n s c s' := c = .normal ∧ s' = s ++ [n.span.start]

/-- Of the two statements, a switch for the condition runs the one for the value; and the switch that
is written for such a condition holds the literal, both statements and a break behind each. -/
theorem switch_runs_chosen_branch_null :
    (∃ chain, chain? nullCheck = some chain ∧
      (tracing fun _ => true).RunsSwitch (fun _ => true) chain.cases [] .leaves [16] ∧
      (tracing fun _ => false).RunsSwitch (fun _ => false) chain.cases [] .normal [29]) ∧
    ∃ d target x text written, Document.parse {}
        "function f(x) \x7b\n  if (x === null) return;\n  else debugger;\n\x7d".toList = .ok d ∧
      target? (Tree.ofDocument d) (.cursor ⟨1, 2⟩) = some target ∧
      transform (Tree.ofDocument d) (.cursor ⟨1, 2⟩) {} = .ok x ∧
      x.output d.text (.cursor ⟨1, 2⟩) = .ok text ∧
      text = ("function f(x) \x7b\n  switch (x) \x7b\n  case null:\n    return;\n    break;\n" ++
        "  default:\n    debugger;\n    break;\n  \x7d\n\x7d").toList ∧
      WrittenAs target.chain.subject target.chain.cases d "  ".toList "    ".toList written := by
  have hfixes (b : Bool) (subject : Node) : (tracing fun _ => b).Fixes [] subject fun _ => b := by
    intro span parts operand literal heq _ r s'
    simp [tracing, heq]
  constructor
  · have hchain : chain? nullCheck = some _ := rfl
    have hruns (b : Bool) :=
      (switch_runs_chosen_branch (tracing fun _ => b) hchain rfl (hfixes b _)).2.1
    refine ⟨_, rfl, (hruns true _ _).mpr ⟨.leaves, ?_, rfl⟩,
      (hruns false _ _).mpr ⟨.normal, ?_, rfl⟩⟩
    · exact Machine.runsAll_singleton_iff.mpr (.leaves rfl rfl)
    · exact Machine.runsAll_singleton_iff.mpr (.other rfl ⟨rfl, rfl⟩)
  · obtain ⟨d, hd, hfound, houtput⟩ :
        ∃ d, Document.parse {}
            "function f(x) \x7b\n  if (x === null) return;\n  else debugger;\n\x7d".toList = .ok d ∧
          ((target? (Tree.ofDocument d) (.cursor ⟨1, 2⟩)).map fun target =>
            (isStrict target.head, indentOf d target.head, bodyIndent d {} target.head)) =
            some (true, "  ".toList, "    ".toList) ∧
          ((transform (Tree.ofDocument d) (.cursor ⟨1, 2⟩) {}).toOption.bind fun x =>
            (x.output d.text (.cursor ⟨1, 2⟩)).toOption) =
            some ("function f(x) \x7b\n  switch (x) \x7b\n  case null:\n    return;\n    break;\n" ++
              "  default:\n    debugger;\n    break;\n  \x7d\n\x7d").toList :=
      Document.exists_parse (by decide +kernel)
    obtain ⟨target, htarget, hfound⟩ := Option.map_eq_some_iff.mp hfound
    obtain ⟨x, hx, hout⟩ := Option.bind_eq_some_iff.mp houtput
    have hx : transform (Tree.ofDocument d) (.cursor ⟨1, 2⟩) {} = .ok x :=
      Outcome.eq_ok_of_toOption hx
    obtain ⟨id, e, -, hhead, -, hchain⟩ := exists_site htarget
    rw [← hhead] at hchain
    simp only [Prod.mk.injEq] at hfound
    obtain ⟨hstrict, hindent, hbody⟩ := hfound
    obtain ⟨-, -, -, -, hwrites⟩ :=
      switch_runs_chosen_branch (tracing fun _ => true) hchain hstrict (hfixes true _)
    obtain ⟨written, hwritten, -⟩ := hwrites (Tree.ofDocument d) (.cursor ⟨1, 2⟩) {} x htarget hx
    refine ⟨d, target, x, _, written, hd, htarget, hx, Outcome.eq_ok_of_toOption hout, rfl, ?_⟩
    rw [← hindent, ← hbody]
    exact hwritten

end Switch

end Retouch
