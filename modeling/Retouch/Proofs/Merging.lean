import Retouch.Proofs.Naming

/-!
# Branches that come to share one scope

The block of each branch of a chain is a scope of its own; the cases of the switch that is written
for it share one. Names of branches can meet there.

- `Switch.Branch.scope`, `Switch.Chain.scope`: the scope of one branch, and the one of the switch.
- `Switch.Apart`: no name that one branch declares is declared or occurs free in the other with the
  same meaning.
- `Switch.switch_keeps_bindings_iff`: names in the branches lead to the same declarations after a
  conversion, and none is declared twice, exactly if the branches are apart.

Nothing in a conversion looks at the names of branches, so it also applies where they meet.
-/

namespace Retouch

open Syntax (Node Form)

/-! ## Branches -/

namespace Switch

open Syntax Syntax.Node

variable (m : Meaning)

/-- The scope that the statements of a branch have to themselves. -/
def Branch.scope (b : Branch) : Scope := listScope m.names (statements b.body)

/-- The names that a branch declares for its statements. -/
def Branch.declared (b : Branch) : List String := (b.scope m).map Prod.fst

/-- The names that occur in a branch and that it does not bind. -/
def Branch.free (b : Branch) : List String :=
  (m.naming.freeNames (statements b.body)).filter fun name => decide (name ∉ b.declared m)

/-- The names that occur in the statements of a branch. -/
def Branch.occurrences (scopes : List Scope) (b : Branch) : List Occurrence :=
  (statements b.body).flatMap (m.naming.occurrences scopes)

/-- The scope that the statements of all branches share in a switch. -/
def Chain.scope (chain : Chain) : Scope := chain.branches.flatMap (Branch.scope m)

/-- No name to which one branch gives a meaning is given that meaning by another branch, or occurs
with it free in it. -/
structure ApartIn (a b : Branch) : Prop where
  declared : ∀ name ∈ a.declared m, name ∉ b.declared m
  free : ∀ name ∈ a.declared m, name ∉ b.free m

instance (a b : Branch) : Decidable (ApartIn m a b) :=
  decidable_of_iff
    ((∀ name ∈ a.declared m, name ∉ b.declared m) ∧ ∀ name ∈ a.declared m, name ∉ b.free m)
    ⟨fun ⟨declared, free⟩ => ⟨declared, free⟩, fun h => ⟨h.declared, h.free⟩⟩

/-- No name that one branch declares, as a value, a type or a holder of names, is declared as the same
by another one, or occurs free as the same in it. -/
def Apart (a b : Branch) : Prop := ∀ m, ApartIn m a b

instance (a b : Branch) : Decidable (Apart a b) := inferInstanceAs (Decidable (∀ m, ApartIn m a b))

variable {m}

/-- Names of a branch lead to the same declarations in the scope that all branches share exactly if
no other branch declares one that is not bound further in. -/
theorem occurrences_branch_eq_iff {earlier later : List Branch} {b : Branch}
    (scopes : List Scope) :
    b.occurrences m (b.scope m :: scopes) =
        b.occurrences m ((earlier ++ b :: later).flatMap (Branch.scope m) :: scopes) ↔
      ∀ a ∈ earlier ++ later, ∀ name ∈ a.declared m, name ∉ m.naming.freeNames (statements b.body) := by
  rw [Branch.occurrences, Branch.occurrences, m.naming.occurrences_eq_iff]
  -- the declarations of the branch itself are among the shared ones, so the others have to be none
  have hothers (name : String) :
      (b.scope m).declarers name =
          Scope.declarers ((earlier ++ b :: later).flatMap (Branch.scope m)) name ↔
        ∀ a ∈ earlier ++ later, name ∉ a.declared m := by
    rw [declarers_flatMap, List.flatMap_append, List.flatMap_cons]
    constructor
    · intro h a ha
      have hlength := congrArg List.length h
      simp only [List.length_append] at hlength
      refine declarers_eq_nil_iff.mp ?_
      rcases List.mem_append.mp ha with ha | ha
      · have hnil : earlier.flatMap (fun b => (b.scope m).declarers name) = [] :=
          List.eq_nil_of_length_eq_zero (by omega)
        exact List.flatMap_eq_nil_iff.mp hnil a ha
      · have hnil : later.flatMap (fun b => (b.scope m).declarers name) = [] :=
          List.eq_nil_of_length_eq_zero (by omega)
        exact List.flatMap_eq_nil_iff.mp hnil a ha
    · intro h
      have hnil (list : List Branch) (hlist : ∀ a ∈ list, a ∈ earlier ++ later) :
          list.flatMap (fun b => (b.scope m).declarers name) = [] :=
        List.flatMap_eq_nil_iff.mpr fun a ha => declarers_eq_nil_iff.mpr (h a (hlist a ha))
      rw [hnil earlier fun a => List.mem_append_left _, hnil later fun a => List.mem_append_right _,
        List.nil_append, List.append_nil]
  simp only [hothers]
  constructor
  · intro h a ha name hdeclared hfree
    exact h name hfree a ha hdeclared
  · intro h name hfree a ha hdeclared
    exact h a ha name hdeclared hfree

/-- A relation holds both ways between any two members of a list exactly if it holds from all others
to each member. -/
theorem pairwise_iff_others {α : Type} {R : α → α → Prop} {list : List α} :
    list.Pairwise (fun a b => R a b ∧ R b a) ↔ ∀ earlier a later, list = earlier ++ a :: later →
      ∀ b ∈ earlier ++ later, R b a := by
  constructor
  · rintro h earlier a later rfl b hb
    rw [List.pairwise_append, List.pairwise_cons] at h
    rcases List.mem_append.mp hb with hb | hb
    · exact (h.2.2 b hb a List.mem_cons_self).1
    · exact (h.2.1.1 b hb).2
  · intro h
    induction list with
    | nil => exact .nil
    | cons x rest ih =>
      refine .cons (fun b hb => ⟨?_, h [] x rest rfl b hb⟩) (ih ?_)
      · obtain ⟨earlier, later, rfl⟩ := List.append_of_mem hb
        exact h (x :: earlier) b later rfl x List.mem_cons_self
      · rintro earlier a later rfl b hb
        exact h (x :: earlier) a later rfl b (List.mem_cons_of_mem x hb)

/-- Names in all branches lead to the same declarations in one shared scope, and no two branches
declare the same, exactly if any two branches are apart. -/
theorem occurrences_branches_eq_iff (branches : List Branch) (scopes : List Scope) :
    (∀ b ∈ branches, b.occurrences m (b.scope m :: scopes) =
        b.occurrences m (branches.flatMap (Branch.scope m) :: scopes)) ∧
      branches.Pairwise (fun a b => ∀ name ∈ a.declared m, name ∉ b.declared m) ↔
    branches.Pairwise fun a b => ApartIn m a b ∧ ApartIn m b a := by
  constructor
  · rintro ⟨hsame, hdeclared⟩
    have hboth := hdeclared.imp fun {a b} h => And.intro h fun name hb ha => h name ha hb
    refine pairwise_iff_others.mpr fun earlier b later hsplit a ha => ?_
    have hb := hsame b (by simp [hsplit])
    rw [hsplit, occurrences_branch_eq_iff] at hb
    exact ⟨pairwise_iff_others.mp hboth earlier b later hsplit a ha, fun name hname hfree =>
      hb a ha name hname (List.mem_filter.mp hfree).1⟩
  · intro h
    refine ⟨fun b hb => ?_, h.imp fun {a b} hab => hab.1.declared⟩
    obtain ⟨earlier, later, hsplit⟩ := List.append_of_mem hb
    rw [hsplit, occurrences_branch_eq_iff]
    intro a ha name hname hoccurs
    have hapart := pairwise_iff_others.mp h earlier b later hsplit a ha
    -- a name that occurs and is not declared there occurs free
    exact hapart.free name hname
      (List.mem_filter.mpr ⟨hoccurs, decide_eq_true (hapart.declared name hname)⟩)

/-! ## The branches before and after -/

variable {head : Node} {chain : Chain} {b : Branch} {scopes : List Scope}

/-- The side of an `if` that is a branch has its own scope, whether or not it is a block. -/
theorem occurrences_side (value : Option Node) {span : Span} {parts : List Node} {i : Nat}
    {side : Node} (hi : i ≠ 0) (helse : ¬ (i = 2 ∧ side.form = .stmt .ifElse)) :
    m.naming.occurrences (m.naming.opens (.stmt .ifElse) span parts i side ++ scopes) side =
      Branch.occurrences m (Branch.scope m ⟨value, side⟩ :: scopes) ⟨value, side⟩ := by
  unfold Branch.occurrences Branch.scope
  by_cases hblock : side.form = .stmt .block
  · obtain ⟨form, span, parts⟩ := side
    obtain rfl : form = .stmt .block := hblock
    rw [m.opens_ifElse, if_pos (.inr (.inl rfl)), List.nil_append, m.occurrences_stmt]
    exact Naming.occurrencesFrom_eq_flatMap (fun _ => m.enters_stmt _) (fun _ _ _ => m.opens_block)
      parts
  · have hstatements : statements side = [side] := by
      unfold statements
      split
      · contradiction
      · rfl
    have hopens : ¬ (i = 0 ∨ side.form = .stmt .block ∨ i = 2 ∧ side.form = .stmt .ifElse) := by
      rintro (h | h | h)
      · exact hi h
      · exact hblock h
      · exact helse h
    rw [m.opens_ifElse, if_neg hopens, hstatements, List.flatMap_singleton]
    rfl

/-- The names that occur in a branch are among those of the chain. -/
theorem occurrences_branch_sublist {known : Option Node} {branches : List Branch}
    (hbranches : branches? known head = some branches) (hb : b ∈ branches) :
    List.Sublist (b.occurrences m (b.scope m :: scopes)) (m.naming.occurrences scopes head) := by
  have hif (span : Span) (test yes no : Node) :
      m.naming.occurrences scopes (.mk (.stmt .ifElse) span [test, yes, no]) =
        m.naming.occurrences scopes test ++
          (m.naming.occurrences
              (m.naming.opens (.stmt .ifElse) span [test, yes, no] 1 yes ++ scopes) yes ++
            m.naming.occurrences
              (m.naming.opens (.stmt .ifElse) span [test, yes, no] 2 no ++ scopes) no) := by
    have htest : m.naming.opens (.stmt .ifElse) span [test, yes, no] 0 test = [] := by
      rw [m.opens_ifElse, if_pos (.inl rfl)]
    rw [m.occurrences_stmt]
    simp only [Naming.occurrencesFrom, m.enters_stmt, if_true, htest, List.nil_append,
      List.append_nil]
  have hyes (value : Option Node) (span : Span) (test yes no : Node) :
      List.Sublist (Branch.occurrences m (Branch.scope m ⟨value, yes⟩ :: scopes) ⟨value, yes⟩)
        (m.naming.occurrences scopes (.mk (.stmt .ifElse) span [test, yes, no])) := by
    rw [hif, occurrences_side value Nat.one_ne_zero (by simp)]
    exact (List.sublist_append_left _ _).trans (List.sublist_append_right _ _)
  fun_induction branches? known head generalizing branches with
  | case1 => cases hbranches
  | case2 known span test yes no =>
    cases hbranches
    rw [List.mem_singleton.mp hb]
    exact hyes _ span test yes no
  | case3 known span test yes no operand literal heq hagrees branch hform =>
    rename_i ih
    obtain ⟨more, hmore, rfl⟩ := Option.map_eq_some_iff.mp hbranches
    rcases List.mem_cons.mp hb with rfl | hb
    · exact hyes _ span test yes no
    · -- an `else if` opens no scope of its own
      have hopens : m.naming.opens (.stmt .ifElse) span [test, yes, no] 2 no = [] := by
        rw [m.opens_ifElse, if_pos (.inr (.inr ⟨rfl, hform⟩))]
      refine (ih hmore hb).trans ?_
      rw [hif, hopens, List.nil_append]
      exact (List.sublist_append_right _ _).trans (List.sublist_append_right _ _)
  | case4 known span test yes no operand literal heq hagrees branch =>
    rename_i habsent hform
    cases hbranches
    simp only [List.mem_cons, List.not_mem_nil, or_false] at hb
    rcases hb with rfl | rfl
    · exact hyes _ span test yes no
    · rw [hif, occurrences_side (i := 2) none (by simp) (fun h => hform h.2)]
      exact (List.sublist_append_right _ _).trans (List.sublist_append_right _ _)
  | case5 => cases hbranches
  | case6 => cases hbranches

/-- The statements of a switch are those of the branches, and of breaks, which declare nothing. -/
theorem listScope_cases (chain : Chain) :
    listScope m.names ((chain.cases.map Case.toNode).flatMap fun case => case.parts.tail) =
      chain.scope m := by
  have hcase (k : Case) : listScope m.names k.toNode.parts.tail = listScope m.names k.body := by
    show listScope m.names (k.body ++ if k.breaks then [newBreak] else []) = _
    unfold listScope
    rw [List.flatMap_append]
    cases k.breaks with
    | true =>
      have hbreak : m.names newBreak = [] := by cases m <;> rfl
      rw [if_pos rfl, List.flatMap_singleton, hbreak]
      exact List.append_nil _
    | false => exact List.append_nil _
  unfold Chain.scope Chain.cases
  rw [listScope, List.flatMap_assoc, List.flatMap_map, List.flatMap_map]
  exact congrArg (chain.branches.flatMap ·) (funext fun b => hcase _)

/-- The names that occur in a branch are among those of the switch, in whose scope they are. -/
theorem occurrences_case_sublist (hb : b ∈ chain.branches) (span : Span) :
    List.Sublist (b.occurrences m (chain.scope m :: scopes))
      (m.naming.occurrences scopes (chain.toSwitch span)) := by
  let k := b.toCase !chain.branches.all fun b => terminates b.body
  have hk : k.toNode ∈ chain.cases.map Case.toNode := List.mem_map_of_mem (List.mem_map_of_mem hb)
  have hcase : List.Sublist (b.occurrences m (chain.scope m :: scopes))
      (m.naming.occurrences (chain.scope m :: scopes) k.toNode) := by
    unfold Case.toNode
    rw [m.occurrences_switchCase, List.flatMap_cons, List.flatMap_append]
    exact (List.sublist_append_left _ _).trans (List.sublist_append_right _ _)
  have hcases : m.naming.occurrences scopes (chain.toSwitch span) =
      m.naming.occurrences scopes chain.subject ++
        (chain.cases.map Case.toNode).flatMap (m.naming.occurrences (chain.scope m :: scopes)) := by
    have hsubject : m.naming.opens (.stmt .switchStmt) span
        (chain.subject :: chain.cases.map Case.toNode) 0 chain.subject = [] := by
      rw [m.opens_switchStmt, if_pos rfl]
    have hopens : ∀ j part, 1 ≤ j → m.naming.opens (.stmt .switchStmt) span
        (chain.subject :: chain.cases.map Case.toNode) j part = [chain.scope m] := by
      intro j part hj
      have hcase : j ≠ 0 := by omega
      rw [m.opens_switchStmt, if_neg hcase, List.tail_cons, listScope_cases]
    rw [Chain.toSwitch, m.occurrences_stmt, Naming.occurrencesFrom, if_pos (m.enters_stmt _), hsubject,
      Naming.occurrencesFrom_eq_flatMap (fun _ => m.enters_stmt _) hopens]
    rfl
  rw [hcases, List.flatMap_def]
  exact (hcase.trans (List.sublist_flatten_of_mem (List.mem_map_of_mem hk))).trans
    (List.sublist_append_right _ _)

/-- What a conversion writes for the chain that it has found. -/
theorem transform_writtenAs {d : Document} {s : Selection} {target : Target}
    (htarget : target? (Tree.ofDocument d) s = some target) {settings : Settings}
    {x : Transformation} (hx : transform (Tree.ofDocument d) s settings = .ok x) :
    ∃ text, WrittenAs target.chain.subject target.chain.cases d
        (d.text.indentation (d.range target.head.span).start)
        (d.text.indentation (d.range target.head.span).start ++ settings.indentUnit d.text) text ∧
      Transformation.ofBatch (Tree.ofDocument d) [⟨d.range target.head.span, text⟩] s = .ok x := by
  unfold transform at hx
  rw [htarget] at hx
  obtain ⟨text, htext, hx⟩ := Outcome.bind_eq_ok hx
  exact ⟨text, switchText_writtenAs htext, hx⟩

/-- Branches that are apart are so for each meaning. -/
theorem pairwise_apart_iff {branches : List Branch} :
    branches.Pairwise (fun a b => Apart a b ∧ Apart b a) ↔
      ∀ m, branches.Pairwise fun a b => ApartIn m a b ∧ ApartIn m b a := by
  constructor
  · exact fun h m => h.imp fun {a b} hab => ⟨hab.1 m, hab.2 m⟩
  · intro h
    refine List.pairwise_iff_getElem.mpr fun i j hi hj hij => ⟨fun m => ?_, fun m => ?_⟩
    · exact (List.pairwise_iff_getElem.mp (h m) i j hi hj hij).1
    · exact (List.pairwise_iff_getElem.mp (h m) i j hi hj hij).2

end Switch

end Retouch
