import Retouch.Proofs.Branching

/-!
# Whole chains of conditions

An `if` with all its `else if`s is one spine. It is converted as a whole or not at all: the search
passes by every `if` that is the other side of another one, and the tests of a spine are all looked
at from its start.

- `Switch.spine`, `Switch.spineEnd`: the conditions of a spine, and what stands behind the last.
- `Switch.Compares`: an equality with a literal on exactly one side.
- `Switch.IsEqualityChain`: a spine whose tests compare one expression with literals.
- `Switch.chain?_eq_some_iff`: a chain is found exactly there, and has all of the spine.
- `Tree.ElseOf`: a construct that is the other side of an `if`.
- `Switch.converts_whole_chains`: where a conversion applies, what it replaces and what it writes.
-/

namespace Retouch

open Syntax (Node Form)

theorem Syntax.Form.isIf_iff {form : Form} : form.isIf = true ↔ form = .stmt .ifElse := by
  unfold isIf
  split
  · simp
  · next h => simpa using h

namespace Switch

/-! ## Spines -/

/-- A condition of a spine: its test, and the body that runs if the test holds. -/
structure Link where
  test : Node
  body : Node

/-- The conditions of an `if` and of every `else if` behind it. -/
def spine : Node → List Link
  | .mk (.stmt .ifElse) _ [test, yes, no] => ⟨test, yes⟩ :: spine no
  | _ => []

/-- What stands behind the last condition of a spine: a plain `else`, or nothing. -/
def spineEnd : Node → Node
  | .mk (.stmt .ifElse) _ [_, _, no] => spineEnd no
  | n => n

/-- A test that is an equality with a literal on exactly one side: the other side, and the
literal. -/
inductive Compares : Node → Node → Node → Prop where
  | literalRight {op : Syntax.BinaryOp} (hop : op = .eqEq ∨ op = .eqEqEq) (span : Span)
      {subject value : Node} (hsubject : isCaseValue subject = false)
      (hvalue : isCaseValue value = true) :
      Compares (.mk (.expr (.binary op)) span [subject, value]) subject value
  | literalLeft {op : Syntax.BinaryOp} (hop : op = .eqEq ∨ op = .eqEqEq) (span : Span)
      {subject value : Node} (hsubject : isCaseValue subject = false)
      (hvalue : isCaseValue value = true) :
      Compares (.mk (.expr (.binary op)) span [value, subject]) subject value

theorem equality?_eq_some_iff {test subject value : Node} :
    equality? test = some (subject, value) ↔ Compares test subject value := by
  constructor
  · intro h
    unfold equality? at h
    split at h
    · next op span left right =>
      split at h
      · next hop =>
        rw [Bool.or_eq_true, beq_iff_eq, beq_iff_eq] at hop
        split at h
        · next hleft hright =>
          cases h
          exact .literalRight hop.symm span hleft hright
        · next hleft hright =>
          cases h
          exact .literalLeft hop.symm span hright hleft
        · cases h
      · cases h
    · cases h
  · intro h
    cases h with
    | literalRight hop span hsubject hvalue =>
      rcases hop with rfl | rfl <;> simp [equality?, hsubject, hvalue]
    | literalLeft hop span hsubject hvalue =>
      rcases hop with rfl | rfl <;> simp [equality?, hsubject, hvalue]

/-- A condition that compares a given expression, up to byte ranges, with a literal. -/
def Link.IsFor (subject : Node) (link : Link) (value : Node) : Prop :=
  ∃ operand, Compares link.test operand value ∧ subject.same operand = true

/-- A spine each of whose tests compares the expression of the first test, up to byte ranges, with
one of the given literals. -/
structure IsEqualityChain (head subject : Node) (values : List Node) : Prop where
  first : ∃ link ∈ (spine head).head?, ∃ value, Compares link.test subject value
  every : List.Forall₂ (Link.IsFor subject) (spine head) values

/-- The branches of a spine, given the literals of its tests. -/
def spineBranches (head : Node) (values : List Node) : List Branch :=
  List.zipWith (fun link value => ⟨some value, link.body⟩) (spine head) values
    ++ if (spineEnd head).isPresent then [⟨none, spineEnd head⟩] else []

/-! ## Chains are spines -/

variable {head subject : Node} {branches : List Branch}

/-- The branches from an `if` on are its own and those of what stands behind it. -/
theorem branches?_ifElse {span : Span} {test yes no : Node} :
    branches? (some subject) (.mk (.stmt .ifElse) span [test, yes, no]) = some branches ↔
      ∃ value more, Link.IsFor subject ⟨test, yes⟩ value ∧ branches = ⟨some value, yes⟩ :: more ∧
        if no.form = .stmt .ifElse then branches? (some subject) no = some more
        else more = if no.isPresent then [⟨none, no⟩] else [] := by
  have hagrees (operand : Node) : agrees (some subject) operand = subject.same operand := rfl
  rw [branches?]
  constructor
  · intro h
    split at h
    · cases h
    · next operand value heq =>
      have hcompares := equality?_eq_some_iff.mp heq
      rw [hagrees] at h
      split at h
      · next hsame =>
        have hfor : Link.IsFor subject ⟨test, yes⟩ value := ⟨operand, hcompares, hsame⟩
        dsimp only at h
        split at h
        · next hform =>
          cases h
          exact ⟨value, [], hfor, rfl, by simp [hform, Node.isPresent]⟩
        · next hform =>
          obtain ⟨more, hmore, rfl⟩ := Option.map_eq_some_iff.mp h
          exact ⟨value, more, hfor, rfl, by rwa [if_pos hform]⟩
        · next habsent hif =>
          cases h
          refine ⟨value, _, hfor, rfl, ?_⟩
          rw [if_neg hif, if_pos (Node.isPresent_iff.mpr habsent)]
      · cases h
  · rintro ⟨value, more, ⟨operand, hcompares, hsame⟩, rfl, hmore⟩
    simp only [equality?_eq_some_iff.mpr hcompares, hagrees, hsame, if_true]
    split at hmore
    · next hform =>
      simp only [hform]
      rw [show (some subject).getD operand = subject from rfl, hmore]
      rfl
    · next hif =>
      subst hmore
      by_cases habsent : no.form = .absent
      · simp [habsent, Node.isPresent]
      · rw [if_pos (Node.isPresent_iff.mpr habsent)]
        split
        · contradiction
        · contradiction
        · rfl

theorem spine_of_form_ne (h : head.form ≠ .stmt .ifElse) :
    spine head = [] ∧ spineEnd head = head := by
  constructor
  · rw [spine.eq_def]
    split
    · exact absurd rfl h
    · rfl
  · rw [spineEnd.eq_def]
    split
    · exact absurd rfl h
    · rfl

/-- The branches of a spine are found exactly if all its tests compare the expression. -/
theorem branches?_eq_some_iff (hif : head.form = .stmt .ifElse)
    (hend : (spineEnd head).form ≠ .stmt .ifElse) :
    branches? (some subject) head = some branches ↔
      ∃ values, List.Forall₂ (Link.IsFor subject) (spine head) values ∧
        branches = spineBranches head values := by
  fun_induction spineEnd head generalizing branches with
  | case1 span test yes no ih =>
    rw [branches?_ifElse]
    have hspine : spine (.mk (.stmt .ifElse) span [test, yes, no]) = ⟨test, yes⟩ :: spine no := by
      rw [spine]
    have hbranches (value : Node) (values : List Node) :
        spineBranches (.mk (.stmt .ifElse) span [test, yes, no]) (value :: values) =
          ⟨some value, yes⟩ :: spineBranches no values := by
      rw [spineBranches, hspine, spineEnd]
      rfl
    -- what stands behind the first condition is the rest of the spine, or its end
    have hrest (more : List Branch) :
        (if no.form = .stmt .ifElse then branches? (some subject) no = some more
          else more = if no.isPresent then [⟨none, no⟩] else []) ↔
        ∃ values, List.Forall₂ (Link.IsFor subject) (spine no) values ∧
          more = spineBranches no values := by
      by_cases hno : no.form = .stmt .ifElse
      · rw [if_pos hno]
        exact ih hno hend
      · obtain ⟨hnil, hself⟩ := spine_of_form_ne hno
        rw [if_neg hno, hnil]
        simp [spineBranches, hnil, hself]
    constructor
    · rintro ⟨value, more, hfor, rfl, hmore⟩
      obtain ⟨values, hvalues, rfl⟩ := (hrest more).mp hmore
      exact ⟨value :: values, hspine ▸ .cons hfor hvalues, (hbranches value values).symm⟩
    · rintro ⟨values, hvalues, rfl⟩
      rw [hspine] at hvalues
      cases hvalues with
      | cons hfor hvalues =>
        exact ⟨_, _, hfor, hbranches _ _, (hrest _).mpr ⟨_, hvalues, rfl⟩⟩
  | case2 head => exact absurd hif hend

/-- It does not matter whether the compared expression is known from the start. -/
theorem branches?_none {span : Span} {test yes no value : Node}
    (h : equality? test = some (subject, value)) :
    branches? none (.mk (.stmt .ifElse) span [test, yes, no]) =
      branches? (some subject) (.mk (.stmt .ifElse) span [test, yes, no]) := by
  rw [branches?, branches?, h]
  simp only [agrees, Node.same_refl, if_true, Option.getD_none, Option.getD_some]

/-- A chain is found exactly where all tests of a spine compare one expression with literals, and it
has a branch for each condition and one for a plain `else` at the end. -/
theorem chain?_eq_some_iff {chain : Chain} (hif : head.form = .stmt .ifElse)
    (hend : (spineEnd head).form ≠ .stmt .ifElse) :
    chain? head = some chain ↔
      ∃ values, IsEqualityChain head chain.subject values ∧
        chain.branches = spineBranches head values := by
  -- an `if` that is not the end of its own spine has a test and two sides
  obtain ⟨span, test, yes, no, rfl⟩ :
      ∃ span test yes no, head = .mk (.stmt .ifElse) span [test, yes, no] := by
    rw [spineEnd.eq_def] at hend
    split at hend
    · exact ⟨_, _, _, _, rfl⟩
    · exact absurd hif hend
  have hspine : spine (.mk (.stmt .ifElse) span [test, yes, no]) = ⟨test, yes⟩ :: spine no := by
    rw [spine]
  constructor
  · intro h
    obtain ⟨values, hvalues, hbranches⟩ := (branches?_eq_some_iff hif hend).mp (branches?_subject h)
    refine ⟨values, ⟨⟨⟨test, yes⟩, by rw [hspine]; rfl, ?_⟩, hvalues⟩, hbranches⟩
    unfold chain? at h
    dsimp only at h
    split at h
    · next subject value found heq _ =>
      cases h
      exact ⟨value, equality?_eq_some_iff.mp heq⟩
    · cases h
  · rintro ⟨values, ⟨⟨link, hlink, value, hcompares⟩, hvalues⟩, hbranches⟩
    rw [hspine] at hlink
    cases hlink
    have heq := equality?_eq_some_iff.mpr hcompares
    have hfound := (branches?_eq_some_iff hif hend).mpr ⟨values, hvalues, rfl⟩
    rw [← branches?_none heq] at hfound
    simp only [chain?, heq, hfound]
    rw [← hbranches]

end Switch

/-! ## The other side of an `if` -/

open Outline

namespace Tree

/-- A construct that is the other side of an `if`: the third construct that the `if` holds. -/
def ElseOf (t : Tree) (id p : Nat) : Prop :=
  ∃ e outer span test yes a b, t.get? id = some e ∧ t.IsChildOf id p ∧ t.get? p = some outer ∧
    outer.node = .mk (.stmt .ifElse) span [test, yes, e.node] ∧ outer.children = [a, b, id]

variable {d : Document} {id p : Nat} {e outer : Entry} {n : Node}

/-- Behind the last condition of a spine stands no condition. -/
theorem Proper.spineEnd_ne (h : (ofDocument d).Proper) (hn : d.Shows n) :
    (Switch.spineEnd n).form ≠ .stmt .ifElse := by
  fun_induction Switch.spineEnd n with
  | case1 span test yes no ih =>
    by_cases hno : no.isPresent = true
    · exact ih ((h.shows_ifElse hn rfl rfl).2.2 hno)
    · have habsent : no.form = .absent :=
        Decidable.not_not.mp fun hne => hno (Node.isPresent_iff.mpr hne)
      have hother : no.form ≠ .stmt .ifElse := by
        rw [habsent]
        nofun
      rwa [(Switch.spine_of_form_ne hother).2]
  | case2 n hother =>
    intro hform
    obtain ⟨test, yes, no, hparts⟩ := exists_parts_of_ifElse (h.isProper hn) hform
    obtain ⟨form, span, parts⟩ := n
    exact hother span test yes no (by rw [show form = _ from hform, show parts = _ from hparts])

theorem Proper.exists_ifElse (h : (ofDocument d).Proper)
    (houter : (ofDocument d).get? p = some outer) (hif : outer.node.form.isIf = true) :
    ∃ span test yes no, outer.node = .mk (.stmt .ifElse) span [test, yes, no] := by
  have hform := Form.isIf_iff.mp hif
  obtain ⟨test, yes, no, hparts⟩ :=
    exists_parts_of_ifElse (h.2 outer (mem_entries_of_get? houter)) hform
  refine ⟨outer.node.span, test, yes, no, ?_⟩
  rw [← hform, ← hparts]
  cases outer.node
  rfl

/-- An `if` shows its test, its body and its other side if it has one. -/
theorem Proper.ofParts_ifElse (h : (ofDocument d).Proper)
    (houter : (ofDocument d).get? p = some outer) {span : Span} {test yes no : Node}
    (hnode : outer.node = .mk (.stmt .ifElse) span [test, yes, no]) :
    ofParts outer.node.form 0 outer.node.parts =
      [whole test, whole yes] ++ if no.isPresent then [whole no] else [] := by
  have hproper := h.2 outer (mem_entries_of_get? houter)
  have hopen : outer.node.form.isOpen = true := by rw [hnode]; rfl
  obtain ⟨⟨-, htest⟩, ⟨-, hyes⟩, -⟩ :=
    isPlain_of_ifElse hproper (by rw [hnode]; rfl) (by rw [hnode]; rfl)
  rw [ofParts_of_isPlain (shows_of_isOpen hopen) 0 _ (isPlain_of_isProper hproper hopen), hnode]
  show ([test, yes, no].filter Node.isPresent).map whole = _
  rw [List.filter_cons_of_pos htest, List.filter_cons_of_pos hyes]
  by_cases hno : no.isPresent = true
  · simp [hno]
  · simp [hno]

/-- The third child of an `if` is its other side. -/
theorem Proper.elseOf_of_third (h : (ofDocument d).Proper)
    (houter : (ofDocument d).get? p = some outer) (hif : outer.node.form.isIf = true)
    (hthird : outer.children[2]? = some id) : (ofDocument d).ElseOf id p := by
  obtain ⟨span, test, yes, no, hnode⟩ := h.exists_ifElse houter hif
  have hparts := h.ofParts_ifElse houter hnode
  have hchildren := children_of_get? houter
  by_cases hno : no.isPresent = true
  · rw [hparts, if_pos hno] at hchildren
    rw [hchildren] at hthird
    obtain rfl : p + 1 + (whole test).size + (whole yes).size = id := Option.some.inj hthird
    rw [if_pos hno] at hparts
    have hchild := (Document.Placed.child (get?_iff_placed.mp houter) hparts).get?
    rw [show p + 1 + sizeAll [whole test, whole yes]
      = p + 1 + (whole test).size + (whole yes).size by simp only [sizeAll]; omega] at hchild
    have hlink : (ofDocument d).IsChildOf (p + 1 + (whole test).size + (whole yes).size) p := by
      rw [IsChildOf, parent?, hchild]
      rfl
    exact ⟨_, outer, span, test, yes, _, _, hchild, hlink, houter, hnode, hchildren⟩
  · -- without another side there is no third child
    rw [hchildren, hparts, if_neg hno] at hthird
    cases hthird

/-- The search passes by exactly the constructs that are the other side of an `if`. -/
theorem Proper.isAlternate_iff (h : (ofDocument d).Proper) :
    Switch.isAlternate (ofDocument d) id = true ↔ ∃ p, (ofDocument d).ElseOf id p := by
  unfold Switch.isAlternate
  constructor
  · intro halternate
    split at halternate
    · next outer hfound =>
      obtain ⟨p, -, houter⟩ := Option.bind_eq_some_iff.mp hfound
      rw [Bool.and_eq_true, beq_iff_eq] at halternate
      exact ⟨p, h.elseOf_of_third houter halternate.1 halternate.2⟩
    · cases halternate
  · rintro ⟨p, e, outer, span, test, yes, a, b, -, hlink, houter, hnode, hchildren⟩
    rw [show (ofDocument d).parent? id = some p from hlink, Option.bind_some, houter]
    simp [hnode, hchildren, Form.isIf, Node.form]

end Tree

/-! ## Where conversions apply -/

namespace Switch

open Retouch.Tree

/-- An `if` around the selection that starts a spine, all of whose tests compare one expression with
literals. -/
structure Starts (t : Tree) (s : Selection) (id : Nat) (e : Entry) (subject : Node)
    (values : List Node) : Prop where
  entry : t.get? id = some e
  inside : s.isInside e.selection = true
  isIf : e.node.form = .stmt .ifElse
  notElse : ¬ ∃ p, t.ElseOf id p
  chain : IsEqualityChain e.node subject values

variable {d : Document} {s : Selection} {id : Nat} {e : Entry}

/-- What the search takes at a construct. -/
theorem targetAt?_eq_some_iff (h : (ofDocument d).Proper) (he : (ofDocument d).get? id = some e)
    (hs : s.isInside e.selection = true) {target : Target} :
    targetAt? (ofDocument d) id = some target ↔
      ∃ values, Starts (ofDocument d) s id e target.chain.subject values ∧ target.head = e.node ∧
        target.chain.branches = spineBranches e.node values := by
  unfold targetAt?
  rw [he]
  dsimp only
  constructor
  · intro htarget
    split at htarget
    · next htest =>
      rw [Bool.and_eq_true, Form.isIf_iff, Bool.not_eq_true', Bool.eq_false_iff, ne_eq,
        h.isAlternate_iff] at htest
      obtain ⟨hif, helse⟩ := htest
      have hend := h.spineEnd_ne (h.shows_node he (by rw [hif]; nofun)).1
      obtain ⟨chain, hchain, rfl⟩ := Option.map_eq_some_iff.mp htarget
      obtain ⟨values, hvalues, hbranches⟩ := (chain?_eq_some_iff hif hend).mp hchain
      exact ⟨values, ⟨he, hs, hif, helse, hvalues⟩, rfl, hbranches⟩
    · cases htarget
  · rintro ⟨values, hstarts, hhead, hbranches⟩
    have hend := h.spineEnd_ne (h.shows_node he (by rw [hstarts.isIf]; nofun)).1
    have hchain := (chain?_eq_some_iff hstarts.isIf hend).mpr ⟨values, hstarts.chain, hbranches⟩
    have htest : (e.node.form.isIf && !isAlternate (ofDocument d) id) = true := by
      rw [Bool.and_eq_true, Form.isIf_iff, Bool.not_eq_true', Bool.eq_false_iff, ne_eq,
        h.isAlternate_iff]
      exact ⟨hstarts.isIf, hstarts.notElse⟩
    rw [if_pos htest, hchain, Option.map_some, ← hhead]

/-- The search meets every `if` that starts a chain, and takes it. -/
theorem Starts.mem_containing {subject : Node} {values : List Node} (h : (ofDocument d).Proper)
    (hstarts : Starts (ofDocument d) s id e subject values) :
    id ∈ (ofDocument d).containing s ∧ (targetAt? (ofDocument d) id).isSome = true := by
  have hat : targetAt? (ofDocument d) id =
      some ⟨e.node, ⟨subject, spineBranches e.node values⟩⟩ :=
    (targetAt?_eq_some_iff h hstarts.entry hstarts.inside).mpr ⟨values, hstarts, rfl, rfl⟩
  exact ⟨Tree.mem_containing.mpr (holds_iff.mpr ⟨e, hstarts.entry, hstarts.inside⟩),
    Option.isSome_of_eq_some hat⟩

/-- The cases that a chain is written as: one for each literal, and a default for a plain `else`. -/
theorem cases_of_branches {chain : Chain} {values : List Node} {head subject : Node}
    (hvalues : List.Forall₂ (Link.IsFor subject) (spine head) values)
    (hbranches : chain.branches = spineBranches head values) :
    chain.cases.map Case.value =
        values.map some ++ (if (spineEnd head).isPresent then [none] else []) ∧
      chain.cases.map Case.body = (spine head).map (fun link => statements link.body) ++
        if (spineEnd head).isPresent then [statements (spineEnd head)] else [] := by
  have hzip : ∀ {links : List Link} {values : List Node},
      List.Forall₂ (Link.IsFor subject) links values →
      (List.zipWith (fun link value => (⟨some value, link.body⟩ : Branch)) links values).map
          Branch.value = values.map some ∧
        (List.zipWith (fun link value => (⟨some value, link.body⟩ : Branch)) links values).map
          (fun b => statements b.body) = links.map fun link => statements link.body := by
    intro links values h
    induction h with
    | nil => exact ⟨rfl, rfl⟩
    | cons _ _ ih => simp [ih.1, ih.2]
  obtain ⟨hliterals, hbodies⟩ := hzip hvalues
  rw [Chain.cases, List.map_map, List.map_map, hbranches, spineBranches, List.map_append,
    List.map_append]
  constructor
  · rw [show Case.value ∘ Branch.toCase _ = Branch.value from rfl, hliterals]
    split
    · rfl
    · rfl
  · rw [show Case.body ∘ Branch.toCase _ = fun b => statements b.body from rfl, hbodies]
    split
    · rfl
    · rfl

/-- A conversion applies exactly where some `if` starts a chain around the selection. -/
theorem canPerform_iff (h : (ofDocument d).Proper) :
    Refactoring.convertToSwitch.canPerform (ofDocument d) s = true ↔
      ∃ id e subject values, Starts (ofDocument d) s id e subject values := by
  show (target? (ofDocument d) s).isSome = true ↔ _
  constructor
  · intro hsome
    obtain ⟨target, htarget⟩ := Option.isSome_iff_exists.mp hsome
    obtain ⟨id, e, -, he, hs, hat⟩ := findInnermost?_eq_some htarget
    obtain ⟨values, hstarts, -⟩ := (targetAt?_eq_some_iff h he hs).mp hat
    exact ⟨id, e, _, values, hstarts⟩
  · rintro ⟨id, e, subject, values, hstarts⟩
    exact List.findSome?_isSome_iff.mpr ⟨id, hstarts.mem_containing h⟩

/-- What a conversion works in starts a chain, and nothing below it does so. -/
theorem exists_starts (h : (ofDocument d).Proper) (hnested : (ofDocument d).Nested)
    {target : Target} (htarget : target? (ofDocument d) s = some target) :
    ∃ id e values, Refactoring.convertToSwitch.site? (ofDocument d) s = some id ∧
      Starts (ofDocument d) s id e target.chain.subject values ∧ target.head = e.node ∧
      target.chain.branches = spineBranches e.node values ∧
      ∀ j, (ofDocument d).Under j id →
        ¬ ∃ ej subject values, Starts (ofDocument d) s j ej subject values := by
  obtain ⟨id, e, hsite, he, hs, hat⟩ := findInnermost?_eq_some htarget
  obtain ⟨values, hstarts, hhead, hbranches⟩ := (targetAt?_eq_some_iff h he hs).mp hat
  refine ⟨id, e, values, hsite, hstarts, hhead, hbranches, ?_⟩
  rintro j hunder ⟨ej, subject, others, hj⟩
  obtain ⟨-, -, hinnermost⟩ := hnested.innermost?_eq_some hsite
  exact hinnermost j hunder (hj.mem_containing h)

theorem starts_of_site? (h : (ofDocument d).Proper)
    (hsite : Refactoring.convertToSwitch.site? (ofDocument d) s = some id) :
    ∃ e subject values, Starts (ofDocument d) s id e subject values := by
  obtain ⟨hsome, e, he, hs⟩ := exists_of_innermost? hsite
  obtain ⟨target, hat⟩ := Option.isSome_iff_exists.mp hsome
  obtain ⟨values, hstarts, -⟩ := (targetAt?_eq_some_iff h he hs).mp hat
  exact ⟨e, _, values, hstarts⟩

/-- **Whole chains are converted, and nothing else.** Let the constructs of a document lie in those
around them and end between characters. A conversion applies exactly if some `if` around the
selection is not the other side of an `if`, and all tests of its spine are equalities of one
expression, up to byte ranges, with a literal on exactly one side. It then replaces the range of an
innermost such `if` by a switch over the expression of the first test, with the literals of the whole
spine in order, and a default exactly if the spine ends in a plain `else`. Where the tests of an `if`
are not all such equalities, neither it nor any `else if` of its spine is converted, and nothing that
is the other side of an `if` ever is. -/
theorem converts_whole_chains {d : Document} (hproper : (ofDocument d).Proper)
    (hnested : (ofDocument d).Nested) (hcut : (ofDocument d).Cut) (s : Selection) :
    (Refactoring.convertToSwitch.canPerform (ofDocument d) s = true ↔
      ∃ id e subject values, Starts (ofDocument d) s id e subject values) ∧
    (Refactoring.convertToSwitch.canPerform (ofDocument d) s = true → ∀ settings : Settings,
      ∃ id e subject values cases text x,
        Refactoring.convertToSwitch.site? (ofDocument d) s = some id ∧
        Starts (ofDocument d) s id e subject values ∧
        (∀ j, (ofDocument d).Under j id →
          ¬ ∃ ej subject values, Starts (ofDocument d) s j ej subject values) ∧
        transform (ofDocument d) s settings = .ok x ∧
        Transformation.ofBatch (ofDocument d) [⟨e.range, text⟩] s = .ok x ∧
        WrittenAs subject cases d (d.text.indentation e.range.start)
          (d.text.indentation e.range.start ++ settings.indentUnit d.text) text ∧
        cases.map Case.value =
          values.map some ++ (if (spineEnd e.node).isPresent then [none] else []) ∧
        cases.map Case.body = (spine e.node).map (fun link => statements link.body) ++
          if (spineEnd e.node).isPresent then [statements (spineEnd e.node)] else []) ∧
    (∀ id e, (ofDocument d).get? id = some e →
      (¬ ∃ subject values, IsEqualityChain e.node subject values) →
      ∀ j, Relation.ReflTransGen (ofDocument d).ElseOf j id →
        Refactoring.convertToSwitch.site? (ofDocument d) s ≠ some j) ∧
    ∀ j p, (ofDocument d).ElseOf j p →
      Refactoring.convertToSwitch.site? (ofDocument d) s ≠ some j := by
  have hnever (j p : Nat) (helse : (ofDocument d).ElseOf j p) :
      Refactoring.convertToSwitch.site? (ofDocument d) s ≠ some j := by
    intro hsite
    obtain ⟨e, subject, values, hstarts⟩ := starts_of_site? hproper hsite
    exact hstarts.notElse ⟨p, helse⟩
  refine ⟨canPerform_iff hproper, fun hcan settings => ?_, fun id e he hbad j hj => ?_, hnever⟩
  · obtain ⟨target, htarget⟩ := Option.isSome_iff_exists.mp hcan
    obtain ⟨id, e, values, hsite, hstarts, hhead, hbranches, hinnermost⟩ :=
      exists_starts hproper hnested htarget
    obtain ⟨text, htext⟩ := switchText_succeeds hproper hcut htarget settings
    obtain ⟨hshown, hrange⟩ := hproper.shows_node hstarts.entry (by rw [hstarts.isIf]; nofun)
    have hfits : Batch.Fits [⟨d.range target.head.span, text⟩] d.text :=
      Batch.fits_of_pairwise (by simpa [hhead] using hcut.sits hshown text)
        (List.pairwise_singleton _ _)
    obtain ⟨output, selection, happly⟩ :=
      hfits.exists_result (exists_span?_of_isInside hstarts.entry hstarts.inside)
    have hbatch : Transformation.ofBatch (ofDocument d) [⟨d.range target.head.span, text⟩] s =
        .ok (.document output selection) := by
      rw [Transformation.ofBatch, show (ofDocument d).document = d from rfl, happly]
    have hwritten := switchText_writtenAs htext
    obtain ⟨hvalues, hbodies⟩ := cases_of_branches hstarts.chain.every hbranches
    rw [hhead, ← hrange] at hwritten hbatch
    refine ⟨id, e, _, values, target.chain.cases, text, _, hsite, hstarts, hinnermost, ?_, hbatch,
      hwritten, hvalues, hbodies⟩
    rw [transform, htarget]
    show (switchText d settings target >>= _) = _
    rw [htext, ← hbatch, hrange, ← hhead]
    rfl
  · -- the `if` itself starts no chain, and all others of the spine are other sides
    rcases Relation.ReflTransGen.cases_head hj with rfl | ⟨p, helse, -⟩
    · intro hsite
      obtain ⟨e', subject, values, hstarts⟩ := starts_of_site? hproper hsite
      obtain rfl : e = e' := Option.some.inj (he.symm.trans hstarts.entry)
      exact hbad ⟨subject, values, hstarts.chain⟩
    · exact hnever j p helse

/-- With the cursor in an `else if` the whole chain is converted; where a test in the middle is no
equality, a cursor behind it converts nothing. -/
theorem converts_whole_chains_elseIf :
    (∃ d e subject values x, Document.parse {}
        "if (a === 1) f(); else if (2 == a) g(); else h();".toList = .ok d ∧
      (ofDocument d).Proper ∧ (ofDocument d).Nested ∧ (ofDocument d).Cut ∧
      Starts (ofDocument d) (.cursor ⟨0, 36⟩) 1 e subject values ∧ values.length = 2 ∧
      transform (ofDocument d) (.cursor ⟨0, 36⟩) {} = .ok x ∧
      x.output d.text (.cursor ⟨0, 36⟩) = .ok ("switch (a) \x7b\ncase 1:\n  f();\n  break;\n" ++
        "case 2:\n  g();\n  break;\ndefault:\n  h();\n  break;\n\x7d").toList) ∧
    ∃ d, Document.parse {}
        "if (a === 1) f(); else if (b) g(); else if (a === 2) h();".toList = .ok d ∧
      (ofDocument d).Proper ∧ (ofDocument d).Nested ∧ (ofDocument d).Cut ∧
      ¬ ∃ id e subject values, Starts (ofDocument d) (.cursor ⟨0, 54⟩) id e subject values := by
  constructor
  · obtain ⟨d, hd, hproper, hnested, hcut, hsite, hconvert⟩ :
        ∃ d, Document.parse {}
            "if (a === 1) f(); else if (2 == a) g(); else h();".toList = .ok d ∧
          (ofDocument d).Proper ∧ (ofDocument d).Nested ∧ (ofDocument d).Cut ∧
          Refactoring.convertToSwitch.site? (ofDocument d) (.cursor ⟨0, 36⟩) = some 1 ∧
          (((ofDocument d).get? 1).map fun e => (spine e.node).length,
            (transform (ofDocument d) (.cursor ⟨0, 36⟩) {}).toOption.bind fun x =>
              (x.output d.text (.cursor ⟨0, 36⟩)).toOption) =
            (some 2, some ("switch (a) \x7b\ncase 1:\n  f();\n  break;\n" ++
              "case 2:\n  g();\n  break;\ndefault:\n  h();\n  break;\n\x7d").toList) :=
      Document.exists_parse (by decide +kernel)
    obtain ⟨hcount, houtput⟩ := Prod.mk.inj hconvert
    obtain ⟨x, hx, hout⟩ := Option.bind_eq_some_iff.mp houtput
    obtain ⟨hcan, hconverts, -⟩ := converts_whole_chains hproper hnested hcut (.cursor ⟨0, 36⟩)
    obtain ⟨e₁, subject₁, values₁, hfirst⟩ := starts_of_site? hproper hsite
    obtain ⟨id, e, subject, values, -, -, -, hsite', hstarts, -⟩ :=
      hconverts (hcan.mpr ⟨1, e₁, subject₁, values₁, hfirst⟩) {}
    obtain rfl : 1 = id := Option.some.inj (hsite.symm.trans hsite')
    refine ⟨d, e, subject, values, x, hd, hproper, hnested, hcut, hstarts, ?_,
      Outcome.eq_ok_of_toOption hx, Outcome.eq_ok_of_toOption hout⟩
    rw [hstarts.entry] at hcount
    exact hstarts.chain.every.length_eq.symm.trans (Option.some.inj hcount)
  · obtain ⟨d, hd, hproper, hnested, hcut, hcannot⟩ :
        ∃ d, Document.parse {}
            "if (a === 1) f(); else if (b) g(); else if (a === 2) h();".toList = .ok d ∧
          (ofDocument d).Proper ∧ (ofDocument d).Nested ∧ (ofDocument d).Cut ∧
          Refactoring.convertToSwitch.canPerform (ofDocument d) (.cursor ⟨0, 54⟩) = false :=
      Document.exists_parse (by decide +kernel)
    refine ⟨d, hd, hproper, hnested, hcut, fun hstarts => ?_⟩
    have hcan := (converts_whole_chains hproper hnested hcut _).1.mpr hstarts
    rw [hcannot] at hcan
    cases hcan

end Switch

end Retouch
