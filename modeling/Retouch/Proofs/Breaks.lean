import Retouch.Proofs.Branching
import Retouch.Proofs.Slices

/-!
# Where breaks lead

A break without a label leaves the innermost loop or switch around it. Statements are told apart by
their byte ranges here, and a new switch has the range of the chain that it takes the place of.

- `Syntax.Node.breakTargets`: the breaks of a tree, each with the statement that it leaves.
- `Syntax.Node.hasFreeBreak`: some break leaves what is around the tree.
- `Syntax.Node.Replaces`: a tree with one construct replaced.
- `Switch.switch_keeps_targets_iff`: what becomes of the breaks in the branches of a chain.

Loops and switches in a branch catch the same breaks as before. A break that they do not catch left
what is around the chain and now leaves the new switch.
-/

namespace Retouch

open Syntax (Node Form)

namespace Syntax

/-- Loops and switches catch breaks. -/
def Form.catchesBreaks (form : Form) : Bool :=
  form.isLoop || form == .stmt .switchStmt

/-- Constructs with a body of their own, which no break leaves. -/
def Form.startsBody : Form → Bool
  | .function _ _ | .expr (.arrow _) | .member _ | .property _
  | .stmt (.declaration (.namespaceDecl _ _)) | .decl (.namespaceDecl _ _) => true
  | _ => false

/-- What the breaks in the parts of a construct leave, if it does not catch them itself and leaves
them to what is around it. -/
def Form.catcher (form : Form) (span : Span) (outer : Option Span) : Option Span :=
  if form.catchesBreaks then some span
  else if form.startsBody then none
  else outer

/-- Whether a construct is a break without a label. -/
def isPlainBreak (form : Form) (parts : List Node) : Bool :=
  form == .stmt .breakStmt && parts.all fun n => !n.isPresent

namespace Node

mutual

/-- The breaks of a tree, each with the statement that it leaves, given what is around the tree. -/
def breakTargets (outer : Option Span) : Node → List (Span × Option Span)
  | .mk form span parts =>
    (if isPlainBreak form parts then [(span, outer)] else [])
      ++ breakTargetsAll (form.catcher span outer) parts

/-- The breaks of trees in order. -/
def breakTargetsAll (outer : Option Span) : List Node → List (Span × Option Span)
  | [] => []
  | n :: rest => breakTargets outer n ++ breakTargetsAll outer rest

end

mutual

/-- Some break leaves what is around a tree. -/
def hasFreeBreak : Node → Bool
  | .mk form _ parts =>
    isPlainBreak form parts || !(form.catchesBreaks || form.startsBody) && someFreeBreak parts

/-- Some break leaves what is around trees. -/
def someFreeBreak : List Node → Bool
  | [] => false
  | n :: rest => hasFreeBreak n || someFreeBreak rest

end

/-! ## What is around a tree matters to its free breaks only -/

theorem catcher_of_catches {form : Form} (h : (form.catchesBreaks || form.startsBody) = true)
    (span : Span) (a b : Option Span) : form.catcher span a = form.catcher span b := by
  unfold Form.catcher
  split
  · rfl
  · next hcatches =>
    simp only [hcatches, Bool.false_or] at h
    rw [if_pos h, if_pos h]

theorem catcher_of_not_catches {form : Form} (h : (form.catchesBreaks || form.startsBody) = false)
    (span : Span) (a : Option Span) : form.catcher span a = a := by
  obtain ⟨hcatches, hstarts⟩ := Bool.or_eq_false_iff.mp h
  simp [Form.catcher, hcatches, hstarts]

/-- A break in two surroundings: it leaves the same statement, or what is around in each. -/
def SameBreak (a b : Option Span) (p q : Span × Option Span) : Prop :=
  p.1 = q.1 ∧ (p.2 = q.2 ∨ p.2 = a ∧ q.2 = b)

mutual

/-- Each break of a tree leaves the same statement whatever is around, or it leaves just that. -/
theorem sameBreaks (a b : Option Span) :
    ∀ n : Node, List.Forall₂ (SameBreak a b) (n.breakTargets a) (n.breakTargets b)
  | .mk form span parts => by
    rw [breakTargets, breakTargets]
    refine List.rel_append ?_ ?_
    · split
      · exact .cons ⟨rfl, .inr ⟨rfl, rfl⟩⟩ .nil
      · exact .nil
    · cases h : form.catchesBreaks || form.startsBody with
      | true =>
        rw [catcher_of_catches h span a b]
        exact List.forall₂_same.mpr fun p _ => ⟨rfl, .inl rfl⟩
      | false =>
        rw [catcher_of_not_catches h, catcher_of_not_catches h]
        exact sameBreaksAll a b parts

theorem sameBreaksAll (a b : Option Span) : ∀ ns : List Node,
    List.Forall₂ (SameBreak a b) (breakTargetsAll a ns) (breakTargetsAll b ns)
  | [] => .nil
  | n :: rest => List.rel_append (sameBreaks a b n) (sameBreaksAll a b rest)

end

mutual

/-- Other surroundings change where breaks lead exactly if there is a free one. -/
theorem breakTargets_eq_iff {a b : Option Span} (hab : a ≠ b) :
    ∀ n : Node, n.breakTargets a = n.breakTargets b ↔ n.hasFreeBreak = false
  | .mk form span parts => by
    rw [breakTargets, breakTargets, hasFreeBreak]
    cases hbreak : isPlainBreak form parts with
    | true => simp [hab]
    | false =>
      simp only [Bool.false_eq_true, if_false, List.nil_append, Bool.false_or]
      cases h : form.catchesBreaks || form.startsBody with
      | true => simp [catcher_of_catches h span a b]
      | false =>
        rw [catcher_of_not_catches h, catcher_of_not_catches h, Bool.not_false, Bool.true_and]
        exact breakTargetsAll_eq_iff hab parts

theorem breakTargetsAll_eq_iff {a b : Option Span} (hab : a ≠ b) :
    ∀ ns : List Node, breakTargetsAll a ns = breakTargetsAll b ns ↔ someFreeBreak ns = false
  | [] => by simp [breakTargetsAll, someFreeBreak]
  | n :: rest => by
    rw [breakTargetsAll, breakTargetsAll, someFreeBreak, Bool.or_eq_false_iff,
      ← breakTargets_eq_iff hab n, ← breakTargetsAll_eq_iff hab rest]
    constructor
    · exact fun h => List.append_inj h (sameBreaks a b n).length_eq
    · rintro ⟨hn, hrest⟩
      rw [hn, hrest]

end

/-! ## Replacing a construct -/

/-- A tree in which one construct is replaced by another one. -/
inductive Replaces (old new : Node) : Node → Node → Prop where
  | here : Replaces old new old new
  | part {n n' : Node} (form : Form) (span : Span) (before after : List Node)
      (h : Replaces old new n n') :
      Replaces old new (.mk form span (before ++ n :: after)) (.mk form span (before ++ n' :: after))

theorem Holds.exists_replaces {n old : Node} (h : n.Holds old) (new : Node) :
    ∃ n', Replaces old new n n' := by
  induction h with
  | root => exact ⟨new, .here⟩
  | @part n m k hpart _ ih =>
    obtain ⟨m', hm'⟩ := ih
    obtain ⟨form, span, parts⟩ := n
    obtain ⟨before, after, hsplit⟩ := List.append_of_mem hpart
    obtain rfl : parts = before ++ m :: after := hsplit
    exact ⟨_, .part form span before after hm'⟩

theorem breakTargetsAll_append (outer : Option Span) (a b : List Node) :
    breakTargetsAll outer (a ++ b) = breakTargetsAll outer a ++ breakTargetsAll outer b := by
  induction a with
  | nil => rfl
  | cons n rest ih => rw [List.cons_append, breakTargetsAll, breakTargetsAll, ih, List.append_assoc]

theorem Replaces.isPresent_eq {old new n n' : Node} (hpresent : old.isPresent = new.isPresent)
    (h : Replaces old new n n') : n.isPresent = n'.isPresent := by
  cases h with
  | here => exact hpresent
  | part => rfl

/-- Breaks outside of what is replaced lead where they did, and what is replaced has the same
surroundings as what takes its place. -/
theorem Replaces.exists_breakTargets {old new n n' : Node}
    (hpresent : old.isPresent = new.isPresent) (h : Replaces old new n n') (outer : Option Span) :
    ∃ around before after, n.breakTargets outer = before ++ old.breakTargets around ++ after ∧
      n'.breakTargets outer = before ++ new.breakTargets around ++ after := by
  induction h generalizing outer with
  | here => exact ⟨outer, [], [], by simp, by simp⟩
  | @part n n' form span earlier later hn ih =>
    obtain ⟨around, before, after, hold, hnew⟩ := ih (form.catcher span outer)
    have hbreak : isPlainBreak form (earlier ++ n :: later) =
        isPlainBreak form (earlier ++ n' :: later) := by
      simp [isPlainBreak, hn.isPresent_eq hpresent]
    refine ⟨around,
      (if isPlainBreak form (earlier ++ n' :: later) then [(span, outer)] else [])
        ++ breakTargetsAll (form.catcher span outer) earlier ++ before,
      after ++ breakTargetsAll (form.catcher span outer) later, ?_, ?_⟩
    · rw [breakTargets, hbreak, breakTargetsAll_append, breakTargetsAll, hold]
      simp only [List.append_assoc]
    · rw [breakTargets, breakTargetsAll_append, breakTargetsAll, hnew]
      simp only [List.append_assoc]

theorem breakTargetsAll_eq_flatMap (outer : Option Span) (ns : List Node) :
    breakTargetsAll outer ns = ns.flatMap (breakTargets outer) := by
  induction ns with
  | nil => rfl
  | cons n rest ih => rw [breakTargetsAll, ih, List.flatMap_cons]

theorem breakTargets_sublist_of_mem (outer : Option Span) {n : Node} {ns : List Node}
    (h : n ∈ ns) : List.Sublist (n.breakTargets outer) (breakTargetsAll outer ns) := by
  rw [breakTargetsAll_eq_flatMap, List.flatMap_def]
  exact List.sublist_flatten_of_mem (List.mem_map_of_mem h)

end Node

end Syntax

/-! ## Chains and their switches -/

namespace Switch

open Syntax.Node

/-- The break that is written behind the statements of a case. -/
def newBreak : Node := .mk (.stmt .breakStmt) ⟨0, 0⟩ [.absent]

/-- A case as a construct. -/
def Case.toNode (k : Case) : Node :=
  .mk .switchCase ⟨0, 0⟩ (.ofOption k.value :: (k.body ++ if k.breaks then [newBreak] else []))

/-- The switch that a chain is written as, as a construct with a given range. -/
def Chain.toSwitch (chain : Chain) (span : Span) : Node :=
  .mk (.stmt .switchStmt) span (chain.subject :: chain.cases.map Case.toNode)

variable {head : Node} {chain : Chain} {b : Branch} {outer : Option Span}

/-- The breaks of a branch are among those of the chain, with the same surroundings. -/
theorem breakTargets_branch_sublist {known : Option Node} {branches : List Branch}
    (hbranches : branches? known head = some branches) (hb : b ∈ branches) :
    List.Sublist (b.body.breakTargets outer) (head.breakTargets outer) := by
  -- a condition catches no breaks, so its sides have its surroundings
  have hyes (span : Span) (test yes no : Node) : List.Sublist (yes.breakTargets outer)
      (Node.breakTargets outer (.mk (.stmt .ifElse) span [test, yes, no])) :=
    @breakTargets_sublist_of_mem outer _ [test, yes, no] (by simp)
  have hno (span : Span) (test yes no : Node) : List.Sublist (no.breakTargets outer)
      (Node.breakTargets outer (.mk (.stmt .ifElse) span [test, yes, no])) :=
    @breakTargets_sublist_of_mem outer _ [test, yes, no] (by simp)
  fun_induction branches? known head generalizing branches with
  | case1 => cases hbranches
  | case2 known span test yes no =>
    cases hbranches
    rw [List.mem_singleton.mp hb]
    exact hyes span test yes no
  | case3 known span test yes no =>
    rename_i ih
    obtain ⟨more, hmore, rfl⟩ := Option.map_eq_some_iff.mp hbranches
    rcases List.mem_cons.mp hb with rfl | hb
    · exact hyes span test yes no
    · exact (ih hmore hb).trans (hno span test yes no)
  | case4 known span test yes no =>
    cases hbranches
    simp only [List.mem_cons, List.not_mem_nil, or_false] at hb
    rcases hb with rfl | rfl
    · exact hyes span test yes no
    · exact hno span test yes no
  | case5 => cases hbranches
  | case6 => cases hbranches

theorem breakTargetsAll_statements (outer : Option Span) (body : Node) :
    breakTargetsAll outer (statements body) = body.breakTargets outer := by
  obtain ⟨form, span, parts⟩ := body
  unfold statements
  split
  · next hform =>
    obtain rfl : form = .stmt .block := hform
    rfl
  · rw [breakTargetsAll, breakTargetsAll, List.append_nil]

/-- The breaks of a branch are among those of the switch, which is around them. -/
theorem breakTargets_case_sublist (hb : b ∈ chain.branches) (span : Span) :
    List.Sublist (b.body.breakTargets (some span)) ((chain.toSwitch span).breakTargets outer) := by
  let k := b.toCase !chain.branches.all fun b => terminates b.body
  have hk : k.toNode ∈ chain.subject :: chain.cases.map Case.toNode :=
    List.mem_cons_of_mem _ (List.mem_map_of_mem (List.mem_map_of_mem hb))
  have hbody : List.Sublist (breakTargetsAll (some span) (statements b.body))
      (k.toNode.breakTargets (some span)) := by
    change List.Sublist _ (breakTargetsAll (some span)
      (.ofOption k.value :: (statements b.body ++ if k.breaks then [newBreak] else [])))
    rw [breakTargetsAll, breakTargetsAll_append]
    exact (List.sublist_append_left _ _).trans (List.sublist_append_right _ _)
  rw [breakTargetsAll_statements] at hbody
  exact hbody.trans (breakTargets_sublist_of_mem (some span) hk)

theorem isPresent_head (h : chain? head = some chain) : head.isPresent = true := by
  unfold chain? at h
  split at h
  · rfl
  · cases h

/-- **What becomes of the breaks in the branches of a chain.** Put the switch that a chain is written
as in the place of the chain. Breaks outside of it lead where they did. Each break of a branch leaves
the same statement as before, or it left what is around the chain and now leaves the switch. All of
them leave the same statements exactly if no branch has a free break. (A statement around the chain
that has the same range as the chain could not be told from the switch.) -/
theorem switch_keeps_targets_iff {d : Document} {s : Selection} {target : Target}
    (htarget : target? (Tree.ofDocument d) s = some target) :
    ∃ program around before after,
      Replaces target.head (target.chain.toSwitch target.head.span) d.program program ∧
      d.program.breakTargets none = before ++ target.head.breakTargets around ++ after ∧
      program.breakTargets none =
        before ++ (target.chain.toSwitch target.head.span).breakTargets around ++ after ∧
      (∀ b ∈ target.chain.branches,
        List.Sublist (b.body.breakTargets around) (target.head.breakTargets around) ∧
        List.Sublist (b.body.breakTargets (some target.head.span))
          ((target.chain.toSwitch target.head.span).breakTargets around) ∧
        List.Forall₂ (SameBreak around (some target.head.span)) (b.body.breakTargets around)
          (b.body.breakTargets (some target.head.span))) ∧
      ((∀ b ∈ target.chain.branches,
          b.body.breakTargets around = b.body.breakTargets (some target.head.span)) ↔
        (∀ b ∈ target.chain.branches, b.body.hasFreeBreak = false) ∨
          around = some target.head.span) ∧
      ∀ (settings : Settings) (x : Transformation),
        transform (Tree.ofDocument d) s settings = .ok x →
        ∃ text, WrittenAs target.chain.subject target.chain.cases d
            (d.text.indentation (d.range target.head.span).start)
            (d.text.indentation (d.range target.head.span).start ++ settings.indentUnit d.text)
            text ∧
          Transformation.ofBatch (Tree.ofDocument d) [⟨d.range target.head.span, text⟩] s = .ok x := by
  obtain ⟨id, e, hworks, hhead, -, hchain⟩ := exists_site htarget
  have hholds : d.program.Holds target.head := hhead ▸ Tree.holds_of_get? hworks.entry
  rw [← hhead] at hchain
  have hpresent : target.head.isPresent = (target.chain.toSwitch target.head.span).isPresent :=
    isPresent_head hchain
  obtain ⟨program, hreplaces⟩ := hholds.exists_replaces (target.chain.toSwitch target.head.span)
  obtain ⟨around, before, after, hold, hnew⟩ := hreplaces.exists_breakTargets hpresent none
  refine ⟨program, around, before, after, hreplaces, hold, hnew, fun b hb => ⟨?_, ?_, ?_⟩, ?_, ?_⟩
  · exact breakTargets_branch_sublist (branches?_subject hchain) hb
  · exact breakTargets_case_sublist hb target.head.span
  · exact sameBreaks around (some target.head.span) b.body
  · by_cases haround : around = some target.head.span
    · subst haround
      simp
    · rw [or_iff_left haround]
      exact forall₂_congr fun b _ => breakTargets_eq_iff haround b.body
  · intro settings x hx
    unfold transform at hx
    rw [htarget] at hx
    obtain ⟨text, htext, hx⟩ := Outcome.bind_eq_ok hx
    exact ⟨text, switchText_writtenAs htext, hx⟩

/-- A break that leaves a loop of a branch leaves the same loop after the conversion. -/
theorem switch_keeps_targets_inner :
    ∃ d target, Document.parse {}
        "while (x) \x7b\n  if (a === 1) for (;;) break;\n  else f();\n\x7d".toList = .ok d ∧
      target? (Tree.ofDocument d) (.cursor ⟨1, 2⟩) = some target ∧
      target.chain.branches.map (fun b => (b.body.breakTargets none).length) = [1, 0] ∧
      ∃ program around,
        Replaces target.head (target.chain.toSwitch target.head.span) d.program program ∧
        ∀ b ∈ target.chain.branches,
          b.body.breakTargets around = b.body.breakTargets (some target.head.span) := by
  obtain ⟨d, hd, hbreaks⟩ :
      ∃ d, Document.parse {}
          "while (x) \x7b\n  if (a === 1) for (;;) break;\n  else f();\n\x7d".toList = .ok d ∧
        ((target? (Tree.ofDocument d) (.cursor ⟨1, 2⟩)).map fun target =>
          (target.chain.branches.map fun b => (b.body.breakTargets none).length,
            target.chain.branches.all fun b => !b.body.hasFreeBreak)) = some ([1, 0], true) :=
    Document.exists_parse (by decide +kernel)
  obtain ⟨target, htarget, hbreaks⟩ := Option.map_eq_some_iff.mp hbreaks
  obtain ⟨hcounts, hfree⟩ := Prod.mk.inj hbreaks
  obtain ⟨program, around, _, _, hreplaces, -, -, -, hiff, -⟩ := switch_keeps_targets_iff htarget
  refine ⟨d, target, hd, htarget, hcounts, program, around, hreplaces, hiff.mpr (.inl ?_)⟩
  simpa using hfree

/-- A break that leaves the loop around the chain leaves the written switch after the conversion. -/
theorem switch_captures_break :
    ∃ d x text d', Document.parse {}
        "while (x) \x7b\n  if (a === 1) break;\n  else f();\n\x7d".toList = .ok d ∧
      transform (Tree.ofDocument d) (.cursor ⟨1, 2⟩) {} = .ok x ∧
      x.output d.text (.cursor ⟨1, 2⟩) = .ok text ∧
      text = ("while (x) \x7b\n  switch (a) \x7b\n  case 1:\n    break;\n    break;\n" ++
        "  default:\n    f();\n    break;\n  \x7d\n\x7d").toList ∧
      Document.parse {} text = .ok d' ∧
      d.program.breakTargets none = [(⟨27, 33⟩, some ⟨0, 47⟩)] ∧
      d'.program.breakTargets none = [(⟨41, 47⟩, some ⟨14, 93⟩), (⟨52, 58⟩, some ⟨14, 93⟩),
        (⟨83, 89⟩, some ⟨14, 93⟩)] := by
  obtain ⟨d, hd, hbefore, hswitch⟩ :
      ∃ d, Document.parse {}
          "while (x) \x7b\n  if (a === 1) break;\n  else f();\n\x7d".toList = .ok d ∧
        d.program.breakTargets none = [(⟨27, 33⟩, some ⟨0, 47⟩)] ∧
        ((transform (Tree.ofDocument d) (.cursor ⟨1, 2⟩) {}).toOption.bind fun x =>
          (x.output d.text (.cursor ⟨1, 2⟩)).toOption) =
            some ("while (x) \x7b\n  switch (a) \x7b\n  case 1:\n    break;\n    break;\n" ++
              "  default:\n    f();\n    break;\n  \x7d\n\x7d").toList :=
    Document.exists_parse (by decide +kernel)
  obtain ⟨d', hd', hafter⟩ :
      ∃ d', Document.parse {}
          ("while (x) \x7b\n  switch (a) \x7b\n  case 1:\n    break;\n    break;\n" ++
            "  default:\n    f();\n    break;\n  \x7d\n\x7d").toList = .ok d' ∧
        d'.program.breakTargets none = [(⟨41, 47⟩, some ⟨14, 93⟩), (⟨52, 58⟩, some ⟨14, 93⟩),
          (⟨83, 89⟩, some ⟨14, 93⟩)] :=
    Document.exists_parse (by decide +kernel)
  obtain ⟨x, hx, hout⟩ := Option.bind_eq_some_iff.mp hswitch
  exact ⟨d, x, _, d', hd, Outcome.eq_ok_of_toOption hx, Outcome.eq_ok_of_toOption hout, rfl, hd',
    hbefore, hafter⟩

end Switch

end Retouch
