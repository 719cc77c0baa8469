import Mathlib.Data.List.Infix
import Retouch.Proofs.Arena
import Retouch.Refactoring.GenericType
import Retouch.Refactoring.Ternary

/-!
# Byte ranges in a tree

The ranges of a tree are what the syntax tree says they are, and nothing in the tree itself makes
them nest. Here stands what can be asked of them, and what follows for constructs that are further
apart than parent and child.

- `Tree.Nested`, `Tree.InOrder`, `Tree.Cut`: constructs lie in those around them, stand one behind
  the other, and end between characters.
- `Tree.HeadsFirst`, `Tree.HeadsCut`: the same for names and type parameters of declarations, which
  have no entries of their own.
- `Tree.WellSpanned`: all of this, of a tree whose constructs have the parts that they should have.
- `Tree.HeadsInside`, `Tree.ListsClosed`, `Tree.OperatorsBetween`, `Tree.Solid`: what single
  refactorings rely on beyond that.
- `Tree.Nested.isInside_of_under`, `Tree.Nested.exists_child_range`: what stands at any depth below
  a construct lies in it, and in one of its children.
- `Tree.rangesOf_children`: the ranges of children are those of the parts that a construct shows.
- `Document.Shows`: a construct that has an entry. `Proper.shows_part` and `WellSpanned.shows_part` go
  from a construct to its parts, and `WellSpanned.isChain_parts` says that they stand in order.
-/

namespace Retouch

open Syntax (Node Form)
open Outline

/-- A range that lies in another one. -/
def Span.IsInside (inner outer : Span) : Prop :=
  outer.start ≤ inner.start ∧ inner.stop ≤ outer.stop

instance (inner outer : Span) : Decidable (inner.IsInside outer) :=
  inferInstanceAs (Decidable (_ ∧ _))

theorem Span.IsInside.trans {a b c : Span} (hab : a.IsInside b) (hbc : b.IsInside c) :
    a.IsInside c :=
  ⟨Nat.le_trans hbc.1 hab.1, Nat.le_trans hab.2 hbc.2⟩

/-- A range that ends before another one starts, or where it starts. -/
def Span.IsBefore (a b : Span) : Prop := a.stop ≤ b.start

instance (a b : Span) : Decidable (a.IsBefore b) :=
  inferInstanceAs (Decidable (_ ≤ _))

/-- Whether both ends of a range lie between characters. -/
def Text.cutsAt (text : Text) (range : Span) : Bool :=
  text.isBoundary range.start && text.isBoundary range.stop

theorem Text.cutsAt_iff {text : Text} {range : Span} :
    text.cutsAt range = true ↔
      text.isBoundary range.start = true ∧ text.isBoundary range.stop = true := by
  rw [cutsAt, Bool.and_eq_true]

/-- A text that is not empty and neither starts nor ends with white space. -/
def Text.isSolid (text : Text) : Bool :=
  text.head?.any (fun c => !isSpace c) && text.getLast?.any (fun c => !isSpace c)

/-- The name of a declaration and, if it has them, its type parameters. -/
def GenericType.Owner.heads (owner : Owner) : List Node :=
  if owner.parameters.isPresent then [owner.name, owner.parameters] else [owner.name]

/-- Constructs that refactorings look into: they hold statements and expressions only. -/
def Syntax.Form.isOpen : Form → Bool
  | .stmt .ifElse | .stmt .block | .expr .conditional | .expr (.binary _) | .expr (.unary _)
  | .expr .paren => true
  | _ => false

/-- Whether the parts of a construct are of the kinds that its form asks for, as far as refactorings
look into it. -/
def Syntax.Node.isProper (n : Node) : Bool :=
  match n.form with
  | .stmt .ifElse =>
    match n.parts with
    | [test, yes, no] =>
      test.form.isExpression && yes.form.isProperStatement
        && (no.form.isProperStatement || !no.isPresent)
    | _ => false
  | .stmt .block => n.parts.all fun part => part.form.isProperStatement
  | form => !form.isOpen || n.parts.all fun part => part.form.isExpression

namespace Document

/-- Whether the type parameters of a declaration end in a closing bracket. -/
def closesList (d : Document) (owner : GenericType.Owner) : Bool :=
  let range := d.range owner.parameters.span
  !owner.parameters.isPresent
    || (d.text.slice? range.start range.stop).any fun list => list.getLast? == some '>'

/-- Whether the operator of an equality stands between its operands. -/
def showsOperator (d : Document) (n : Node) : Bool :=
  match n with
  | .mk (.expr (.binary op)) _ [left, right] =>
    (Ternary.opposite? op).isNone
      || (d.text.slice? (d.range left.span).stop (d.range right.span).start).any
        fun gap => decide (op.text.toList <:+: gap)
  | _ => true

end Document

namespace Tree

/-! ## What can be asked of ranges -/

section Conditions

variable (t : Tree)

/-- The ranges of constructs. -/
def rangesOf (ids : List Nat) : List Span :=
  ids.filterMap fun id => (t.get? id).map Entry.range

/-- Constructs have the parts that they should have. -/
abbrev Proper : Prop :=
  t.document.program.form = .program ∧ ∀ e ∈ t.entries, e.node.isProper = true

/-- What a construct holds lies in its range. -/
abbrev Nested : Prop :=
  ∀ e ∈ t.entries, ∀ r ∈ t.rangesOf e.children, r.IsInside e.range

/-- What a construct holds stands in order and does not overlap. -/
abbrev InOrder : Prop :=
  ∀ e ∈ t.entries, (t.rangesOf e.children).IsChain Span.IsBefore

/-- Constructs start and end between characters. -/
abbrev Cut : Prop :=
  ∀ e ∈ t.entries, t.document.text.cutsAt e.range = true

/-- The name and the type parameters of a declaration stand before all that it holds. -/
abbrev HeadsFirst : Prop :=
  ∀ e ∈ t.entries, ∀ owner ∈ GenericType.ownerIn? e.node, ∀ head ∈ owner.heads,
    ∀ r ∈ t.rangesOf e.children, (t.document.range head.span).IsBefore r

/-- The name and the type parameters of a declaration start and end between characters. -/
abbrev HeadsCut : Prop :=
  ∀ e ∈ t.entries, ∀ owner ∈ GenericType.ownerIn? e.node, ∀ head ∈ owner.heads,
    t.document.text.cutsAt (t.document.range head.span) = true

/-- The name and the type parameters of a declaration lie in it, and are not empty. -/
abbrev HeadsInside : Prop :=
  ∀ e ∈ t.entries, ∀ owner ∈ GenericType.ownerIn? e.node, ∀ head ∈ owner.heads,
    (t.document.range head.span).IsInside e.range ∧
      (t.document.range head.span).start < (t.document.range head.span).stop

/-- Type parameters end in a closing bracket. -/
abbrev ListsClosed : Prop :=
  ∀ e ∈ t.entries, ∀ owner ∈ GenericType.ownerIn? e.node, t.document.closesList owner = true

/-- The operators of equalities stand between their operands. -/
abbrev OperatorsBetween : Prop :=
  ∀ e ∈ t.entries, t.document.showsOperator e.node = true

/-- Nothing but the whole document is empty, or starts or ends with white space. -/
abbrev Solid : Prop :=
  ∀ e ∈ t.entries, e.parent ≠ none →
    (t.document.text.slice? e.range.start e.range.stop).any Text.isSolid = true

/-- A tree with the parts and ranges that reading a text should give it. -/
structure WellSpanned : Prop where
  proper : t.Proper
  nested : t.Nested
  inOrder : t.InOrder
  cut : t.Cut
  headsFirst : t.HeadsFirst
  headsCut : t.HeadsCut

instance : Decidable t.WellSpanned :=
  decidable_of_iff
    (t.Proper ∧ t.Nested ∧ t.InOrder ∧ t.Cut ∧ t.HeadsFirst ∧ t.HeadsCut)
    ⟨fun ⟨hproper, hnested, hinOrder, hcut, hfirst, hheads⟩ =>
      ⟨hproper, hnested, hinOrder, hcut, hfirst, hheads⟩,
      fun h => ⟨h.proper, h.nested, h.inOrder, h.cut, h.headsFirst, h.headsCut⟩⟩

end Conditions

/-! ## Constructs below others -/

variable {d : Document} {id p a : Nat} {e outer : Entry}

theorem mem_entries_of_get? {t : Tree} (h : t.get? id = some e) : e ∈ t.entries :=
  List.mem_of_getElem? h

theorem mem_rangesOf {t : Tree} {ids : List Nat} (hid : id ∈ ids) (he : t.get? id = some e) :
    e.range ∈ t.rangesOf ids :=
  List.mem_filterMap.mpr ⟨id, hid, by rw [he]; rfl⟩

theorem children_eq {t : Tree} (h : t.get? p = some outer) : t.children p = outer.children := by
  rw [children, h]

/-- A link leads from an entry to an entry. -/
theorem IsChildOf.exists_entries (h : (ofDocument d).IsChildOf id p) :
    ∃ e outer, (ofDocument d).get? id = some e ∧ (ofDocument d).get? p = some outer ∧
      id ∈ outer.children := by
  obtain ⟨outer, earlier, o, later, houter, -, -, he⟩ := isChildOf_iff.mp h
  exact ⟨_, outer, he, houter, children_eq houter ▸ mem_children_iff.mpr h⟩

theorem Nested.isInside_of_isChildOf (hnested : (ofDocument d).Nested)
    (h : (ofDocument d).IsChildOf id p) (he : (ofDocument d).get? id = some e)
    (houter : (ofDocument d).get? p = some outer) : e.range.IsInside outer.range := by
  refine hnested outer (mem_entries_of_get? houter) _ (mem_rangesOf ?_ he)
  rw [← children_eq houter]
  exact mem_children_iff.mpr h

/-- What stands at any depth below a construct lies in its range. -/
theorem Nested.isInside_of_under (hnested : (ofDocument d).Nested)
    (h : (ofDocument d).Under id a) (he : (ofDocument d).get? id = some e)
    (houter : (ofDocument d).get? a = some outer) : e.range.IsInside outer.range := by
  induction h generalizing outer with
  | single hlink => exact hnested.isInside_of_isChildOf hlink he houter
  | tail _ hlink ih =>
    obtain ⟨middle, -, hmiddle, -⟩ := hlink.exists_entries
    exact (ih hmiddle).trans (hnested.isInside_of_isChildOf hlink hmiddle houter)

/-- What stands below a construct lies in one of its children. -/
theorem Nested.exists_child_range (hnested : (ofDocument d).Nested)
    (h : (ofDocument d).Under id a) (he : (ofDocument d).get? id = some e)
    (houter : (ofDocument d).get? a = some outer) :
    ∃ r ∈ (ofDocument d).rangesOf outer.children, e.range.IsInside r := by
  obtain ⟨c, hc, hlink⟩ := Relation.TransGen.tail'_iff.mp h
  obtain ⟨ec, outer', hec, houter', hmem⟩ := hlink.exists_entries
  obtain rfl : outer = outer' := Option.some.inj (houter.symm.trans houter')
  refine ⟨ec.range, mem_rangesOf hmem hec, ?_⟩
  rcases Relation.reflTransGen_iff_eq_or_transGen.mp hc with rfl | hc
  · obtain rfl : e = ec := Option.some.inj (he.symm.trans hec)
    exact ⟨Nat.le_refl _, Nat.le_refl _⟩
  · exact hnested.isInside_of_under hc he hec

theorem Under.lt (h : (ofDocument d).Under id a) : a < id := by
  induction h with
  | single hlink => exact hlink.lt
  | tail _ hlink ih => exact Nat.lt_trans hlink.lt ih

theorem Under.exists_get? (h : (ofDocument d).Under id a) :
    ∃ outer, (ofDocument d).get? a = some outer := by
  cases h with
  | single hlink =>
    obtain ⟨-, outer, -, houter, -⟩ := hlink.exists_entries
    exact ⟨outer, houter⟩
  | tail _ hlink =>
    obtain ⟨-, outer, -, houter, -⟩ := hlink.exists_entries
    exact ⟨outer, houter⟩

/-! ## Constructs and their parts -/

/-- The children of an entry, one for each outline that its construct shows. -/
theorem exists_child (h : (ofDocument d).get? id = some e) {o : Outline}
    (ho : o ∈ ofParts e.node.form 0 e.node.parts) :
    ∃ c ec, (ofDocument d).IsChildOf c id ∧ (ofDocument d).get? c = some ec ∧
      ec.parent = some id ∧ ec.node = o.node := by
  obtain ⟨earlier, later, hsplit⟩ := List.append_of_mem ho
  have hchild := (Document.Placed.child (get?_iff_placed.mp h) hsplit).get?
  exact ⟨_, _, isChildOf_iff.mpr ⟨e, earlier, o, later, h, hsplit, rfl, hchild⟩, hchild, rfl, rfl⟩

/-- Every entry but that of the whole document has the range of its construct. -/
theorem range_of_parent (h : (ofDocument d).get? id = some e) (hparent : e.parent ≠ none) :
    e.range = d.range e.node.span := by
  cases get?_iff_placed.mp h with
  | root => exact absurd rfl hparent
  | child => rfl

/-- The ranges of children are those of the parts that a construct shows. -/
theorem rangesOf_children (h : (ofDocument d).get? id = some e) :
    (ofDocument d).rangesOf e.children
      = (ofParts e.node.form 0 e.node.parts).map fun o => d.range o.node.span := by
  -- the outlines that are left, with their first number
  suffices hrest : ∀ earlier rest, ofParts e.node.form 0 e.node.parts = earlier ++ rest →
      (ofDocument d).rangesOf (siblingIds (id + 1 + sizeAll earlier) rest)
        = rest.map fun o => d.range o.node.span by
    rw [children_of_get? h]
    exact hrest [] _ rfl
  intro earlier rest
  induction rest generalizing earlier with
  | nil => exact fun _ => rfl
  | cons o rest ih =>
    intro hsplit
    have hchild := (Document.Placed.child (get?_iff_placed.mp h) hsplit).get?
    have hnext := ih (earlier ++ [o]) (by simp [hsplit])
    rw [sizeAll_append, sizeAll, sizeAll, Nat.add_zero, ← Nat.add_assoc] at hnext
    rw [siblingIds, rangesOf, List.filterMap_cons, hchild]
    exact congrArg (d.range o.node.span :: ·) hnext

end Tree

/-! ## Constructs that hold statements and expressions only -/

theorem Syntax.Node.isPresent_iff {n : Node} : n.isPresent = true ↔ n.form ≠ .absent := by
  unfold isPresent
  split
  · next hform => simp [hform]
  · next hform => simpa using hform

namespace Outline

/-- A part that is in the outline as a whole if it is there at all. -/
def IsPlain (n : Node) : Prop :=
  ofNode n = if n.isPresent then [whole n] else []

theorem exposure_of_code {form : Form}
    (h : form.isExpression = true ∨ form.isProperStatement = true) : form.exposure = .entry := by
  cases form with
  | expr f => rfl
  | stmt f => rfl
  | _ => simp [Form.isExpression, Form.isProperStatement] at h

theorem isPlain_of_code {n : Node}
    (h : n.form.isExpression = true ∨ n.form.isProperStatement = true) :
    IsPlain n ∧ n.isPresent = true := by
  have hentry := exposure_of_code h
  have hpresent : n.isPresent = true := Node.isPresent_iff.mpr fun habsent => by
    rw [habsent] at hentry
    cases hentry
  refine ⟨?_, hpresent⟩
  obtain ⟨form, span, parts⟩ := n
  change form.exposure = .entry at hentry
  rw [IsPlain, if_pos hpresent, ofNode, hentry]
  rfl

theorem isPlain_of_absent {n : Node} (h : n.isPresent = false) : IsPlain n := by
  have habsent : n.form = .absent :=
    Decidable.not_not.mp fun hne => by simp [Node.isPresent_iff.mpr hne] at h
  obtain ⟨form, span, parts⟩ := n
  obtain rfl : form = .absent := habsent
  rw [IsPlain, ofNode]
  rfl

theorem exists_parts_of_ifElse {n : Node} (h : n.isProper = true) (hform : n.form = .stmt .ifElse) :
    ∃ test yes no, n.parts = [test, yes, no] := by
  unfold Node.isProper at h
  rw [hform] at h
  dsimp only at h
  split at h
  · next test yes no hparts => exact ⟨test, yes, no, hparts⟩
  · cases h

/-- An `if` has a test and a body; only its other side may be left out. -/
theorem isPlain_of_ifElse {n test yes no : Node} (h : n.isProper = true)
    (hform : n.form = .stmt .ifElse) (hparts : n.parts = [test, yes, no]) :
    (IsPlain test ∧ test.isPresent = true) ∧ (IsPlain yes ∧ yes.isPresent = true) ∧ IsPlain no := by
  unfold Node.isProper at h
  rw [hform, hparts] at h
  simp only [Bool.and_eq_true, Bool.or_eq_true, Bool.not_eq_true'] at h
  refine ⟨isPlain_of_code (.inl h.1.1), isPlain_of_code (.inr h.1.2), ?_⟩
  rcases h.2 with hno | hno
  · exact (isPlain_of_code (.inr hno)).1
  · exact isPlain_of_absent hno

/-- The other constructs that refactorings look into have no part that may be left out. -/
theorem isPlain_of_mem_parts {n : Node} (h : n.isProper = true) (hopen : n.form.isOpen = true)
    (hif : n.form ≠ .stmt .ifElse) : ∀ part ∈ n.parts, IsPlain part ∧ part.isPresent = true := by
  intro part hpart
  unfold Node.isProper at h
  split at h
  · next hform => exact absurd hform hif
  · exact isPlain_of_code (.inr (List.all_eq_true.mp h part hpart))
  · rw [hopen] at h
    exact isPlain_of_code (.inl (List.all_eq_true.mp h part hpart))

theorem isPlain_of_isProper {n : Node} (h : n.isProper = true) (hopen : n.form.isOpen = true) :
    ∀ part ∈ n.parts, IsPlain part := by
  by_cases hform : n.form = .stmt .ifElse
  · obtain ⟨test, yes, no, hparts⟩ := exists_parts_of_ifElse h hform
    obtain ⟨htest, hyes, hno⟩ := isPlain_of_ifElse h hform hparts
    rw [hparts]
    simpa using ⟨htest.1, hyes.1, hno⟩
  · exact fun part hpart => (isPlain_of_mem_parts h hopen hform part hpart).1

theorem shows_of_isOpen {form : Form} (h : form.isOpen = true) (i : Nat) : form.shows i = true := by
  unfold Form.isOpen at h
  split at h
  case h_7 => cases h
  all_goals rfl

/-- The outline of a construct that shows its parts has those that are there, in their order. -/
theorem ofParts_of_isPlain {form : Form} (hshows : ∀ i, form.shows i = true) :
    ∀ (i : Nat) (parts : List Node), (∀ part ∈ parts, IsPlain part) →
      ofParts form i parts = (parts.filter Node.isPresent).map whole
  | _, [], _ => rfl
  | i, part :: rest, h => by
    have hrest := ofParts_of_isPlain hshows (i + 1) rest fun other hother =>
      h other (List.mem_cons_of_mem part hother)
    rw [ofParts, if_pos (hshows i), h part List.mem_cons_self, List.filter_cons, hrest]
    split
    · rfl
    · rfl

end Outline

/-! ## Constructs with an entry of their own -/

/-- A construct that has an entry in the tree, below that of the whole document. -/
def Document.Shows (d : Document) (n : Node) : Prop :=
  ∃ id e, (Tree.ofDocument d).get? id = some e ∧ e.parent ≠ none ∧ e.node = n

theorem Text.exists_slice? {text : Text} {a b : Nat} (ha : text.isBoundary a = true)
    (hb : text.isBoundary b = true) (hab : a ≤ b) : ∃ part, text.slice? a b = some part := by
  obtain ⟨before, rest, rfl, rfl⟩ := isBoundary_iff.mp ha
  obtain ⟨longer, after, hsplit, rfl⟩ := isBoundary_iff.mp hb
  obtain ⟨part, rfl, rfl⟩ := exists_middle hsplit hab
  exact ⟨part, slice?_eq_some_iff.mpr
    ⟨before, after, (List.append_assoc ..).symm, rfl, (size_append _ _).symm⟩⟩

theorem Document.exists_slice (d : Document) {range : Span}
    (hcut : d.text.cutsAt range = true) (hle : range.start ≤ range.stop) :
    ∃ part, d.slice range = .ok part := by
  obtain ⟨hstart, hstop⟩ := Text.cutsAt_iff.mp hcut
  obtain ⟨part, hpart⟩ := Text.exists_slice? hstart hstop hle
  exact ⟨part, by rw [slice, hpart]⟩

theorem Document.range_ordered (d : Document) (span : Span) :
    (d.range span).start ≤ (d.range span).stop :=
  Nat.le_max_left _ _

namespace Tree

variable {d : Document} {n part : Node} {id : Nat} {e : Entry}

theorem Proper.parent_ne_none (h : (ofDocument d).Proper) (he : (ofDocument d).get? id = some e)
    (hform : e.node.form ≠ .program) : e.parent ≠ none := by
  cases get?_iff_placed.mp he with
  | root => exact absurd h.1 hform
  | child => exact nofun

theorem Proper.shows_node (h : (ofDocument d).Proper) (he : (ofDocument d).get? id = some e)
    (hform : e.node.form ≠ .program) : d.Shows e.node ∧ e.range = d.range e.node.span := by
  have hparent := h.parent_ne_none he hform
  exact ⟨⟨id, e, he, hparent, rfl⟩, range_of_parent he hparent⟩

theorem Proper.isProper (h : (ofDocument d).Proper) (hn : d.Shows n) : n.isProper = true := by
  obtain ⟨id, e, he, -, rfl⟩ := hn
  exact h.2 e (mem_entries_of_get? he)

/-- The parts of a construct that refactorings look into are children of its own. -/
theorem Proper.exists_part (h : (ofDocument d).Proper) (he : (ofDocument d).get? id = some e)
    (hopen : e.node.form.isOpen = true) (hpart : part ∈ e.node.parts)
    (hpresent : part.isPresent = true) :
    ∃ c ec, (ofDocument d).IsChildOf c id ∧ (ofDocument d).get? c = some ec ∧
      ec.parent = some id ∧ ec.node = part := by
  have hplain := isPlain_of_isProper (h.2 e (mem_entries_of_get? he)) hopen
  refine exists_child (o := whole part) he ?_
  rw [ofParts_of_isPlain (shows_of_isOpen hopen) 0 _ hplain]
  exact List.mem_map_of_mem (List.mem_filter.mpr ⟨hpart, hpresent⟩)

theorem Proper.shows_part (h : (ofDocument d).Proper) (hn : d.Shows n)
    (hopen : n.form.isOpen = true) (hpart : part ∈ n.parts) (hpresent : part.isPresent = true) :
    d.Shows part := by
  obtain ⟨id, e, he, hparent, rfl⟩ := hn
  obtain ⟨c, ec, -, hec, hlinked, hnode⟩ := h.exists_part he hopen hpart hpresent
  exact ⟨c, ec, hec, by rw [hlinked]; exact nofun, hnode⟩

/-- No part can be left out but the other side of an `if`. -/
theorem Proper.shows_every_part (h : (ofDocument d).Proper) (hn : d.Shows n)
    (hopen : n.form.isOpen = true) (hif : n.form ≠ .stmt .ifElse) (hpart : part ∈ n.parts) :
    d.Shows part :=
  h.shows_part hn hopen hpart (isPlain_of_mem_parts (h.isProper hn) hopen hif part hpart).2

/-- The test and the sides of an `if` have entries. -/
theorem Proper.shows_ifElse (h : (ofDocument d).Proper) (hn : d.Shows n) {test yes no : Node}
    (hform : n.form = .stmt .ifElse) (hparts : n.parts = [test, yes, no]) :
    d.Shows test ∧ d.Shows yes ∧ (no.isPresent = true → d.Shows no) := by
  obtain ⟨⟨-, htest⟩, ⟨-, hyes⟩, -⟩ := isPlain_of_ifElse (h.isProper hn) hform hparts
  have hopen : n.form.isOpen = true := by rw [hform]; rfl
  exact ⟨h.shows_part hn hopen (by simp [hparts]) htest,
    h.shows_part hn hopen (by simp [hparts]) hyes, h.shows_part hn hopen (by simp [hparts])⟩

theorem Cut.cutsAt (h : (ofDocument d).Cut) (hn : d.Shows n) :
    d.text.cutsAt (d.range n.span) = true := by
  obtain ⟨id, e, he, hparent, rfl⟩ := hn
  exact range_of_parent he hparent ▸ h e (mem_entries_of_get? he)

end Tree

namespace Tree.WellSpanned

variable {d : Document} {n part : Node} {id : Nat} {e : Entry}

theorem parent_ne_none (h : (ofDocument d).WellSpanned) (he : (ofDocument d).get? id = some e)
    (hform : e.node.form ≠ .program) : e.parent ≠ none :=
  h.proper.parent_ne_none he hform

theorem shows_node (h : (ofDocument d).WellSpanned) (he : (ofDocument d).get? id = some e)
    (hform : e.node.form ≠ .program) : d.Shows e.node ∧ e.range = d.range e.node.span :=
  h.proper.shows_node he hform

theorem isProper (h : (ofDocument d).WellSpanned) (hn : d.Shows n) : n.isProper = true :=
  h.proper.isProper hn

theorem cutsAt (h : (ofDocument d).WellSpanned) (hn : d.Shows n) :
    d.text.cutsAt (d.range n.span) = true :=
  h.cut.cutsAt hn

/-- The parts of a construct that refactorings look into have entries as well, inside of its own. -/
theorem shows_part (h : (ofDocument d).WellSpanned) (hn : d.Shows n)
    (hopen : n.form.isOpen = true) (hpart : part ∈ n.parts) (hpresent : part.isPresent = true) :
    d.Shows part ∧ (d.range part.span).IsInside (d.range n.span) := by
  refine ⟨h.proper.shows_part hn hopen hpart hpresent, ?_⟩
  obtain ⟨id, e, he, hparent, rfl⟩ := hn
  obtain ⟨c, ec, hlink, hec, hlinked, hnode⟩ := h.proper.exists_part he hopen hpart hpresent
  have hchild : ec.parent ≠ none := by rw [hlinked]; exact nofun
  have hinside := h.nested.isInside_of_isChildOf hlink hec he
  rwa [range_of_parent hec hchild, range_of_parent he hparent, hnode] at hinside

/-- The test and the sides of an `if` have entries inside of its own. -/
theorem shows_ifElse (h : (ofDocument d).WellSpanned) (hn : d.Shows n) {test yes no : Node}
    (hform : n.form = .stmt .ifElse) (hparts : n.parts = [test, yes, no]) :
    (d.Shows test ∧ (d.range test.span).IsInside (d.range n.span)) ∧
      (d.Shows yes ∧ (d.range yes.span).IsInside (d.range n.span)) ∧
      (no.isPresent = true → d.Shows no ∧ (d.range no.span).IsInside (d.range n.span)) := by
  obtain ⟨⟨-, htest⟩, ⟨-, hyes⟩, -⟩ := isPlain_of_ifElse (h.isProper hn) hform hparts
  have hopen : n.form.isOpen = true := by rw [hform]; rfl
  exact ⟨h.shows_part hn hopen (by simp [hparts]) htest,
    h.shows_part hn hopen (by simp [hparts]) hyes, h.shows_part hn hopen (by simp [hparts])⟩

/-- No part can be left out but the other side of an `if`. -/
theorem shows_every_part (h : (ofDocument d).WellSpanned) (hn : d.Shows n)
    (hopen : n.form.isOpen = true) (hif : n.form ≠ .stmt .ifElse) (hpart : part ∈ n.parts) :
    d.Shows part ∧ (d.range part.span).IsInside (d.range n.span) :=
  h.shows_part hn hopen hpart (isPlain_of_mem_parts (h.isProper hn) hopen hif part hpart).2

/-- The parts of such a construct stand one behind the other. -/
theorem isChain_parts (h : (ofDocument d).WellSpanned) (hn : d.Shows n)
    (hopen : n.form.isOpen = true) :
    ((n.parts.filter Node.isPresent).map fun part => d.range part.span).IsChain Span.IsBefore := by
  have hplain := isPlain_of_isProper (h.isProper hn) hopen
  obtain ⟨id, e, he, -, rfl⟩ := hn
  have hchain := h.inOrder e (mem_entries_of_get? he)
  rwa [rangesOf_children he, ofParts_of_isPlain (shows_of_isOpen hopen) 0 _ hplain,
    List.map_map] at hchain

theorem isChain_every_part (h : (ofDocument d).WellSpanned) (hn : d.Shows n)
    (hopen : n.form.isOpen = true) (hif : n.form ≠ .stmt .ifElse) :
    (n.parts.map fun part => d.range part.span).IsChain Span.IsBefore := by
  have hchain := h.isChain_parts hn hopen
  rwa [List.filter_eq_self.mpr fun part hpart =>
    (isPlain_of_mem_parts (h.isProper hn) hopen hif part hpart).2] at hchain

/-- The test and the sides of an `if` stand one behind the other. -/
theorem ifElse_inOrder (h : (ofDocument d).WellSpanned) (hn : d.Shows n) {test yes no : Node}
    (hform : n.form = .stmt .ifElse) (hparts : n.parts = [test, yes, no]) :
    (d.range test.span).IsBefore (d.range yes.span) ∧
      (no.isPresent = true → (d.range yes.span).IsBefore (d.range no.span)) := by
  obtain ⟨⟨-, htest⟩, ⟨-, hyes⟩, -⟩ := isPlain_of_ifElse (h.isProper hn) hform hparts
  have hchain := h.isChain_parts hn (by rw [hform]; rfl)
  rw [hparts, List.filter_cons_of_pos htest, List.filter_cons_of_pos hyes] at hchain
  refine ⟨(List.isChain_cons_cons.mp hchain).1, fun hno => ?_⟩
  rw [List.filter_cons_of_pos hno] at hchain
  exact (List.isChain_cons_cons.mp (List.isChain_cons_cons.mp hchain).2).1

end Tree.WellSpanned

/-- A condition on a document can be tried on what a text is read as. -/
theorem Document.exists_parse {P : Document → Prop} [DecidablePred P] {dialect : Syntax.Dialect}
    {text : Text} (h : (Document.parse dialect text).toOption.any (fun d => decide (P d)) = true) :
    ∃ d, Document.parse dialect text = .ok d ∧ P d := by
  cases hd : Document.parse dialect text with
  | error fault =>
    rw [hd] at h
    cases h
  | ok d =>
    rw [hd] at h
    exact ⟨d, rfl, of_decide_eq_true h⟩

end Retouch
