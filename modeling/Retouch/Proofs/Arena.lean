import Mathlib.Data.List.Chain
import Mathlib.Data.List.Sort
import Mathlib.Logic.Relation
import Retouch.Proofs.Positions
import Retouch.Tree

/-!
# The tree of a document

The entries of a tree come out of one pass over the outline of the document. Here each entry is
traced back to the way that leads to it from the root, and everything about numbers, parents and
children is read off that way.

- `Document.Placed`: the way from the root to an entry; `get?_iff_placed` says that the entries of
  the tree are the ones that can be reached.
- `Tree.IsChildOf`: the links from children to parents, and `Tree.Under` their strict transitive
  closure.
- `Tree.children_eq_filter`, `Tree.reflTransGen_iff`, `Tree.mem_ancestors_iff`: child lists, blocks
  of descendants and ancestors, in terms of these links.
- `Tree.ofDocument_wellFormed`: all of it, for every document.
-/

namespace Retouch

open Syntax (Node Form)

/-! ## Outlines -/

namespace Outline

/-- The outline of a construct that has an entry of its own. -/
def whole (n : Node) : Outline :=
  mk n (ofParts n.form 0 n.parts)

mutual

/-- An outline holds what its construct shows, and nothing else. -/
theorem eq_whole_of_mem_ofNode : ∀ (n : Node), ∀ o ∈ ofNode n, o = whole o.node
  | .mk form span parts, o, ho => by
    rw [ofNode] at ho
    split at ho
    · rw [List.mem_singleton.mp ho]
      rfl
    · exact eq_whole_of_mem_ofParts form 0 parts o ho
    · cases ho

theorem eq_whole_of_mem_ofParts (form : Form) :
    ∀ (i : Nat) (parts : List Node), ∀ o ∈ ofParts form i parts, o = whole o.node
  | _, [], _, ho => nomatch ho
  | i, part :: rest, o, ho => by
    rw [ofParts] at ho
    split at ho
    · rcases List.mem_append.mp ho with ho | ho
      · exact eq_whole_of_mem_ofNode part o ho
      · exact eq_whole_of_mem_ofParts form (i + 1) rest o ho
    · exact eq_whole_of_mem_ofParts form (i + 1) rest o ho

end

theorem size_whole (n : Node) : (whole n).size = 1 + sizeAll (ofParts n.form 0 n.parts) :=
  rfl

theorem sizeAll_append (a b : List Outline) : sizeAll (a ++ b) = sizeAll a + sizeAll b := by
  induction a with
  | nil => simp [sizeAll]
  | cons o rest ih => simp [sizeAll, ih, Nat.add_assoc]

/-- The outline in a list to which the construct with a given number belongs. -/
theorem exists_of_lt_sizeAll {k : Nat} :
    ∀ {os : List Outline}, k < sizeAll os →
      ∃ earlier o later j, os = earlier ++ o :: later ∧ k = sizeAll earlier + j ∧ j < o.size
  | [], h => nomatch h
  | o :: rest, h => by
    by_cases hk : k < o.size
    · exact ⟨[], o, rest, k, rfl, by simp [sizeAll], hk⟩
    · rw [sizeAll] at h
      obtain ⟨earlier, o', later, j, rfl, hkj, hj⟩ :=
        @exists_of_lt_sizeAll (k - o.size) rest (by omega)
      exact ⟨o :: earlier, o', later, j, rfl, by rw [sizeAll]; omega, hj⟩

end Outline

open Outline

/-! ## Numbers of siblings -/

theorem mem_siblingIds {c : Nat} :
    ∀ {base : Nat} {os : List Outline}, c ∈ siblingIds base os ↔
      ∃ earlier o later, os = earlier ++ o :: later ∧ c = base + sizeAll earlier
  | _, [] => by simp [siblingIds]
  | base, o :: rest => by
    rw [siblingIds, List.mem_cons, mem_siblingIds]
    constructor
    · rintro (rfl | ⟨earlier, o', later, rfl, rfl⟩)
      · exact ⟨[], o, rest, rfl, rfl⟩
      · exact ⟨o :: earlier, o', later, rfl, by rw [sizeAll]; omega⟩
    · rintro ⟨earlier, o', later, hsplit, rfl⟩
      cases earlier with
      | nil => exact .inl rfl
      | cons first earlier =>
        obtain ⟨rfl, rfl⟩ := List.cons.inj hsplit
        exact .inr ⟨earlier, o', later, rfl, by rw [sizeAll]; omega⟩

theorem size_pos (o : Outline) : 0 < o.size := by
  cases o
  rw [Outline.size]
  omega

/-- Siblings are numbered upwards. -/
theorem pairwise_siblingIds :
    ∀ (base : Nat) (os : List Outline), (siblingIds base os).Pairwise (· < ·)
  | _, [] => List.Pairwise.nil
  | base, o :: rest => by
    refine List.pairwise_cons.mpr ⟨fun c hc => ?_, pairwise_siblingIds (base + o.size) rest⟩
    obtain ⟨earlier, -, -, -, rfl⟩ := mem_siblingIds.mp hc
    have hpos := size_pos o
    omega

/-! ## Blocks of entries -/

namespace Document

variable (d : Document)

/-- The entry of a construct with a given parent, number and range. -/
def entryFor (parent : Option Nat) (id : Nat) (range : Span) (n : Node) : Entry :=
  ⟨n, range, d.text.selection range, parent, siblingIds (id + 1) (ofParts n.form 0 n.parts)⟩

section Fields

variable (parent : Option Nat) (id : Nat) (range : Span) (n : Node)

@[simp] theorem entryFor_node : (d.entryFor parent id range n).node = n := rfl

@[simp] theorem entryFor_range : (d.entryFor parent id range n).range = range := rfl

@[simp] theorem entryFor_parent : (d.entryFor parent id range n).parent = parent := rfl

end Fields

theorem entriesAt_whole (parent : Option Nat) (id : Nat) (range : Span) (n : Node) :
    d.entriesAt parent id range (whole n)
      = d.entryFor parent id range n :: d.entriesOf id (id + 1) (ofParts n.form 0 n.parts) := by
  rw [whole, entriesAt]
  rfl

theorem entriesOf_append (parent id : Nat) (a b : List Outline) :
    d.entriesOf parent id (a ++ b)
      = d.entriesOf parent id a ++ d.entriesOf parent (id + sizeAll a) b := by
  induction a generalizing id with
  | nil => simp [entriesOf, sizeAll]
  | cons o rest ih => simp [entriesOf, sizeAll, ih, Nat.add_assoc]

mutual

theorem length_entriesAt (parent : Option Nat) (id : Nat) (range : Span) :
    ∀ o : Outline, (d.entriesAt parent id range o).length = o.size
  | .mk node children => by
    rw [entriesAt, List.length_cons, length_entriesOf id (id + 1) children, Outline.size]
    omega

theorem length_entriesOf (parent : Nat) :
    ∀ (id : Nat) (os : List Outline), (d.entriesOf parent id os).length = sizeAll os
  | _, [] => by simp [entriesOf, sizeAll]
  | id, o :: rest => by
    rw [entriesOf, List.length_append, length_entriesAt _ _ _ o,
      length_entriesOf parent (id + o.size) rest, sizeAll]

end

/-! ## Ways from the root -/

/-- The way from the root of a document to an entry: the root is one, and with an entry each
construct that its own construct shows. The numbers of the constructs before it are counted off. -/
inductive Placed : Nat → Entry → Prop
  | root : Placed 0 (d.entryFor none 0 ⟨0, d.text.size⟩ d.program)
  | child {p : Nat} {outer : Entry} {earlier later : List Outline} {o : Outline}
      (hp : Placed p outer)
      (hsplit : ofParts outer.node.form 0 outer.node.parts = earlier ++ o :: later) :
      Placed (p + 1 + sizeAll earlier)
        (d.entryFor (some p) (p + 1 + sizeAll earlier) (d.range o.node.span) o.node)

variable {d} {id : Nat} {e : Entry}

/-- The entry at the end of a way, and those of the constructs below it, are one block. -/
theorem Placed.exists_block (h : d.Placed id e) :
    ∃ before after, (Tree.ofDocument d).entries
        = before ++ d.entriesAt e.parent id e.range (whole e.node) ++ after ∧
      before.length = id ∧ e = d.entryFor e.parent id e.range e.node := by
  induction h with
  | root => exact ⟨[], [], by simp [Tree.ofDocument, entryFor, whole], rfl, rfl⟩
  | @child p outer earlier later o _ hsplit ih =>
    obtain ⟨before, after, hblock, hlength, -⟩ := ih
    have hmem : o ∈ ofParts outer.node.form 0 outer.node.parts := by simp [hsplit]
    have ho : o = whole o.node := eq_whole_of_mem_ofParts _ 0 _ o hmem
    refine ⟨before ++ d.entryFor outer.parent p outer.range outer.node
        :: d.entriesOf p (p + 1) earlier,
      d.entriesOf p (p + 1 + sizeAll earlier + o.size) later ++ after, ?_, ?_, rfl⟩
    · rw [hblock, entriesAt_whole, hsplit, entriesOf_append, entriesOf, entryFor_node,
        entryFor_parent, entryFor_range, ← ho]
      simp
    · rw [List.length_append, List.length_cons, hlength, length_entriesOf]
      omega

theorem Placed.get? (h : d.Placed id e) : (Tree.ofDocument d).get? id = some e := by
  obtain ⟨before, after, hblock, hlength, he⟩ := h.exists_block
  rw [Tree.get?, hblock, entriesAt_whole, ← he, ← hlength]
  simp

end Document

/-! ## Links to parents -/

namespace Tree

/-- The link from a construct to the one directly around it. -/
def IsChildOf (t : Tree) (c p : Nat) : Prop := t.parent? c = some p

instance (t : Tree) (c p : Nat) : Decidable (t.IsChildOf c p) :=
  inferInstanceAs (Decidable (t.parent? c = some p))

/-- A construct that stands, at any depth, below another one. -/
def Under (t : Tree) : Nat → Nat → Prop := Relation.TransGen t.IsChildOf

variable {d : Document} {id p c : Nat} {e outer : Entry}

/-- Everything in the block of an entry can be reached, and stands at or below that entry. -/
theorem exists_placed (h : d.Placed id e) {k : Nat} (hk : k < (whole e.node).size) :
    ∃ e', d.Placed (id + k) e' ∧
      Relation.ReflTransGen (ofDocument d).IsChildOf (id + k) id := by
  induction k using Nat.strong_induction_on generalizing id e with
  | _ k ih =>
    cases k with
    | zero => exact ⟨e, h, .refl⟩
    | succ k =>
      -- the construct belongs to one of the children, and is nearer to that child
      have hlt : k < sizeAll (ofParts e.node.form 0 e.node.parts) := by
        rw [size_whole] at hk
        omega
      obtain ⟨earlier, o, later, j, hsplit, hkj, hj⟩ := exists_of_lt_sizeAll hlt
      have hchild := Document.Placed.child h hsplit
      have hmem : o ∈ ofParts e.node.form 0 e.node.parts := by simp [hsplit]
      have ho : o = whole o.node := eq_whole_of_mem_ofParts _ 0 _ o hmem
      have hsize : j < (whole o.node).size := ho ▸ hj
      obtain ⟨e', hplaced, hpath⟩ := ih j (by omega) hchild hsize
      have hid : id + 1 + sizeAll earlier + j = id + (k + 1) := by omega
      rw [hid] at hplaced hpath
      refine ⟨e', hplaced, hpath.tail ?_⟩
      show (ofDocument d).parent? (id + 1 + sizeAll earlier) = some id
      rw [parent?, hchild.get?]
      rfl

theorem size_ofDocument (d : Document) : (ofDocument d).size = (whole d.program).size :=
  d.length_entriesAt _ _ _ _

/-- The entries of the tree are the ones that can be reached from the root. -/
theorem get?_iff_placed : (ofDocument d).get? id = some e ↔ d.Placed id e := by
  constructor
  · intro h
    have hlt : id < (ofDocument d).size := (List.getElem?_eq_some_iff.mp h).1
    rw [size_ofDocument] at hlt
    obtain ⟨e', hplaced, -⟩ := exists_placed .root hlt
    rw [Nat.zero_add] at hplaced
    rw [hplaced.get?] at h
    cases h
    exact hplaced
  · exact Document.Placed.get?

/-- A construct is the child of an entry if that entry's own construct shows it; its number is
counted off from the constructs shown before it. -/
theorem isChildOf_iff :
    (ofDocument d).IsChildOf c p ↔
      ∃ outer earlier o later, (ofDocument d).get? p = some outer ∧
        ofParts outer.node.form 0 outer.node.parts = earlier ++ o :: later ∧
        c = p + 1 + sizeAll earlier ∧
        (ofDocument d).get? c = some (d.entryFor (some p) c (d.range o.node.span) o.node) := by
  constructor
  · intro h
    obtain ⟨e, he, hparent⟩ := Option.bind_eq_some_iff.mp h
    cases (get?_iff_placed).mp he with
    | root => cases hparent
    | @child p' outer earlier later o hp hsplit =>
      cases hparent
      exact ⟨outer, earlier, o, later, hp.get?, hsplit, rfl, he⟩
  · rintro ⟨outer, earlier, o, later, -, -, -, he⟩
    rw [IsChildOf, parent?, he]
    rfl

/-- Parents have smaller numbers. -/
theorem IsChildOf.lt (h : (ofDocument d).IsChildOf c p) : p < c := by
  obtain ⟨outer, earlier, o, later, -, -, rfl, -⟩ := (isChildOf_iff).mp h
  omega

theorem IsChildOf.lt_size (h : (ofDocument d).IsChildOf c p) : c < (ofDocument d).size := by
  obtain ⟨outer, earlier, o, later, -, -, -, he⟩ := (isChildOf_iff).mp h
  exact (List.getElem?_eq_some_iff.mp he).1

theorem children_of_get? (h : (ofDocument d).get? p = some e) :
    e.children = siblingIds (p + 1) (ofParts e.node.form 0 e.node.parts) := by
  cases (get?_iff_placed).mp h with
  | root => rfl
  | child => rfl

/-- The children of a construct are those whose parent it is. -/
theorem mem_children_iff : c ∈ (ofDocument d).children p ↔ (ofDocument d).IsChildOf c p := by
  rw [isChildOf_iff, children]
  cases hp : (ofDocument d).get? p with
  | none => simp
  | some outer =>
    dsimp only
    rw [children_of_get? hp, mem_siblingIds]
    constructor
    · rintro ⟨earlier, o, later, hsplit, rfl⟩
      exact ⟨outer, earlier, o, later, rfl, hsplit, rfl,
        (Document.Placed.child ((get?_iff_placed).mp hp) hsplit).get?⟩
    · rintro ⟨outer', earlier, o, later, hp', hsplit, rfl, -⟩
      cases hp'
      exact ⟨earlier, o, later, hsplit, rfl⟩

/-- Children are listed once each, in the order of their numbers. -/
theorem children_eq_filter (d : Document) (p : Nat) :
    (ofDocument d).children p
      = (List.range (ofDocument d).size).filter fun c => (ofDocument d).IsChildOf c p := by
  have hsorted : ((ofDocument d).children p).Pairwise (· < ·) := by
    rw [children]
    split
    · next outer hp =>
      rw [children_of_get? hp]
      exact pairwise_siblingIds _ _
    · exact List.Pairwise.nil
  have hrange := (List.pairwise_lt_range (n := (ofDocument d).size)).filter
    fun c => (ofDocument d).IsChildOf c p
  refine hsorted.eq_of_mem_iff hrange fun c => ?_
  rw [mem_children_iff, List.mem_filter, List.mem_range, decide_eq_true_eq]
  refine ⟨fun h => ⟨?_, h⟩, And.right⟩
  exact h.lt_size

/-! ## Descendants -/

/-- What stands at or below an entry lies, with all that is below it, in the block of that entry. -/
theorem block_le (h : (ofDocument d).get? id = some e) {j : Nat}
    (hj : Relation.ReflTransGen (ofDocument d).IsChildOf j id) :
    ∃ e', (ofDocument d).get? j = some e' ∧ id ≤ j ∧
      j + (whole e'.node).size ≤ id + (whole e.node).size := by
  induction hj using Relation.ReflTransGen.head_induction_on with
  | refl => exact ⟨e, h, Nat.le_refl _, Nat.le_refl _⟩
  | @head j j' hlink _ ih =>
    obtain ⟨e', he', hle, hsize⟩ := ih
    obtain ⟨outer, earlier, o, later, houter, hsplit, rfl, hj⟩ := (isChildOf_iff).mp hlink
    obtain rfl : outer = e' := Option.some.inj (houter.symm.trans he')
    have hmem : o ∈ ofParts outer.node.form 0 outer.node.parts := by simp [hsplit]
    have ho : o = whole o.node := eq_whole_of_mem_ofParts _ 0 _ o hmem
    refine ⟨_, hj, by omega, ?_⟩
    show j' + 1 + sizeAll earlier + (whole o.node).size ≤ _
    rw [size_whole, hsplit, sizeAll_append, sizeAll] at hsize
    rw [← ho]
    omega

/-- An entry and what stands below it are one block of numbers. -/
theorem reflTransGen_iff (h : (ofDocument d).get? id = some e) {j : Nat} :
    Relation.ReflTransGen (ofDocument d).IsChildOf j id ↔
      id ≤ j ∧ j < id + (whole e.node).size := by
  constructor
  · intro hj
    obtain ⟨e', -, hle, hsize⟩ := block_le h hj
    have hpos := size_pos (whole e'.node)
    omega
  · rintro ⟨hle, hlt⟩
    obtain ⟨-, -, hpath⟩ :=
      @exists_placed d id e ((get?_iff_placed).mp h) (j - id) (by omega)
    rwa [Nat.add_sub_cancel' hle] at hpath

/-! ## Ancestors -/

/-- There are no more steps upwards than the number of a construct says. -/
theorem ancestorsFrom_succ {f : Nat} (h : id ≤ f) :
    (ofDocument d).ancestorsFrom (f + 1) id = (ofDocument d).ancestorsFrom f id := by
  induction f generalizing id with
  | zero =>
    rw [ancestorsFrom, ancestorsFrom]
    split
    · next p hp =>
      have hlt := IsChildOf.lt hp
      omega
    · rfl
  | succ f ih =>
    rw [ancestorsFrom, ancestorsFrom]
    split
    · next p hp =>
      have hlt := IsChildOf.lt hp
      rw [ih (by omega)]
    · rfl

theorem ancestors_of_parent (h : (ofDocument d).IsChildOf id p) :
    (ofDocument d).ancestors id = p :: (ofDocument d).ancestors p := by
  have hlt := h.lt
  obtain ⟨n, hn⟩ := Nat.exists_eq_succ_of_ne_zero (Nat.ne_zero_of_lt h.lt_size)
  have hsize := h.lt_size
  rw [ancestors, ancestors, hn, ancestorsFrom]
  simp only [show (ofDocument d).parent? id = some p from h]
  rw [ancestorsFrom_succ (by omega)]

theorem ancestors_of_root (h : (ofDocument d).parent? id = none) :
    (ofDocument d).ancestors id = [] := by
  rw [ancestors]
  cases (ofDocument d).size with
  | zero => rfl
  | succ n => simp only [ancestorsFrom, h]

/-- The ancestors of a construct are the ones that it stands below. -/
theorem mem_ancestors_iff {a : Nat} :
    a ∈ (ofDocument d).ancestors id ↔ (ofDocument d).Under id a := by
  induction id using Nat.strong_induction_on with
  | _ id ih =>
    rw [Under, Relation.TransGen.head'_iff]
    cases hp : (ofDocument d).parent? id with
    | none =>
      rw [ancestors_of_root hp]
      constructor
      · intro h
        cases h
      · rintro ⟨p, hlink, -⟩
        cases hp.symm.trans hlink
    | some p =>
      have hlink : (ofDocument d).IsChildOf id p := hp
      rw [ancestors_of_parent hlink, List.mem_cons, ih p hlink.lt]
      constructor
      · rintro (rfl | h)
        · exact ⟨a, hlink, .refl⟩
        · exact ⟨p, hlink, h.to_reflTransGen⟩
      · rintro ⟨p', hlink', hpath⟩
        obtain rfl : p = p' := Option.some.inj (hp.symm.trans hlink')
        rcases Relation.reflTransGen_iff_eq_or_transGen.mp hpath with rfl | h
        · exact .inl rfl
        · exact .inr h

theorem parent?_zero (d : Document) : (ofDocument d).parent? 0 = none := by
  cases hp : (ofDocument d).parent? 0 with
  | none => rfl
  | some p => exact absurd (IsChildOf.lt hp) (Nat.not_lt_zero p)

/-- Only the root has no parent. -/
theorem exists_isChildOf (h : id < (ofDocument d).size) (hid : id ≠ 0) :
    ∃ p, (ofDocument d).IsChildOf id p := by
  obtain ⟨e, he⟩ : ∃ e, (ofDocument d).get? id = some e := ⟨_, List.getElem?_eq_getElem h⟩
  cases (get?_iff_placed).mp he with
  | root => exact absurd rfl hid
  | @child p outer earlier later o hp hsplit =>
    exact ⟨p, (isChildOf_iff).mpr ⟨outer, earlier, o, later, hp.get?, hsplit, rfl, he⟩⟩

/-- Going up from parent to parent ends at the root. -/
theorem isChain_ancestors (h : id < (ofDocument d).size) :
    (id :: (ofDocument d).ancestors id).IsChain (ofDocument d).IsChildOf ∧
      (id :: (ofDocument d).ancestors id).getLast? = some 0 := by
  induction id using Nat.strong_induction_on with
  | _ id ih =>
    by_cases hid : id = 0
    · subst hid
      rw [ancestors_of_root (parent?_zero d)]
      exact ⟨.singleton 0, rfl⟩
    · obtain ⟨p, hlink⟩ := exists_isChildOf h hid
      have hlt := hlink.lt
      obtain ⟨hchain, hlast⟩ := ih p hlt (by omega)
      rw [ancestors_of_parent hlink]
      exact ⟨.cons_cons hlink hchain, by rw [List.getLast?_cons_cons, hlast]⟩

/-! ## Ranges -/

theorem range_ordered (h : (ofDocument d).get? id = some e) :
    e.range.start ≤ e.range.stop ∧ e.range.stop ≤ d.text.size := by
  cases (get?_iff_placed).mp h with
  | root => exact ⟨Nat.zero_le _, Nat.le_refl _⟩
  | child =>
    simp only [Document.entryFor_range, Document.range]
    omega

theorem selection_eq (h : (ofDocument d).get? id = some e) :
    e.selection = d.text.selection e.range := by
  cases (get?_iff_placed).mp h with
  | root => rfl
  | child => rfl

/-! ## The whole tree -/

/-- A tree whose numbers, links and ranges fit together, and fit the document it comes from. -/
structure WellFormed (d : Document) (t : Tree) : Prop where
  /-- number 0 is the whole document -/
  root : ∃ e, t.get? 0 = some e ∧ e.node = d.program ∧ e.range = ⟨0, d.text.size⟩ ∧ e.parent = none
  /-- everything else has a parent, and its number is smaller -/
  parent : ∀ id < t.size, id ≠ 0 → ∃ p < id, t.parent? id = some p
  /-- the children of a construct are those with this parent, once each and in order -/
  children : ∀ p, t.children p = (List.range t.size).filter fun c => t.parent? c = some p
  /-- a construct and all that is below it have the numbers of one block -/
  block : ∀ id < t.size, ∃ n, ∀ j, (j = id ∨ t.Under j id) ↔ id ≤ j ∧ j < id + n
  /-- the ancestors lead from parent to parent up to the root -/
  ancestors : ∀ id < t.size, (id :: t.ancestors id).IsChain t.IsChildOf ∧
    (id :: t.ancestors id).getLast? = some 0
  /-- ranges lie in the text, and selections are the positions of their ends -/
  ranges : ∀ id e, t.get? id = some e →
    e.range.start ≤ e.range.stop ∧ e.range.stop ≤ d.text.size ∧
      e.selection.start = d.text.position e.range.start ∧
      e.selection.stop = d.text.position e.range.stop

/-- **The tree of a document is well formed**, whatever constructs the document is made of and
whatever byte ranges they claim to have. -/
theorem ofDocument_wellFormed (d : Document) : WellFormed d (ofDocument d) where
  root := ⟨_, Document.Placed.root.get?, rfl, rfl, rfl⟩
  parent id hlt hid := by
    obtain ⟨p, hlink⟩ := exists_isChildOf hlt hid
    exact ⟨p, hlink.lt, hlink⟩
  children p := children_eq_filter d p
  block id hlt := by
    obtain ⟨e, he⟩ : ∃ e, (ofDocument d).get? id = some e := ⟨_, List.getElem?_eq_getElem hlt⟩
    refine ⟨(whole e.node).size, fun j => ?_⟩
    rw [← reflTransGen_iff he, Relation.reflTransGen_iff_eq_or_transGen, eq_comm]
    rfl
  ancestors _ hlt := isChain_ancestors hlt
  ranges id e he := by
    obtain ⟨hle, hsize⟩ := range_ordered he
    rw [selection_eq he, d.text.selection_of_le hle]
    exact ⟨hle, hsize, rfl, rfl⟩

end Tree

end Retouch
