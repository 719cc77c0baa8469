import Mathlib.Data.List.Sort
import Retouch.Proofs.Coordinates
import Retouch.Proofs.Spans

/-!
# Constructs around a selection

Constructs are found by their positions, in one pass over the whole list, and sorted by the lengths
of their byte ranges. That this is the order from the inside to the outside follows from how the
ranges nest; of two constructs with one range the inner one has the larger number.

- `Tree.containing_eq_insertionSort`: the sorting is an insertion sort by a total order.
- `Tree.Nested.holds_of_under`: what is around a construct is around every selection in it.
- `Tree.Nested.not_isInner_of_under`: nothing comes before what stands below it.
- `Tree.Cut.innermost?_selection`: what a search finds is found again where it is selected itself.
- `Tree.containing_inside_out`: the list of constructs around a selection, and the search in it.
-/

namespace Retouch.Tree

/-! ## The order -/

theorem length_of_get? {t : Tree} {id : Nat} {e : Entry} (h : t.get? id = some e) :
    t.length id = e.range.length := by
  rw [length, h]

theorem isInner_iff {t : Tree} {a b : Nat} :
    t.isInner a b = true ↔ t.length a < t.length b ∨ t.length a = t.length b ∧ b ≤ a := by
  simp [isInner]

instance (t : Tree) : Std.Total fun a b => t.isInner a b = true where
  total a b := by
    rw [isInner_iff, isInner_iff]
    omega

instance (t : Tree) : IsTrans Nat fun a b => t.isInner a b = true where
  trans a b c := by
    rw [isInner_iff, isInner_iff, isInner_iff]
    omega

theorem insertInner_eq_orderedInsert (t : Tree) (id : Nat) (ids : List Nat) :
    t.insertInner id ids = ids.orderedInsert (fun a b => t.isInner a b = true) id := by
  induction ids with
  | nil => rfl
  | cons other rest ih => rw [insertInner, List.orderedInsert_cons, ih]

/-- The constructs around a selection, sorted. -/
theorem containing_eq_insertionSort (t : Tree) (s : Selection) :
    t.containing s = ((List.range t.size).filter (t.holds s)).insertionSort
      fun a b => t.isInner a b = true := by
  rw [containing, List.insertionSort]
  congr 1
  funext id ids
  exact insertInner_eq_orderedInsert t id ids

section Containing

variable {t : Tree} {s : Selection} {id : Nat}

theorem holds_iff :
    t.holds s id = true ↔ ∃ e, t.get? id = some e ∧ s.isInside e.selection = true := by
  unfold holds
  cases t.get? id with
  | none => simp
  | some e => simp

theorem mem_containing : id ∈ t.containing s ↔ t.holds s id = true := by
  rw [containing_eq_insertionSort, List.mem_insertionSort, List.mem_filter, List.mem_range]
  refine ⟨And.right, fun h => ⟨?_, h⟩⟩
  obtain ⟨e, he, -⟩ := (holds_iff).mp h
  exact (List.getElem?_eq_some_iff.mp he).1

theorem nodup_containing : (t.containing s).Nodup := by
  rw [containing_eq_insertionSort, (List.perm_insertionSort _ _).nodup_iff]
  exact List.nodup_range.filter _

theorem pairwise_containing : (t.containing s).Pairwise fun a b => t.isInner a b = true := by
  rw [containing_eq_insertionSort]
  exact List.pairwise_insertionSort _ _

theorem isInner_of_split {earlier later : List Nat}
    (hsplit : t.containing s = earlier ++ id :: later) :
    (∀ x ∈ earlier, t.isInner x id = true) ∧ ∀ x ∈ later, t.isInner id x = true := by
  have hpairwise := @pairwise_containing t s
  rw [hsplit, List.pairwise_append] at hpairwise
  exact ⟨fun x hx => hpairwise.2.2 x hx id List.mem_cons_self,
    (List.pairwise_cons.mp hpairwise.2.1).1⟩

end Containing

/-! ## From the inside to the outside -/

variable {d : Document} {s : Selection} {id a : Nat}

/-- The selection of a construct lies in that of every construct around it. -/
theorem Nested.selection_isInside (hnested : (ofDocument d).Nested)
    (h : (ofDocument d).Under id a) {e outer : Entry} (he : (ofDocument d).get? id = some e)
    (houter : (ofDocument d).get? a = some outer) :
    e.selection.isInside outer.selection = true := by
  obtain ⟨hstart, hstop⟩ := hnested.isInside_of_under h he houter
  rw [Selection.isInside_iff, selection_eq he, selection_eq houter,
    d.text.selection_of_le (range_ordered he).1, d.text.selection_of_le (range_ordered houter).1]
  exact ⟨d.text.position_mono hstart, d.text.position_mono hstop⟩

/-- What is around a construct is around every selection in it. -/
theorem Nested.holds_of_under (hnested : (ofDocument d).Nested)
    (h : (ofDocument d).Under id a) (hid : (ofDocument d).holds s id = true) :
    (ofDocument d).holds s a = true := by
  obtain ⟨e, he, hs⟩ := (holds_iff).mp hid
  obtain ⟨outer, houter⟩ := h.exists_get?
  refine (holds_iff).mpr ⟨outer, houter, ?_⟩
  have hselection := hnested.selection_isInside h he houter
  rw [Selection.isInside_iff] at hs hselection ⊢
  exact ⟨Position.le_trans hselection.1 hs.1, Position.le_trans hs.2 hselection.2⟩

/-- Nothing comes before what stands below it: it is no shorter, and its number is smaller. -/
theorem Nested.not_isInner_of_under (hnested : (ofDocument d).Nested)
    (h : (ofDocument d).Under id a) (hid : (ofDocument d).holds s id = true) :
    ¬ (ofDocument d).isInner a id = true := by
  obtain ⟨e, he, -⟩ := (holds_iff).mp hid
  obtain ⟨outer, houter⟩ := h.exists_get?
  obtain ⟨hstart, hstop⟩ := hnested.isInside_of_under h he houter
  have hordered := (range_ordered he).1
  have hlt := h.lt
  rw [isInner_iff, length, length, he, houter]
  simp only [Span.length]
  omega

/-- The list goes from the inside to the outside: all that is around a construct comes behind it. -/
theorem Nested.ancestors_behind (hnested : (ofDocument d).Nested) {earlier later : List Nat}
    (hsplit : (ofDocument d).containing s = earlier ++ id :: later)
    (ha : a ∈ (ofDocument d).ancestors id) : a ∈ later := by
  have hunder := mem_ancestors_iff.mp ha
  have hid : (ofDocument d).holds s id = true := (mem_containing).mp (by simp [hsplit])
  have hmem : a ∈ earlier ++ id :: later :=
    hsplit ▸ (mem_containing).mpr (hnested.holds_of_under hunder hid)
  rcases List.mem_append.mp hmem with hearlier | hlater
  · exact absurd ((isInner_of_split hsplit).1 a hearlier)
      (hnested.not_isInner_of_under hunder hid)
  · rcases List.mem_cons.mp hlater with rfl | hlater
    · exact absurd hunder.lt (Nat.lt_irrefl a)
    · exact hlater

/-! ## Searching -/

/-- What a search finds is around the selection, passes the test, and nothing below it does both. -/
theorem Nested.innermost?_eq_some (hnested : (ofDocument d).Nested) {test : Nat → Bool}
    (h : (ofDocument d).innermost? s test = some id) :
    id ∈ (ofDocument d).containing s ∧ test id = true ∧
      ∀ j, (ofDocument d).Under j id → ¬ (j ∈ (ofDocument d).containing s ∧ test j = true) := by
  obtain ⟨htest, earlier, later, hsplit, hearlier⟩ := List.find?_eq_some_iff_append.mp h
  refine ⟨by simp [hsplit], htest, ?_⟩
  rintro j hunder ⟨hj, htestj⟩
  rw [hsplit, List.mem_append, List.mem_cons] at hj
  rcases hj with hj | rfl | hj
  · -- the search has passed `j` by
    have hfails := hearlier j hj
    simp [htestj] at hfails
  · exact Nat.lt_irrefl j hunder.lt
  · have hholds : (ofDocument d).holds s j = true := (mem_containing).mp (by simp [hsplit, hj])
    exact hnested.not_isInner_of_under hunder hholds ((isInner_of_split hsplit).2 j hj)

theorem isSome_innermost?_iff {t : Tree} {test : Nat → Bool} :
    (t.innermost? s test).isSome = true ↔ ∃ id ∈ t.containing s, test id = true := by
  rw [innermost?, List.find?_isSome]

/-- What a search finds comes before everything else that passes the test. -/
theorem isInner_of_innermost? {t : Tree} {test : Nat → Bool} (h : t.innermost? s test = some id)
    (ha : a ∈ t.containing s) (htest : test a = true) : a = id ∨ t.isInner id a = true := by
  obtain ⟨-, earlier, later, hsplit, hearlier⟩ := List.find?_eq_some_iff_append.mp h
  rw [hsplit, List.mem_append, List.mem_cons] at ha
  rcases ha with ha | rfl | ha
  · have hfails := hearlier a ha
    simp [htest] at hfails
  · exact .inl rfl
  · exact .inr ((isInner_of_split hsplit).2 a ha)

/-! ## Selecting what was found -/

variable {e f : Entry}

theorem Cut.hasRange (hcut : (ofDocument d).Cut) (he : (ofDocument d).get? id = some e) :
    d.text.HasRange e.range := by
  obtain ⟨hstart, hstop⟩ := Text.cutsAt_iff.mp (hcut e (mem_entries_of_get? he))
  exact ⟨(range_ordered he).1, hstart, hstop⟩

/-- A construct around the whole of another one has the range of that one, unless it is longer. -/
theorem Cut.range_eq (hcut : (ofDocument d).Cut) (he : (ofDocument d).get? id = some e)
    (hf : (ofDocument d).get? a = some f) (hinside : e.selection.isInside f.selection = true)
    (hlength : (ofDocument d).length a ≤ (ofDocument d).length id) : f.range = e.range := by
  have hle := (hcut.hasRange he).start_le_stop
  rw [selection_eq he, selection_eq hf,
    Text.isInside_selection_iff (hcut.hasRange he) (hcut.hasRange hf)] at hinside
  rw [length_of_get? he, length_of_get? hf, Span.length, Span.length] at hlength
  have hends : f.range.start = e.range.start ∧ f.range.stop = e.range.stop := by omega
  calc f.range
    _ = ⟨f.range.start, f.range.stop⟩ := rfl
    _ = ⟨e.range.start, e.range.stop⟩ := by rw [hends.1, hends.2]
    _ = e.range := rfl

/-- If exactly a construct is selected that passes the test, then what is found has its range, and a
number that is no smaller. -/
theorem Cut.range_of_innermost? (hcut : (ofDocument d).Cut) {test : Nat → Bool}
    (he : (ofDocument d).get? id = some e) (htest : test id = true)
    (h : (ofDocument d).innermost? e.selection test = some a)
    (hf : (ofDocument d).get? a = some f) : f.range = e.range ∧ id ≤ a := by
  have hself : e.selection.isInside e.selection = true :=
    Selection.isInside_iff.mpr ⟨Position.le_refl _, Position.le_refl _⟩
  have hid : id ∈ (ofDocument d).containing e.selection :=
    (mem_containing).mpr ((holds_iff).mpr ⟨e, he, hself⟩)
  obtain ⟨f', hf', hinside⟩ := (holds_iff).mp ((mem_containing).mp (List.mem_of_find?_eq_some h))
  obtain rfl : f = f' := Option.some.inj (hf.symm.trans hf')
  rcases isInner_of_innermost? h hid htest with rfl | hinner
  · obtain rfl : e = f := Option.some.inj (he.symm.trans hf)
    exact ⟨rfl, Nat.le_refl _⟩
  · rw [isInner_iff] at hinner
    have hrange := hcut.range_eq he hf hinside (by omega)
    have hlength : (ofDocument d).length a = (ofDocument d).length id := by
      rw [length_of_get? hf, length_of_get? he, hrange]
    exact ⟨hrange, by omega⟩

/-- What a search finds is found again if exactly that is selected. -/
theorem Cut.innermost?_selection (hcut : (ofDocument d).Cut) {test : Nat → Bool}
    (h : (ofDocument d).innermost? s test = some id) (he : (ofDocument d).get? id = some e) :
    (ofDocument d).innermost? e.selection test = some id := by
  have htest : test id = true := List.find?_some h
  have hself : e.selection.isInside e.selection = true :=
    Selection.isInside_iff.mpr ⟨Position.le_refl _, Position.le_refl _⟩
  obtain ⟨a, ha⟩ := Option.isSome_iff_exists.mp (isSome_innermost?_iff.mpr
    ⟨id, (mem_containing).mpr ((holds_iff).mpr ⟨e, he, hself⟩), htest⟩)
  obtain ⟨f, hf, -⟩ := (holds_iff).mp ((mem_containing).mp (List.mem_of_find?_eq_some ha))
  obtain ⟨hrange, hle⟩ := hcut.range_of_innermost? he htest ha hf
  -- a construct of the same range is around `s` as well, so the first search preferred `id` to it
  have hselection : f.selection = e.selection := by
    rw [selection_eq hf, selection_eq he, hrange]
  obtain ⟨e', he', hs⟩ := (holds_iff).mp ((mem_containing).mp (List.mem_of_find?_eq_some h))
  obtain rfl : e = e' := Option.some.inj (he.symm.trans he')
  have hmem : a ∈ (ofDocument d).containing s :=
    (mem_containing).mpr ((holds_iff).mpr ⟨f, hf, by rw [hselection]; exact hs⟩)
  rcases isInner_of_innermost? h hmem (List.find?_some ha) with rfl | hinner
  · exact ha
  · rw [isInner_iff, length_of_get? he, length_of_get? hf, hrange] at hinner
    obtain rfl : a = id := by omega
    exact ha

/-- There is nothing at a position exactly if it lies in the whole document only. -/
theorem at?_eq_none_iff {t : Tree} {p : Position} :
    t.at? p = none ↔ ∀ id e, t.get? id = some e → e.selection.contains p = true → id = 0 := by
  have hcursor : ∀ e : Entry, (Selection.cursor p).isInside e.selection = e.selection.contains p :=
    fun e => Bool.and_self _
  rw [at?, List.find?_eq_none]
  constructor
  · intro h id e he hp
    have hmem : id ∈ t.containing (Selection.cursor p) :=
      (mem_containing).mpr ((holds_iff).mpr ⟨e, he, by rw [hcursor, hp]⟩)
    simpa using h id hmem
  · intro h id hid
    obtain ⟨e, he, hp⟩ := (holds_iff).mp ((mem_containing).mp hid)
    simpa using h id e he (hcursor e ▸ hp)

/-- **Matching goes from the inside to the outside.** Let what a construct holds lie in its range.
Then the constructs around a selection are listed once each, with all that is around one of them
behind it; a search finds something exactly if some construct in the list passes the test, and what
it finds is innermost; and nothing is found at a position exactly if only the whole document is
there. -/
theorem containing_inside_out {d : Document} (hnested : (ofDocument d).Nested) (s : Selection) :
    let t := ofDocument d
    (∀ id, id ∈ t.containing s ↔
      ∃ e, t.get? id = some e ∧ e.selection.start ≤ s.start ∧ s.stop ≤ e.selection.stop) ∧
    (t.containing s).Nodup ∧
    (∀ id p, t.parent? id = some p → id ∈ t.containing s → p ∈ t.containing s) ∧
    (∀ earlier id later, t.containing s = earlier ++ id :: later →
      ∀ a ∈ t.ancestors id, a ∈ later) ∧
    (∀ test : Nat → Bool,
      ((t.innermost? s test).isSome = true ↔ ∃ id ∈ t.containing s, test id = true) ∧
      ∀ id, t.innermost? s test = some id → id ∈ t.containing s ∧ test id = true ∧
        ∀ j, t.Under j id → ¬ (j ∈ t.containing s ∧ test j = true)) ∧
    ∀ p, t.at? p = none ↔
      ∀ id e, t.get? id = some e → e.selection.contains p = true → id = 0 := by
  intro t
  refine ⟨fun id => ?_, nodup_containing, fun id p hp hid => ?_, fun earlier id later => ?_,
    fun test => ⟨isSome_innermost?_iff, fun id => hnested.innermost?_eq_some⟩,
    fun p => at?_eq_none_iff⟩
  · simp only [mem_containing, holds_iff, Selection.isInside_iff]
  · exact (mem_containing).mpr (hnested.holds_of_under (.single hp) ((mem_containing).mp hid))
  · exact fun hsplit a ha => hnested.ancestors_behind hsplit ha

/-- A cursor in front of the argument of a call. The declaration and its function have one range,
and still the function comes first; the innermost statement is the call's own, and not the
declaration around it. -/
theorem containing_inside_out_call :
    ∃ d, Document.parse {} "function f() \x7b g(1); \x7d".toList = .ok d ∧
      (ofDocument d).Nested ∧
      (ofDocument d).containing (.cursor ⟨0, 17⟩) = [7, 5, 4, 3, 2, 1, 0] ∧
      (ofDocument d).innermost? (.cursor ⟨0, 17⟩)
        (fun id => ((ofDocument d).form? id).any Syntax.Form.isStatement) = some 4 ∧
      ∀ j, (ofDocument d).Under j 4 → ¬ (j ∈ (ofDocument d).containing (.cursor ⟨0, 17⟩) ∧
        ((ofDocument d).form? j).any Syntax.Form.isStatement = true) := by
  obtain ⟨d, hd, hnested, hlist, hfound⟩ :
      ∃ d, Document.parse {} "function f() \x7b g(1); \x7d".toList = .ok d ∧
        (ofDocument d).Nested ∧
        (ofDocument d).containing (.cursor ⟨0, 17⟩) = [7, 5, 4, 3, 2, 1, 0] ∧
        (ofDocument d).innermost? (.cursor ⟨0, 17⟩)
          (fun id => ((ofDocument d).form? id).any Syntax.Form.isStatement) = some 4 :=
    Document.exists_parse (by decide +kernel)
  have hsearch := (containing_inside_out hnested (.cursor ⟨0, 17⟩)).2.2.2.2.1
    fun id => ((ofDocument d).form? id).any Syntax.Form.isStatement
  exact ⟨d, hd, hnested, hlist, hfound, (hsearch.2 4 hfound).2.2⟩

end Retouch.Tree
