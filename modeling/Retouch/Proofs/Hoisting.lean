import Retouch.Proofs.References

/-!
# How far an expression is hoisted

An extracted expression is evaluated where its declaration goes. Here that place is told without
the walk that finds it: the declaration stays in the function and in the loop of the expression.

- `Tree.isFrame`: the constructs whose content runs at a time of its own, or again and again.
- `Tree.isListed`: the statements before which another one can be put.
- `Tree.Meets`: such a statement around a construct, with no frame on the way to it, and
  `Tree.MeetsFirst` the innermost one. `reaches_iff` and `meetsFirst_iff` say what one step
  outwards does.
- `Variable.hoists_within_frame`: the declaration goes before the statement that is met
  first, and its frame is that of the expression.
-/

namespace Retouch

open Syntax (Node Form ExprForm)

/-- Functions, arrows, members of classes and loops. -/
def Syntax.Form.isFrame (form : Form) : Bool :=
  form.isFunctionBoundary || form.isLoop

namespace Tree

/-- Whether a construct is a function, an arrow, a member of a class or a loop. -/
def isFrame (t : Tree) (id : Nat) : Bool :=
  (t.form? id).any Form.isFrame

/-- Whether a construct is a statement, other than a loop, directly in a list of statements. -/
def isListed (t : Tree) (id : Nat) : Bool :=
  (t.form? id).any (fun form => form.isStatement && !form.isLoop) &&
    ((t.parent? id).bind t.form?).any Form.isStatementList

/-- A construct around another one, with no frame between the two. -/
structure Reaches (t : Tree) (id a : Nat) : Prop where
  under : t.Under id a
  clear : ∀ b, t.Under id b → t.Under b a → t.isFrame b = false

/-- A listed statement that is reached before any frame. -/
structure Meets (t : Tree) (id statement : Nat) : Prop extends t.Reaches id statement where
  listed : t.isListed statement = true

/-- The innermost of these statements. -/
structure MeetsFirst (t : Tree) (id statement : Nat) : Prop where
  meets : t.Meets id statement
  first : ∀ other, t.Meets id other → other = statement ∨ t.Under statement other

/-- The innermost function, arrow, member of a class or loop around a construct. -/
structure FrameOf (t : Tree) (id frame : Nat) : Prop extends t.Reaches id frame where
  isFrame : t.isFrame frame = true

theorem form?_of_get? {t : Tree} {id : Nat} {e : Entry} (h : t.get? id = some e) :
    t.form? id = some e.node.form := by
  rw [form?, h, Option.map_some]

/-- Whether a construct is listed, told by its form and that of its parent. -/
theorem isListed_eq {t : Tree} {id p : Nat} {e outer : Entry} (hlink : t.IsChildOf id p)
    (he : t.get? id = some e) (houter : t.get? p = some outer) :
    t.isListed id = (e.node.form.isStatement && !e.node.form.isLoop &&
      outer.node.form.isStatementList) := by
  rw [isListed, form?_of_get? he, show t.parent? id = some p from hlink, Option.bind_some,
    form?_of_get? houter, Option.any_some, Option.any_some]

/-- No frame is a statement that other ones can be put before. -/
theorem isFrame_eq_false_of_isListed {t : Tree} {id : Nat} (h : t.isListed id = true) :
    t.isFrame id = false := by
  rw [isListed, Bool.and_eq_true] at h
  rw [isFrame]
  cases hform : t.form? id with
  | none => rfl
  | some form =>
    rw [hform, Option.any_some, Bool.and_eq_true, Bool.not_eq_true'] at h
    obtain ⟨⟨hstatement, hloop⟩, -⟩ := h
    rw [Option.any_some, Form.isFrame, hloop, Bool.or_false]
    -- statements, declarations and items of modules are no boundaries of functions
    cases form <;> first | rfl | cases hstatement

/-- A listed statement is not the whole document. -/
theorem exists_isChildOf_of_isListed {t : Tree} {id : Nat} (h : t.isListed id = true) :
    ∃ p, t.IsChildOf id p := by
  rw [isListed, Bool.and_eq_true, Option.any_eq_true, Option.any_eq_true] at h
  obtain ⟨-, outer, houter, -⟩ := h
  obtain ⟨p, hlink, -⟩ := Option.bind_eq_some_iff.mp houter
  exact ⟨p, hlink⟩

/-! ## Constructs around a construct -/

variable {d : Document} {id p a b : Nat}

/-- What is around a construct is its parent, or around its parent. -/
theorem under_iff (hlink : (ofDocument d).IsChildOf id p) :
    (ofDocument d).Under id a ↔ a = p ∨ (ofDocument d).Under p a := by
  rw [← mem_ancestors_iff, ancestors_of_parent hlink, List.mem_cons, mem_ancestors_iff]

theorem Under.exists_isChildOf (h : (ofDocument d).Under id a) :
    ∃ p, (ofDocument d).IsChildOf id p := by
  obtain ⟨p, hlink, -⟩ := Relation.TransGen.head'_iff.mp h
  exact ⟨p, hlink⟩

theorem not_under_self : ¬ (ofDocument d).Under a a :=
  fun h => Nat.lt_irrefl a h.lt

/-- Nothing comes between a construct and its parent. -/
theorem not_under_of_isChildOf (hlink : (ofDocument d).IsChildOf id p)
    (ha : (ofDocument d).Under id a) : ¬ (ofDocument d).Under a p := by
  intro hap
  rcases (under_iff hlink).mp ha with rfl | hpa
  · exact not_under_self hap
  · exact not_under_self (hap.trans hpa)

/-- Of two constructs around one construct, one is around the other. -/
theorem Under.trichotomy (ha : (ofDocument d).Under id a) (hb : (ofDocument d).Under id b) :
    a = b ∨ (ofDocument d).Under a b ∨ (ofDocument d).Under b a := by
  have hunique : Relator.RightUnique (ofDocument d).IsChildOf := fun c p q hp hq =>
    Option.some.inj (hp.symm.trans hq)
  rcases Relation.ReflTransGen.total_of_right_unique hunique ha.to_reflTransGen
      hb.to_reflTransGen with h | h
  · rcases Relation.reflTransGen_iff_eq_or_transGen.mp h with rfl | h
    · exact .inl rfl
    · exact .inr (.inl h)
  · rcases Relation.reflTransGen_iff_eq_or_transGen.mp h with rfl | h
    · exact .inl rfl
    · exact .inr (.inr h)

/-! ## One step outwards -/

variable {s : Nat}

/-- What is reached is the parent, or is reached from there if the parent is no frame. -/
theorem reaches_iff (hlink : (ofDocument d).IsChildOf id p) :
    (ofDocument d).Reaches id a ↔
      a = p ∨ ((ofDocument d).isFrame p = false ∧ (ofDocument d).Reaches p a) := by
  constructor
  · intro h
    rcases (under_iff hlink).mp h.under with rfl | hunder
    · exact .inl rfl
    · exact .inr ⟨h.clear p (.single hlink) hunder, hunder, fun b hb => h.clear b (hb.head hlink)⟩
  · rintro (rfl | ⟨hframe, h⟩)
    · refine ⟨.single hlink, fun b hb hba => ?_⟩
      exact absurd hba (not_under_of_isChildOf hlink hb)
    · refine ⟨h.under.head hlink, fun b hb hba => ?_⟩
      rcases (under_iff hlink).mp hb with rfl | hpb
      · exact hframe
      · exact h.clear b hpb hba

theorem meets_iff (hlink : (ofDocument d).IsChildOf id p) :
    (ofDocument d).Meets id s ↔
      (s = p ∧ (ofDocument d).isListed p = true) ∨
        ((ofDocument d).isFrame p = false ∧ (ofDocument d).Meets p s) := by
  constructor
  · rintro ⟨hreaches, hlisted⟩
    rcases (reaches_iff hlink).mp hreaches with rfl | ⟨hframe, h⟩
    · exact .inl ⟨rfl, hlisted⟩
    · exact .inr ⟨hframe, h, hlisted⟩
  · rintro (⟨rfl, hlisted⟩ | ⟨hframe, h⟩)
    · exact ⟨(reaches_iff hlink).mpr (.inl rfl), hlisted⟩
    · exact ⟨(reaches_iff hlink).mpr (.inr ⟨hframe, h.toReaches⟩), h.listed⟩

/-- A listed parent is met first; through any other parent that is no frame, what the parent meets
first is. -/
theorem meetsFirst_iff (hlink : (ofDocument d).IsChildOf id p) :
    (ofDocument d).MeetsFirst id s ↔
      (s = p ∧ (ofDocument d).isListed p = true) ∨
        ((ofDocument d).isListed p = false ∧ (ofDocument d).isFrame p = false ∧
          (ofDocument d).MeetsFirst p s) := by
  cases hlisted : (ofDocument d).isListed p with
  | true =>
    -- whatever else is met is around the parent
    have hparent : (ofDocument d).Meets id p := (meets_iff hlink).mpr (.inl ⟨rfl, hlisted⟩)
    simp only [and_true, Bool.true_eq_false, false_and, or_false]
    constructor
    · intro h
      rcases h.first p hparent with heq | hunder
      · exact heq.symm
      · rcases (under_iff hlink).mp h.meets.under with heq | hunder'
        · exact heq
        · exact absurd (hunder.trans hunder') not_under_self
    · rintro rfl
      exact ⟨hparent, fun other h => (under_iff hlink).mp h.under⟩
  | false =>
    have hmeets (other : Nat) : (ofDocument d).Meets id other ↔
        (ofDocument d).isFrame p = false ∧ (ofDocument d).Meets p other := by
      rw [meets_iff hlink, hlisted]
      simp only [Bool.false_eq_true, and_false, false_or]
    simp only [Bool.false_eq_true, and_false, false_or, true_and]
    constructor
    · rintro ⟨h, hfirst⟩
      obtain ⟨hframe, hp⟩ := (hmeets s).mp h
      exact ⟨hframe, hp, fun other ho => hfirst other ((hmeets other).mpr ⟨hframe, ho⟩)⟩
    · rintro ⟨hframe, h, hfirst⟩
      exact ⟨(hmeets s).mpr ⟨hframe, h⟩, fun other ho => hfirst other ((hmeets other).mp ho).2⟩

/-! ## The whole way -/

/-- The frame of a construct is the first one among its ancestors. -/
theorem frameOf_iff_find? {f : Nat} :
    (ofDocument d).FrameOf id f ↔
      ((ofDocument d).ancestors id).find? (ofDocument d).isFrame = some f := by
  induction id using Nat.strong_induction_on with
  | _ id ih =>
    cases hparent : (ofDocument d).parent? id with
    | none =>
      rw [ancestors_of_root hparent]
      constructor
      · intro h
        obtain ⟨p, hlink⟩ := h.under.exists_isChildOf
        cases hparent.symm.trans hlink
      · intro h
        cases h
    | some p =>
      have hlink : (ofDocument d).IsChildOf id p := hparent
      rw [ancestors_of_parent hlink, List.find?_cons]
      cases hframe : (ofDocument d).isFrame p with
      | true =>
        -- nothing is reached through a frame, so it can only be the parent
        constructor
        · rintro ⟨hreaches, -⟩
          rcases (reaches_iff hlink).mp hreaches with rfl | ⟨hfalse, -⟩
          · rfl
          · cases hframe.symm.trans hfalse
        · rintro ⟨⟩
          exact ⟨(reaches_iff hlink).mpr (.inl rfl), hframe⟩
      | false =>
        rw [← ih p hlink.lt]
        constructor
        · rintro ⟨hreaches, hf⟩
          rcases (reaches_iff hlink).mp hreaches with rfl | ⟨-, h⟩
          · cases hframe.symm.trans hf
          · exact ⟨h, hf⟩
        · rintro ⟨h, hf⟩
          exact ⟨(reaches_iff hlink).mpr (.inr ⟨hframe, h⟩), hf⟩

instance (f : Nat) : Decidable ((ofDocument d).FrameOf id f) :=
  decidable_of_iff _ frameOf_iff_find?.symm

/-- If any statement is met, one is met first. -/
theorem Meets.exists_first (h : (ofDocument d).Meets id s) :
    ∃ first, (ofDocument d).MeetsFirst id first := by
  induction id using Nat.strong_induction_on with
  | _ id ih =>
    obtain ⟨p, hlink⟩ := h.under.exists_isChildOf
    by_cases hlisted : (ofDocument d).isListed p = true
    · exact ⟨p, (meetsFirst_iff hlink).mpr (.inl ⟨rfl, hlisted⟩)⟩
    · rcases (meets_iff hlink).mp h with ⟨-, habsurd⟩ | ⟨hframe, hp⟩
      · exact absurd habsurd hlisted
      · obtain ⟨first, hfirst⟩ := ih p hlink.lt hp
        exact ⟨first, (meetsFirst_iff hlink).mpr
          (.inr ⟨Bool.eq_false_iff.mpr hlisted, hframe, hfirst⟩)⟩

/-- No listed statement comes before the one that is met first. -/
theorem MeetsFirst.isListed_eq_false (h : (ofDocument d).MeetsFirst id s)
    (ha : (ofDocument d).Under id a) (has : (ofDocument d).Under a s) :
    (ofDocument d).isListed a = false := by
  rw [Bool.eq_false_iff]
  intro hlisted
  have hmeets : (ofDocument d).Meets id a :=
    ⟨⟨ha, fun b hb hba => h.meets.clear b hb (hba.trans has)⟩, hlisted⟩
  rcases h.first a hmeets with rfl | hsa
  · exact not_under_self has
  · exact not_under_self (has.trans hsa)

/-- A statement that is met is in the frame of the construct. -/
theorem Meets.frameOf_iff (h : (ofDocument d).Meets id s) {f : Nat} :
    (ofDocument d).FrameOf id f ↔ (ofDocument d).FrameOf s f := by
  have hstatement := isFrame_eq_false_of_isListed h.listed
  constructor
  · rintro ⟨⟨hunder, hclear⟩, hframe⟩
    refine ⟨⟨?_, fun a ha => hclear a (h.under.trans ha)⟩, hframe⟩
    -- the frame is neither the statement nor on the way to it
    rcases hunder.trichotomy h.under with rfl | hfs | hsf
    · exact absurd hframe (Bool.eq_false_iff.mp hstatement)
    · exact absurd hframe (Bool.eq_false_iff.mp (h.clear f hunder hfs))
    · exact hsf
  · rintro ⟨⟨hunder, hclear⟩, hframe⟩
    refine ⟨⟨h.under.trans hunder, fun a ha haf => ?_⟩, hframe⟩
    rcases ha.trichotomy h.under with rfl | has | hsa
    · exact hstatement
    · exact h.clear a ha has
    · exact hclear a hsa haf

end Tree

/-! ## The walk -/

namespace Variable

open Retouch.Tree

variable {d : Document} {id p s : Nat}

/-- A listed statement is where the walk ends. -/
theorem insertionStatement?_of_isListed (h : (ofDocument d).isListed id = true) :
    insertionStatement? (ofDocument d) id = some id := by
  rw [isListed, Bool.and_eq_true, Option.any_eq_true, Option.any_eq_true] at h
  obtain ⟨⟨inner, hinner, hstatement⟩, outer, houter, hlist⟩ := h
  obtain ⟨p, hlink, houter⟩ := Option.bind_eq_some_iff.mp houter
  rw [insertionStatement?, ancestors_of_parent hlink, insertionFrom]
  simp only [hinner, houter, hlist, (Bool.and_eq_true _ _ ▸ hstatement).1, Bool.and_self, if_true]

/-- Anywhere else but at a loop the walk goes on to the parent, unless that is a frame. -/
theorem insertionStatement?_of_parent (hlink : (ofDocument d).IsChildOf id p)
    (hlisted : (ofDocument d).isListed id = false)
    (hloop : ((ofDocument d).form? id).any Form.isLoop = false) :
    insertionStatement? (ofDocument d) id =
      if (ofDocument d).isFrame p = true then none else insertionStatement? (ofDocument d) p := by
  obtain ⟨e, outer, he, houter, -⟩ := hlink.exists_entries
  have hnone : (outer.node.form.isStatementList && e.node.form.isStatement) = false := by
    rw [form?_of_get? he, Option.any_some] at hloop
    rwa [isListed_eq hlink he houter, hloop, Bool.not_false, Bool.and_true,
      Bool.and_comm] at hlisted
  rw [insertionStatement?, ancestors_of_parent hlink, insertionFrom, isFrame]
  simp only [form?_of_get? he, form?_of_get? houter, hnone, Bool.false_eq_true, if_false,
    Option.any_some, Form.isFrame]
  rfl

/-- The walk finds the statement that is met first. -/
theorem insertionStatement?_eq_some_iff (hlisted : (ofDocument d).isListed id = false)
    (hloop : ((ofDocument d).form? id).any Form.isLoop = false) :
    insertionStatement? (ofDocument d) id = some s ↔ (ofDocument d).MeetsFirst id s := by
  induction id using Nat.strong_induction_on with
  | _ id ih =>
    cases hparent : (ofDocument d).parent? id with
    | none =>
      rw [insertionStatement?, ancestors_of_root hparent, insertionFrom]
      constructor
      · intro h
        cases h
      · intro h
        obtain ⟨p, hlink⟩ := h.meets.under.exists_isChildOf
        cases hparent.symm.trans hlink
    | some p =>
      have hlink : (ofDocument d).IsChildOf id p := hparent
      rw [insertionStatement?_of_parent hlink hlisted hloop, meetsFirst_iff hlink]
      by_cases hframe : (ofDocument d).isFrame p = true
      · -- a frame is not listed, so that neither side can hold
        have hp : (ofDocument d).isListed p ≠ true := fun h =>
          Bool.eq_false_iff.mp (isFrame_eq_false_of_isListed h) hframe
        simp [hframe, hp]
      · by_cases hp : (ofDocument d).isListed p = true
        · simp [hframe, hp, insertionStatement?_of_isListed hp, eq_comm]
        · have hploop : ((ofDocument d).form? p).any Form.isLoop = false := by
            rw [isFrame] at hframe
            cases hform : (ofDocument d).form? p with
            | none => rfl
            | some form =>
              rw [hform, Option.any_some, Form.isFrame, Bool.or_eq_true, not_or] at hframe
              exact Bool.eq_false_iff.mpr hframe.2
          simp only [Bool.eq_false_iff.mpr hframe, Bool.eq_false_iff.mpr hp, Bool.false_eq_true,
            if_false, and_false, false_or, true_and]
          exact ih p hlink.lt (Bool.eq_false_iff.mpr hp) hploop

/-- The walk from an expression finds the statement that is met first. -/
theorem insertionStatement?_of_expression {form : ExprForm}
    (h : (ofDocument d).form? id = some (.expr form)) :
    insertionStatement? (ofDocument d) id = some s ↔ (ofDocument d).MeetsFirst id s := by
  refine insertionStatement?_eq_some_iff ?_ ?_
  · rw [isListed, h]
    rfl
  · rw [h]
    rfl

/-- The statement that is found for a selection is the one that the expression meets first. -/
theorem meetsFirst_of_target? {selection : Selection} {target : Target}
    (h : target? (ofDocument d) selection = some target) :
    (ofDocument d).MeetsFirst target.expression target.statement := by
  obtain ⟨-, form, hform, -⟩ := isExtractable_of_target? h
  unfold target? at h
  split at h
  · cases h
  · obtain ⟨statement, hstatement, rfl⟩ := Option.map_eq_some_iff.mp h
    exact (insertionStatement?_of_expression hform).mp hstatement

/-- **An extracted expression stays in its function and in its loop.** In the tree of any document,
there is a statement before which an expression can be declared exactly if walking outwards meets a
listed statement before any function, arrow, member of a class or loop. It is then the innermost
one, it is around the expression, and the innermost function, arrow, member or loop around it is
the one around the expression. -/
theorem hoists_within_frame (d : Document) (id : Nat) (form : ExprForm)
    (h : (ofDocument d).form? id = some (.expr form)) :
    ((insertionStatement? (ofDocument d) id).isSome = true ↔
      ∃ statement, (ofDocument d).Meets id statement) ∧
    (∀ statement, insertionStatement? (ofDocument d) id = some statement ↔
      (ofDocument d).Meets id statement ∧
        ∀ other, (ofDocument d).Meets id other →
          other = statement ∨ (ofDocument d).Under statement other) ∧
    ∀ statement, insertionStatement? (ofDocument d) id = some statement →
      (ofDocument d).Under id statement ∧
        ∀ frame, (ofDocument d).FrameOf id frame ↔ (ofDocument d).FrameOf statement frame := by
  refine ⟨?_, fun statement => ?_, fun statement hstatement => ?_⟩
  · rw [Option.isSome_iff_exists]
    constructor
    · rintro ⟨statement, hstatement⟩
      exact ⟨statement, ((insertionStatement?_of_expression h).mp hstatement).meets⟩
    · rintro ⟨statement, hmeets⟩
      obtain ⟨first, hfirst⟩ := hmeets.exists_first
      exact ⟨first, (insertionStatement?_of_expression h).mpr hfirst⟩
  · rw [insertionStatement?_of_expression h]
    exact ⟨fun hfirst => ⟨hfirst.meets, hfirst.first⟩, fun ⟨hmeets, hfirst⟩ => ⟨hmeets, hfirst⟩⟩
  · have hmeets := ((insertionStatement?_of_expression h).mp hstatement).meets
    exact ⟨hmeets.under, fun frame => hmeets.frameOf_iff⟩

/-- An argument of a call in the body of a loop. It is declared before the statement of the call,
although the `if` around that statement is listed too, and both are in the loop. -/
theorem hoists_within_frame_loop :
    ∃ d, Document.parse {} "for (const x of xs) \x7b\n  if (x) \x7b f(x + 1); \x7d\n\x7d".toList
        = .ok d ∧
      (ofDocument d).form? 11 = some (.expr (.binary .add)) ∧
      insertionStatement? (ofDocument d) 11 = some 8 ∧
      (ofDocument d).Meets 11 8 ∧ (ofDocument d).FrameOf 8 1 ∧ (ofDocument d).FrameOf 11 1 := by
  obtain ⟨d, hd, hform, hstatement, hframe⟩ :
      ∃ d, Document.parse {} "for (const x of xs) \x7b\n  if (x) \x7b f(x + 1); \x7d\n\x7d".toList
          = .ok d ∧
        (ofDocument d).form? 11 = some (.expr (.binary .add)) ∧
        insertionStatement? (ofDocument d) 11 = some 8 ∧ (ofDocument d).FrameOf 8 1 :=
    Document.exists_parse (by decide +kernel)
  obtain ⟨-, hmeets, hhoists⟩ := hoists_within_frame d 11 (.binary .add) hform
  exact ⟨d, hd, hform, hstatement, ((hmeets 8).mp hstatement).1, hframe,
    ((hhoists 8 hstatement).2 1).mpr hframe⟩

end Variable

end Retouch
