import Retouch.Proofs.Edits
import Retouch.Proofs.Parsing.Module

/-!
# Slices that cut no character

Every range of a syntax tree ends at cutting places of the text that was parsed. Without a
byte-order mark that text is the text of the document, so refactorings can take their slices. Behind
a mark each construct stands three bytes after its range, and a slice may go through a character.

- `Node.Holds`: a construct somewhere in a tree; `Tree.holds_of_get?`: entries are such constructs.
- `Document.IsSound`: a document whose tree keeps to its text, as that of every text without a mark
  does.
- `KeepsCharacters`: an outcome that does not come from a slice through a character. It passes
  through binds and loops.
- `Refactoring.transform_keepsCharacters`: no refactoring of a sound document cuts a character.
- `plan_never_cuts`: where the texts of constructs stand, and planning without a mark.
- `plan_cuts_behind_mark`: planning behind a mark.
-/

namespace Retouch

open Syntax (Node Form Separates)

/-! ## Constructs in a tree -/

/-- A construct somewhere in a tree. -/
inductive Syntax.Node.Holds : Node → Node → Prop where
  | root (n : Node) : n.Holds n
  | part {n m k : Node} (hpart : m ∈ n.parts) (hbelow : m.Holds k) : n.Holds k

namespace Syntax.Node

theorem Holds.trans {n m k : Node} (hnm : n.Holds m) (hmk : m.Holds k) : n.Holds k := by
  induction hnm with
  | root => exact hmk
  | part hpart _ ih => exact .part hpart (ih hmk)

/-- A range that ends before it starts is taken for an empty one. -/
theorem Sound.isBoundary_max {text : Text} {n : Node} (h : n.Sound text) :
    text.isBoundary (max n.span.start n.span.stop) = true := by
  rcases Nat.le_total n.span.start n.span.stop with hle | hle
  · rw [Nat.max_eq_right hle]
    exact h.stop
  · rw [Nat.max_eq_left hle]
    exact h.start

theorem Sound.of_holds {text : Text} {n m : Node} (hn : n.Sound text) (h : n.Holds m) :
    m.Sound text := by
  induction h with
  | root => exact hn
  | part hpart _ ih => exact ih (hn.parts _ hpart)

end Syntax.Node

namespace Outline

mutual

/-- The constructs of an outline are constructs of the tree. -/
theorem holds_of_mem_ofNode : ∀ (n : Node), ∀ o ∈ ofNode n, n.Holds o.node
  | .mk form span parts, o, ho => by
    rw [ofNode] at ho
    split at ho
    · rw [List.mem_singleton.mp ho]
      exact .root _
    · obtain ⟨part, hpart, hholds⟩ := holds_of_mem_ofParts form 0 parts o ho
      exact .part hpart hholds
    · cases ho

theorem holds_of_mem_ofParts (form : Form) : ∀ (i : Nat) (parts : List Node),
    ∀ o ∈ ofParts form i parts, ∃ part ∈ parts, part.Holds o.node
  | _, [], _, ho => nomatch ho
  | i, part :: rest, o, ho => by
    have hrest (ho : o ∈ ofParts form (i + 1) rest) :
        ∃ other ∈ part :: rest, other.Holds o.node := by
      obtain ⟨other, hother, hholds⟩ := holds_of_mem_ofParts form (i + 1) rest o ho
      exact ⟨other, List.mem_cons_of_mem part hother, hholds⟩
    rw [ofParts] at ho
    split at ho
    · rcases List.mem_append.mp ho with ho | ho
      · exact ⟨part, List.mem_cons_self, holds_of_mem_ofNode part o ho⟩
      · exact hrest ho
    · exact hrest ho

end

end Outline

variable {d : Document} {s : Selection} {n : Node}

theorem Tree.holds_of_get? {id : Nat} {e : Entry} (h : (Tree.ofDocument d).get? id = some e) :
    d.program.Holds e.node := by
  have hplaced := Tree.get?_iff_placed.mp h
  clear h
  induction hplaced with
  | root => exact .root _
  | @child p outer earlier later o _ hsplit ih =>
    obtain ⟨part, hpart, hholds⟩ := Outline.holds_of_mem_ofParts _ 0 _ o (by rw [hsplit]; simp)
    exact ih.trans (.part hpart hholds)

/-! ## Documents and the texts that are parsed -/

/-- A document whose tree keeps to its text. -/
def Document.IsSound (d : Document) : Prop := d.program.Sound d.text

namespace Document

/-- The ends of a range that keeps to a beginning of the text are left as they are. -/
theorem range_eq {text : Text} (hn : n.Sound text) (hsize : text.size ≤ d.text.size) :
    d.range n.span = ⟨n.span.start, max n.span.start n.span.stop⟩ := by
  have hstart := Text.le_size_of_isBoundary hn.start
  have hstop := Text.le_size_of_isBoundary hn.stop
  simp only [range, Nat.min_eq_left (Nat.le_trans hstart hsize),
    Nat.min_eq_left (Nat.le_trans hstop hsize)]

theorem IsSound.range (h : n.Sound d.text) :
    d.range n.span = ⟨n.span.start, max n.span.start n.span.stop⟩ :=
  range_eq h (Nat.le_refl _)

theorem IsSound.cutsAt (h : n.Sound d.text) : d.text.cutsAt (d.range n.span) = true := by
  rw [IsSound.range h]
  exact Text.cutsAt_iff.mpr ⟨h.start, h.isBoundary_max⟩

theorem slice_eq_ok {range : Span} {part : Text} :
    d.slice range = .ok part ↔ d.text.slice? range.start range.stop = some part := by
  unfold slice
  cases d.text.slice? range.start range.stop with
  | none => exact ⟨nofun, nofun⟩
  | some other => simp

/-- A byte-order mark is one character of three bytes. -/
theorem exists_mark (text : Text) :
    withoutMark text = text ∨ ∃ mark, text = mark :: withoutMark text ∧ mark.utf8Size = 3 := by
  unfold withoutMark
  split
  · exact .inl rfl
  · next c rest =>
    split
    · next hmark =>
      refine .inr ⟨c, rfl, ?_⟩
      rw [show c = Char.ofNat 0xFEFF by rw [← beq_iff_eq.mp hmark, Char.ofNat_toNat]]
      decide
    · exact .inl rfl

/-- What is parsed is the text without a mark. -/
theorem parse_eq_ok {dialect : Syntax.Dialect} {text : Text}
    (h : Document.parse dialect text = .ok d) :
    d.text = text ∧ d.program.Sound (withoutMark text) := by
  unfold Document.parse at h
  split at h
  · next program hprogram =>
    cases h
    exact ⟨rfl, Syntax.parse_sound hprogram⟩
  · cases h

end Document

/-! ## Outcomes that cut no character -/

variable {α β : Type}

/-- An outcome that does not come from a slice through a character. -/
def KeepsCharacters (x : Outcome α) : Prop := x ≠ .error .brokenSlice

instance : (x : Outcome α) → Decidable (KeepsCharacters x)
  | .ok _ | .error (.fault _) | .error (.notApplicable _) => isTrue nofun
  | .error .brokenSlice => isFalse fun h => h rfl

namespace KeepsCharacters

theorem ok (a : α) : KeepsCharacters (.ok a : Outcome α) := nofun

theorem fault (f : Fault) : KeepsCharacters (.error (.fault f) : Outcome α) := nofun

theorem notApplicable (reason : Reason) :
    KeepsCharacters (.error (.notApplicable reason) : Outcome α) := nofun

theorem of_succeeds {x : Outcome α} (h : Succeeds x) : KeepsCharacters x := by
  obtain ⟨a, rfl⟩ := h
  exact ok a

theorem bind {x : Outcome α} {f : α → Outcome β} (hx : KeepsCharacters x)
    (hf : ∀ a, x = .ok a → KeepsCharacters (f a)) : KeepsCharacters (x >>= f) := by
  cases x with
  | ok a => exact hf a rfl
  | error e =>
    intro h
    cases h
    exact hx rfl

theorem mapM {f : α → Outcome β} {list : List α} (h : ∀ a ∈ list, KeepsCharacters (f a)) :
    KeepsCharacters (list.mapM f) := by
  induction list with
  | nil =>
    rw [List.mapM_nil]
    exact ok []
  | cons a rest ih =>
    rw [List.mapM_cons]
    refine bind (h a List.mem_cons_self) fun b _ => ?_
    exact bind (ih fun c hc => h c (List.mem_cons_of_mem a hc)) fun bs _ => ok (b :: bs)

end KeepsCharacters

open KeepsCharacters

/-! ## Slices of the refactorings -/

theorem Document.slice_keepsCharacters {range : Span} (hcut : d.text.cutsAt range = true)
    (hle : range.start ≤ range.stop) : KeepsCharacters (d.slice range) :=
  of_succeeds (d.exists_slice hcut hle)

/-- The text of a construct that keeps to the text can be taken. -/
theorem Document.slice_range (h : n.Sound d.text) : KeepsCharacters (d.slice (d.range n.span)) :=
  d.slice_keepsCharacters (IsSound.cutsAt h) (d.range_ordered n.span)

theorem Tree.text_keepsCharacters (h : d.IsSound) {id : Nat} {e : Entry}
    (he : (Tree.ofDocument d).get? id = some e) :
    KeepsCharacters ((Tree.ofDocument d).text id) := by
  unfold Tree.text
  rw [he]
  cases Tree.get?_iff_placed.mp he with
  | root =>
    refine d.slice_keepsCharacters (Text.cutsAt_iff.mpr ⟨Syntax.isBoundary_zero, ?_⟩)
      (Nat.zero_le _)
    simpa using Text.isBoundary_size_append d.text []
  | child => exact Document.slice_range (h.of_holds (Tree.holds_of_get? he))

theorem Transformation.ofBatch_keepsCharacters (t : Tree) (batch : Batch) (s : Selection) :
    KeepsCharacters (Transformation.ofBatch t batch s) := by
  unfold Transformation.ofBatch
  split
  · exact ok _
  · exact fault _

theorem Braces.edits_keepsCharacters (settings : Settings) {target : Target}
    (h : target.body.Sound d.text) : KeepsCharacters (edits d settings target) := by
  obtain ⟨hfrom, hto⟩ := Text.cutsAt_iff.mp (Document.IsSound.cutsAt h)
  obtain ⟨start, hstart, -⟩ := exists_blankStart hfrom
  obtain ⟨stop, hstop, -⟩ := exists_blankEnd hto
  refine bind (of_succeeds ⟨start, hstart⟩) fun _ _ => ?_
  split
  · exact bind (of_succeeds ⟨stop, hstop⟩) fun _ _ => ok _
  · exact ok _

namespace Ternary

/-- The operator of an equality divides what stands between the operands, if it is found there. -/
theorem flipEquality_keepsCharacters {span : Span} {left right : Node}
    (hstart : d.text.isBoundary span.start = true) (hstop : d.text.isBoundary span.stop = true)
    (hleft : left.Sound d.text) (hright : right.Sound d.text) (hordered : Separates span left right)
    (old new : String) : KeepsCharacters (flipEquality d span left.span right.span old new) := by
  obtain ⟨hfrom, hleftOrdered, hbetween, hrightOrdered, hto⟩ := hordered
  have hspan : d.range span = span := by
    have hle := Text.le_size_of_isBoundary hstop
    simp only [Document.range]
    congr 1
    · omega
    · omega
  unfold flipEquality
  extract_lets whole gap
  have hgapStart : gap.start = left.span.stop := by
    show (d.range left.span).stop = left.span.stop
    rw [Document.IsSound.range hleft]
    exact Nat.max_eq_right hleftOrdered
  have hgapStop : gap.stop = right.span.start := by
    show (d.range right.span).start = right.span.start
    rw [Document.IsSound.range hright]
  have hgap : d.text.cutsAt gap = true := by
    rw [Text.cutsAt_iff, hgapStart, hgapStop]
    exact ⟨hleft.stop, hright.start⟩
  refine bind (d.slice_keepsCharacters hgap (by omega)) fun between hslice => ?_
  split
  · exact fault _
  · next before after hfound =>
    obtain ⟨front, back, htext, hfront, hback⟩ :=
      Text.slice?_eq_some_iff.mp (Document.slice_eq_ok.mp hslice)
    rw [Text.eq_append_of_splitFirst? hfound] at htext hback
    simp only [Text.size_append] at hback
    have hhead : d.text.isBoundary (gap.start + before.size) = true :=
      Text.isBoundary_iff.mpr
        ⟨front ++ before, old.toList ++ after ++ back, by simp [htext], by simp [hfront]⟩
    have htail : d.text.isBoundary (gap.start + before.size + Text.size old.toList) = true :=
      Text.isBoundary_iff.mpr
        ⟨front ++ before ++ old.toList, after ++ back, by simp [htext],
          by simp [hfront, Nat.add_assoc]⟩
    have hwhole : whole = span := hspan
    clear_value whole
    subst hwhole
    refine bind (d.slice_keepsCharacters (Text.cutsAt_iff.mpr ⟨hstart, hhead⟩) ?_) fun _ _ =>
      bind (d.slice_keepsCharacters (Text.cutsAt_iff.mpr ⟨htail, hstop⟩) ?_) fun _ _ => ok _
    · show whole.start ≤ gap.start + before.size
      omega
    · show gap.start + before.size + Text.size old.toList ≤ whole.stop
      omega

theorem negate_keepsCharacters {test : Node} (h : test.Sound d.text) :
    KeepsCharacters (negate d test) := by
  refine bind (Document.slice_range h) fun text _ => ?_
  split
  · next operand _ =>
    have hoperand : operand.Sound d.text := h.parts _ List.mem_cons_self
    unfold negated
    split
    · split
      · exact Document.slice_range hoperand
      · exact Document.slice_range (hoperand.parts _ List.mem_cons_self)
    · exact Document.slice_range hoperand
  · next op span left right =>
    split
    · cases h with
      | mk hstart hstop hparts hbinary _ =>
        obtain ⟨left, right, hboth, hordered⟩ := hbinary rfl
        cases hboth
        exact flipEquality_keepsCharacters hstart hstop (hparts _ (by simp)) (hparts _ (by simp))
          hordered _ _
    · exact ok _
  · exact ok _

theorem edits_keepsCharacters {target : Target} (htest : target.test.Sound d.text)
    (hyes : target.yes.Sound d.text) (hno : target.no.Sound d.text) :
    KeepsCharacters (edits d target) :=
  bind (negate_keepsCharacters htest) fun _ _ => bind (Document.slice_range hno) fun _ _ =>
    bind (Document.slice_range hyes) fun _ _ => ok _

end Ternary

namespace Switch

/-- A branch whose literal and body keep to the text. -/
def Branch.IsSound (text : Text) (b : Branch) : Prop :=
  (∀ value ∈ b.value, value.Sound text) ∧ b.body.Sound text

theorem sound_equality {text : Text} {test subject value : Node} (h : test.Sound text)
    (heq : equality? test = some (subject, value)) : subject.Sound text ∧ value.Sound text := by
  obtain ⟨-, -, hsubject, hvalue⟩ := equality?_eq_some heq
  exact ⟨h.parts subject hsubject, h.parts value hvalue⟩

/-- All branches of a chain keep to the text, down to the last `else`. -/
theorem sound_branches {text : Text} {known : Option Node} {branches : List Branch}
    (h : n.Sound text) (hbranches : branches? known n = some branches) :
    ∀ b ∈ branches, b.IsSound text := by
  have hfirst {span : Span} {test yes no subject value : Node}
      (h : Node.Sound text (.mk (.stmt .ifElse) span [test, yes, no]))
      (heq : equality? test = some (subject, value)) : Branch.IsSound text ⟨some value, yes⟩ := by
    refine ⟨fun v hv => ?_, h.parts yes (by simp [Node.parts])⟩
    cases hv
    exact (sound_equality (h.parts test (by simp [Node.parts])) heq).2
  fun_induction branches? known n generalizing branches with
  | case1 => cases hbranches
  | case2 known span test yes no subject value heq =>
    cases hbranches
    simpa using hfirst h heq
  | case3 known span test yes no subject value heq hagrees branch hform =>
    rename_i ih
    obtain ⟨more, hmore, rfl⟩ := Option.map_eq_some_iff.mp hbranches
    intro b hb
    rcases List.mem_cons.mp hb with rfl | hb
    · exact hfirst h heq
    · exact ih (h.parts no (by simp [Node.parts])) hmore b hb
  | case4 known span test yes no subject value heq hagrees branch hpresent =>
    cases hbranches
    have hno : no.Sound text := h.parts no (by simp [Node.parts])
    simpa [Branch.IsSound] using ⟨hfirst h heq, hno⟩
  | case5 => cases hbranches
  | case6 => cases hbranches

theorem sound_chain {text : Text} {chain : Chain} (h : n.Sound text)
    (hchain : chain? n = some chain) :
    chain.subject.Sound text ∧ ∀ b ∈ chain.branches, b.IsSound text := by
  unfold chain? at hchain
  split at hchain
  · next span test rest =>
    split at hchain
    · next subject value branches heq hbranches =>
      cases hchain
      have htest : test.Sound text := h.parts test List.mem_cons_self
      exact ⟨(sound_equality htest heq).1, sound_branches h hbranches⟩
    · cases hchain
  · cases hchain

theorem sound_statements {text : Text} {body : Node} (h : body.Sound text) :
    ∀ n ∈ statements body, n.Sound text := by
  unfold statements
  split
  · exact h.parts
  · simpa using h

theorem caseText_keepsCharacters {b : Branch} (h : b.IsSound d.text) (indent bodyIndent : Text)
    (addBreak : Bool) : KeepsCharacters (caseText d indent bodyIndent addBreak b) := by
  have hline : KeepsCharacters (caseLine d indent b.value) := by
    cases hvalue : b.value with
    | none => exact ok _
    | some v => exact bind (Document.slice_range (h.1 v hvalue)) fun _ _ => ok _
  refine bind hline fun _ _ => bind (mapM fun n hn => ?_) fun _ _ => ok _
  exact bind (Document.slice_range (sound_statements h.2 n hn)) fun _ _ => ok _

theorem switchText_keepsCharacters (settings : Settings) {target : Target}
    (hhead : target.head.Sound d.text) (hchain : chain? target.head = some target.chain) :
    KeepsCharacters (switchText d settings target) := by
  obtain ⟨hsubject, hbranches⟩ := sound_chain hhead hchain
  refine bind (Document.slice_range hsubject) fun _ _ => bind (mapM fun b hb => ?_) fun _ _ => ok _
  exact caseText_keepsCharacters (hbranches b hb) _ _ _

end Switch

/-! ## Refactorings and plans -/

/-- No refactoring of a sound document cuts a character. -/
theorem Refactoring.transform_keepsCharacters (h : d.IsSound) (r : Refactoring) (s : Selection)
    (settings : Settings) : KeepsCharacters (r.transform (Tree.ofDocument d) s settings) := by
  have hentry {id : Nat} {e : Entry} (he : (Tree.ofDocument d).get? id = some e) :
      e.node.Sound d.text := h.of_holds (Tree.holds_of_get? he)
  cases r with
  | addBraces =>
    show KeepsCharacters (Braces.transform (Tree.ofDocument d) s settings)
    unfold Braces.transform
    split
    · exact notApplicable _
    · next target htarget =>
      obtain ⟨id, e, test, yes, no, hworks, -, -, hparts, -, hside⟩ := Braces.exists_site htarget
      have hbody : target.body ∈ e.node.parts := by
        rcases hside with ⟨-, hbody⟩ | ⟨-, hbody, -⟩
        · simp [hparts, hbody]
        · simp [hparts, hbody]
      exact bind (Braces.edits_keepsCharacters settings ((hentry hworks.entry).parts _ hbody))
        fun _ _ => Transformation.ofBatch_keepsCharacters _ _ _
  | convertToSwitch =>
    show KeepsCharacters (Switch.transform (Tree.ofDocument d) s settings)
    unfold Switch.transform
    split
    · exact notApplicable _
    · next target htarget =>
      obtain ⟨id, e, hworks, hhead, -, hchain⟩ := Switch.exists_site htarget
      rw [← hhead] at hchain
      exact bind (Switch.switchText_keepsCharacters settings (hhead ▸ hentry hworks.entry) hchain)
        fun _ _ => Transformation.ofBatch_keepsCharacters _ _ _
  | extractVariable =>
    show KeepsCharacters (Variable.transform (Tree.ofDocument d) s settings)
    unfold Variable.transform
    split
    · exact notApplicable _
    · split
      · next hexpression =>
        exact bind (Tree.text_keepsCharacters h hexpression) fun _ _ => ok _
      · exact notApplicable _
  | extractGenericType =>
    show KeepsCharacters (GenericType.transform (Tree.ofDocument d) s)
    unfold GenericType.transform
    split
    · exact notApplicable _
    · split
      · exact notApplicable _
      · next htype =>
        exact bind (Tree.text_keepsCharacters h htype) fun _ _ =>
          Transformation.ofBatch_keepsCharacters _ _ _
  | flipTernary =>
    show KeepsCharacters (Ternary.transform (Tree.ofDocument d) s)
    unfold Ternary.transform
    split
    · exact notApplicable _
    · next target htarget =>
      obtain ⟨id, e, hworks, -, hparts⟩ := Ternary.exists_site htarget
      have hall := (hentry hworks.entry).parts
      rw [hparts] at hall
      simp only [Syntax.soundAll_cons] at hall
      obtain ⟨htest, hyes, hno, -⟩ := hall
      exact bind (Ternary.edits_keepsCharacters htest hyes hno) fun _ _ =>
        Transformation.ofBatch_keepsCharacters _ _ _

theorem validate_keepsCharacters (code : Text) (s : Selection) (x : Transformation)
    (settings : Settings) : KeepsCharacters (validate code s x settings) := by
  refine bind ?_ fun output _ => ?_
  · unfold Transformation.output
    split
    · exact ok _
    · split
      · exact ok _
      · exact fault _
  · split
    · exact ok _
    · exact fault _

/-- Planning cuts no character if the transformation does not. -/
theorem plan_keepsCharacters {r : Refactoring} {code : Text} {settings : Settings}
    (h : ∀ d, Document.parse settings.dialect code = .ok d →
      KeepsCharacters (r.transform (Tree.ofDocument d) s settings)) :
    KeepsCharacters (plan r code s settings) := by
  unfold plan
  split
  · exact fault _
  · next d hd =>
    dsimp only
    split
    · split
      · next e he => exact he ▸ h d hd
      · next x _ =>
        split
        · split
          · next e he =>
            intro hbroken
            cases hbroken
            exact validate_keepsCharacters code s x settings he
          · exact ok _
        · exact ok _
    · exact notApplicable _

/-- **Planning cuts no character.** In a document that could be parsed, the text of every construct
stands at the offsets that its range has in what was parsed, so that it is found behind a mark if
there is one. Without a mark the range of the construct covers exactly this text, and no planning
takes a slice through a character. -/
theorem plan_never_cuts {dialect : Syntax.Dialect} {text : Text}
    (hd : Document.parse dialect text = .ok d) :
    (∀ n, d.program.Holds n → ∃ source,
      (Document.withoutMark text).slice? n.span.start (max n.span.start n.span.stop) = some source ∧
      d.range n.span = ⟨n.span.start, max n.span.start n.span.stop⟩ ∧
      (Document.withoutMark text = text → d.slice (d.range n.span) = .ok source) ∧
      (Document.withoutMark text ≠ text →
        d.slice ⟨(d.range n.span).start + 3, (d.range n.span).stop + 3⟩ = .ok source)) ∧
    (Document.withoutMark text = text → ∀ (r : Refactoring) (s : Selection) (settings : Settings),
      settings.dialect = dialect → KeepsCharacters (plan r text s settings)) := by
  obtain ⟨htext, hsound⟩ := Document.parse_eq_ok hd
  refine ⟨fun n hn => ?_, fun hmark r s settings hdialect => ?_⟩
  · have hn := hsound.of_holds hn
    obtain ⟨source, hsource⟩ :=
      Text.exists_slice? hn.start hn.isBoundary_max (Nat.le_max_left _ n.span.stop)
    have hmark := Document.exists_mark text
    have hrange : d.range n.span = ⟨n.span.start, max n.span.start n.span.stop⟩ := by
      refine Document.range_eq hn ?_
      rcases hmark with hnone | ⟨mark, hsplit, -⟩
      · rw [htext, hnone]
      · rw [htext, congrArg Text.size hsplit, Text.size_cons]
        exact Nat.le_add_left _ _
    refine ⟨source, hsource, hrange, fun hnone => ?_, fun hsome => ?_⟩
    · rw [Document.slice_eq_ok, hrange, htext, ← hnone]
      exact hsource
    · obtain ⟨mark, hsplit, hthree⟩ := hmark.resolve_left hsome
      obtain ⟨before, after, hparsed, hbefore, hend⟩ := Text.slice?_eq_some_iff.mp hsource
      rw [Document.slice_eq_ok, hrange, htext, Text.slice?_eq_some_iff]
      refine ⟨mark :: before, after, ?_, ?_, ?_⟩
      · rw [List.cons_append, List.cons_append, ← hparsed]
        exact hsplit
      · rw [Text.size_cons, hbefore, hthree, Nat.add_comm]
      · rw [Text.size_cons, Nat.add_assoc, hend, hthree, Nat.add_comm]
  · refine plan_keepsCharacters fun d' hd' => ?_
    rw [hdialect] at hd'
    cases hd.symm.trans hd'
    refine Refactoring.transform_keepsCharacters ?_ r s settings
    rw [hmark, ← htext] at hsound
    exact hsound

/-- A planning that takes texts of characters of two, three and four bytes. -/
theorem plan_never_cuts_wide :
    ∃ d, Document.parse {} "ä === \"€\" ? b : \"𝒜\"".toList = .ok d ∧
      KeepsCharacters
        (plan .flipTernary "ä === \"€\" ? b : \"𝒜\"".toList (.cursor ⟨0, 1⟩) {}) := by
  obtain ⟨d, hd, -⟩ : ∃ d, Document.parse {} "ä === \"€\" ? b : \"𝒜\"".toList = .ok d ∧ True :=
    Document.exists_parse (by decide +kernel)
  exact ⟨d, hd, (plan_never_cuts hd).2 (by decide) _ _ _ rfl⟩

/-- Behind a byte-order mark the first two bytes of a construct's range lie in the mark, and
planning breaks off. -/
theorem plan_cuts_behind_mark :
    ¬ KeepsCharacters (plan .flipTernary "\uFEFFa ? b : c".toList (.cursor ⟨0, 1⟩) {}) := by
  decide +kernel

end Retouch
