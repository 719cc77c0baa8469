import Mathlib.Data.List.Chain
import Retouch.Edit.Batch
import Retouch.Proofs.Text

/-!
# A batch of edits as one splice

Edits are applied one after the other, from the bottom of the document up. The result is described
here without any order of work: the parts of the text that no edit touches, with the replacements
between them.

- `Batch.ordered`: the edits by start offset and then by the order of addition;
  `ascending_eq_ordered` says that the insertion sort finds this order.
- `Batch.Fits`: what a text must be like for a batch to be applied; `check_eq_none_iff` says that
  the check asks for exactly this.
- `Batch.fits_of_pairwise`: edits that are given one behind the other fit.
- `Batch.Laid`: how a list of edits cuts up a text and what it makes of it. `exists_laid` gets it
  from the fold that does the work, and every property of the new text follows from it.
- `Batch.apply_eq_weave`: applying a batch is the splice, and it never meets a range that the text
  at hand cannot be cut at.
-/

namespace Retouch.Batch

/-! ## The order of edits -/

/-- Whether one of two numbered edits comes first: by start offset, then by number. -/
def precedes (a b : Edit × Nat) : Bool :=
  a.1.span.start < b.1.span.start || (a.1.span.start == b.1.span.start && a.2 ≤ b.2)

/-- The edits of a batch by start offset, and at one offset in the order of addition. -/
def ordered (batch : Batch) : List Edit :=
  (batch.zipIdx.mergeSort precedes).map Prod.fst

theorem precedes_iff {a b : Edit × Nat} :
    precedes a b = true ↔
      a.1.span.start < b.1.span.start ∨ a.1.span.start = b.1.span.start ∧ a.2 ≤ b.2 := by
  simp [precedes]

/-- Inserting the last edit keeps a numbered list in order: the edit goes behind all that start
where it does, and their numbers are smaller. -/
theorem exists_insert (e : Edit) (n : Nat) :
    ∀ list : List (Edit × Nat), list.Pairwise (fun a b => precedes a b = true) →
      (∀ a ∈ list, a.2 ≤ n) →
      ∃ longer : List (Edit × Nat), longer.map Prod.fst = insertByStart e (list.map Prod.fst) ∧
        longer.Perm ((e, n) :: list) ∧ longer.Pairwise (fun a b => precedes a b = true)
  | [], _, _ => ⟨[(e, n)], rfl, List.Perm.refl _, List.pairwise_singleton _ _⟩
  | a :: rest, hsorted, hnumber => by
    obtain ⟨hfirst, hrest⟩ := List.pairwise_cons.mp hsorted
    by_cases hlt : e.span.start < a.1.span.start
    · refine ⟨(e, n) :: a :: rest, ?_, List.Perm.refl _, ?_⟩
      · simp [insertByStart, hlt]
      · refine List.pairwise_cons.mpr ⟨fun b hb => precedes_iff.mpr (.inl ?_), hsorted⟩
        rcases List.mem_cons.mp hb with rfl | hb
        · exact hlt
        · have hab := precedes_iff.mp (hfirst b hb)
          show e.span.start < b.1.span.start
          omega
    · -- `a` starts no later and has the smaller number, so it stays in front
      obtain ⟨longer, hmap, hperm, hlonger⟩ :=
        exists_insert e n rest hrest fun b hb => hnumber b (List.mem_cons_of_mem a hb)
      refine ⟨a :: longer, ?_, ?_, List.pairwise_cons.mpr ⟨fun b hb => ?_, hlonger⟩⟩
      · simp [insertByStart, hlt, hmap]
      · exact (hperm.cons a).trans (List.Perm.swap (e, n) a rest)
      · rcases List.mem_cons.mp (hperm.mem_iff.mp hb) with rfl | hb
        · have hn := hnumber a List.mem_cons_self
          refine precedes_iff.mpr ?_
          dsimp only
          omega
        · exact hfirst b hb

/-- Sorting a batch into a numbered list that is in order keeps it in order. -/
theorem exists_foldl_insert :
    ∀ (batch : Batch) (n : Nat) (list : List (Edit × Nat)),
      list.Pairwise (fun a b => precedes a b = true) → (∀ a ∈ list, a.2 ≤ n) →
      ∃ longer : List (Edit × Nat), longer.map Prod.fst
          = batch.foldl (fun sorted e => insertByStart e sorted) (list.map Prod.fst) ∧
        longer.Perm (batch.zipIdx n ++ list) ∧ longer.Pairwise (fun a b => precedes a b = true)
  | [], _, list, hsorted, _ => ⟨list, rfl, List.Perm.refl _, hsorted⟩
  | e :: batch, n, list, hsorted, hnumber => by
    obtain ⟨inserted, hmap, hperm, hinserted⟩ := exists_insert e n list hsorted hnumber
    have hnumber' : ∀ a ∈ inserted, a.2 ≤ n + 1 := by
      intro a ha
      rcases List.mem_cons.mp (hperm.mem_iff.mp ha) with rfl | ha
      · exact Nat.le_succ n
      · exact Nat.le_succ_of_le (hnumber a ha)
    obtain ⟨longer, hmap', hperm', hlonger⟩ :=
      exists_foldl_insert batch (n + 1) inserted hinserted hnumber'
    refine ⟨longer, by rw [hmap', hmap]; rfl, ?_, hlonger⟩
    exact (hperm'.trans (hperm.append_left _)).trans List.perm_middle

/-- Insertion by start finds the order by start and number. -/
theorem ascending_eq_ordered (batch : Batch) : ascending batch = ordered batch := by
  obtain ⟨list, hmap, hperm, hsorted⟩ :=
    exists_foldl_insert batch 0 [] List.Pairwise.nil (fun a ha => nomatch ha)
  have htrans : ∀ a b c : Edit × Nat, precedes a b = true → precedes b c = true →
      precedes a c = true := by
    intro a b c hab hbc
    rw [precedes_iff] at hab hbc ⊢
    omega
  have htotal : ∀ a b : Edit × Nat, (precedes a b || precedes b a) = true := by
    intro a b
    rw [Bool.or_eq_true, precedes_iff, precedes_iff]
    omega
  have heq : list = batch.zipIdx.mergeSort precedes := by
    refine List.Perm.eq_of_pairwise (fun a b ha hb hab hba => ?_) hsorted
      (List.pairwise_mergeSort htrans htotal _) ?_
    · -- two numbered edits of one batch that precede each other have one number
      rw [precedes_iff] at hab hba
      have hnumber : a.2 = b.2 := by omega
      have ha' := List.mem_zipIdx_iff_getElem?.mp (by simpa using hperm.mem_iff.mp ha)
      have hb' := List.mem_zipIdx_iff_getElem?.mp (List.mem_mergeSort.mp hb)
      rw [hnumber, hb'] at ha'
      exact Prod.ext (Option.some.inj ha').symm hnumber
    · exact (by simpa using hperm : list.Perm batch.zipIdx).trans
        (List.mergeSort_perm _ _).symm
  rw [ordered, ← heq, hmap]
  rfl

theorem mem_ordered {batch : Batch} {e : Edit} : e ∈ batch.ordered ↔ e ∈ batch := by
  have hperm : batch.ordered.Perm (batch.zipIdx.map Prod.fst) :=
    (List.mergeSort_perm _ _).map Prod.fst
  rw [hperm.mem_iff]
  simp

/-! ## When a batch can be applied -/

/-- An edit with a range inside a text, both of whose ends lie between characters. -/
structure Sits (source : Text) (e : Edit) : Prop where
  start_le_stop : e.span.start ≤ e.span.stop
  stop_le_size : e.span.stop ≤ source.size
  start_cut : source.isBoundary e.span.start = true
  stop_cut : source.isBoundary e.span.stop = true

/-- A batch of which every edit sits in the text, and each edit starts at or after the end of the
one before it. -/
structure Fits (batch : Batch) (source : Text) : Prop where
  each : ∀ e ∈ batch, Sits source e
  apart : batch.ordered.IsChain fun a b => a.span.stop ≤ b.span.start

theorem sits_of_isBoundary {source : Text} {a b : Nat} (ha : source.isBoundary a = true)
    (hb : source.isBoundary b = true) (hab : a ≤ b) (text : Text) : Sits source ⟨⟨a, b⟩, text⟩ where
  start_le_stop := hab
  stop_le_size := Text.le_size_of_isBoundary hb
  start_cut := ha
  stop_cut := hb

theorem editError?_eq_none_iff {source : Text} {e : Edit} :
    editError? source e = none ↔ Sits source e := by
  unfold editError?
  constructor
  · intro h
    split at h
    · cases h
    · next hinside =>
      split at h
      · cases h
      · next hwhole =>
        simp only [Bool.or_eq_true, decide_eq_true_eq, not_or, Nat.not_lt] at hinside
        simp only [Bool.or_eq_true, Bool.not_eq_true', not_or, Bool.not_eq_false] at hwhole
        exact ⟨hinside.1, hinside.2, hwhole.1, hwhole.2⟩
  · rintro ⟨hle, hsize, hstart, hstop⟩
    rw [if_neg (by simpa using ⟨hle, hsize⟩), if_neg (by simpa using ⟨hstart, hstop⟩)]

theorem overlap?_eq_none_iff :
    ∀ {edits : List Edit},
      overlap? edits = none ↔ edits.IsChain fun a b => a.span.stop ≤ b.span.start
  | [] => by simp [overlap?]
  | [a] => by simp [overlap?]
  | a :: b :: rest => by
    rw [overlap?, List.isChain_cons_cons, ← overlap?_eq_none_iff]
    by_cases hlt : b.span.start < a.span.stop
    · simp [hlt]
    · simp [hlt, Nat.le_of_not_lt hlt]

/-- The check finds no defect exactly in a batch that fits. -/
theorem check_eq_none_iff {batch : Batch} {source : Text} :
    batch.check source = none ↔ batch.Fits source := by
  have heach : batch.findSome? (editError? source) = none ↔ ∀ e ∈ batch, Sits source e := by
    rw [List.findSome?_eq_none_iff]
    exact forall_congr' fun e => imp_congr_right fun _ => editError?_eq_none_iff
  unfold check
  rw [ascending_eq_ordered]
  constructor
  · intro h
    split at h
    · cases h
    · next hnone => exact ⟨heach.mp hnone, overlap?_eq_none_iff.mp h⟩
  · rintro ⟨hsits, hapart⟩
    rw [heach.mpr hsits]
    exact overlap?_eq_none_iff.mpr hapart

/-! ## Batches that are in order already -/

theorem insertByStart_eq_append {e : Edit} {edits : List Edit}
    (h : ∀ f ∈ edits, f.span.start ≤ e.span.start) : insertByStart e edits = edits ++ [e] := by
  induction edits with
  | nil => rfl
  | cons f rest ih =>
    have hf := h f List.mem_cons_self
    rw [insertByStart, if_neg (Nat.not_lt.mpr hf),
      ih fun g hg => h g (List.mem_cons_of_mem f hg), List.cons_append]

theorem ascending_of_pairwise {batch : Batch}
    (h : batch.Pairwise fun a b => a.span.start ≤ b.span.start) : ascending batch = batch := by
  -- what is sorted already and what is still to come are one list in order
  suffices hfold : ∀ sorted rest : List Edit,
      (sorted ++ rest).Pairwise (fun a b => a.span.start ≤ b.span.start) →
      rest.foldl (fun sorted e => insertByStart e sorted) sorted = sorted ++ rest from
    hfold [] batch h
  intro sorted rest
  induction rest generalizing sorted with
  | nil => intro _; simp
  | cons e rest ih =>
    intro hpairwise
    have hlast : ∀ f ∈ sorted, f.span.start ≤ e.span.start := fun f hf =>
      (List.pairwise_append.mp hpairwise).2.2 f hf e List.mem_cons_self
    rw [List.foldl_cons, insertByStart_eq_append hlast, ih _ (by simpa using hpairwise)]
    simp

/-- Edits that sit in a text, each of them before all that come later, fit it. -/
theorem fits_of_pairwise {batch : Batch} {source : Text} (heach : ∀ e ∈ batch, Sits source e)
    (hapart : batch.Pairwise fun a b => a.span.stop ≤ b.span.start) : batch.Fits source := by
  refine ⟨heach, ?_⟩
  rw [← ascending_eq_ordered, ascending_of_pairwise]
  · exact hapart.isChain
  · exact hapart.imp_of_mem fun ha _ hab => Nat.le_trans (heach _ ha).start_le_stop hab

/-! ## Layouts -/

/-- How an ascending list of edits cuts up the rest of a text from an offset on, and what it makes
of it. Between the offset and the first edit there is a gap, which stays; then comes what the edit
replaces; and after it the rest of the edits lie in the rest of the text. -/
inductive Laid : Nat → List Edit → Text → Text → Prop
  | nil {offset : Nat} (rest : Text) : Laid offset [] rest rest
  | cons {offset : Nat} {e : Edit} {edits : List Edit} {gap replaced rest output : Text}
      (hgap : offset + gap.size = e.span.start)
      (hreplaced : e.span.start + replaced.size = e.span.stop)
      (hrest : Laid e.span.stop edits rest output) :
      Laid offset (e :: edits) (gap ++ replaced ++ rest) (gap ++ e.text ++ output)

theorem splice_eq {e : Edit} {before replaced : Text} (after : Text)
    (hstart : before.size = e.span.start) (hstop : e.span.start + replaced.size = e.span.stop) :
    splice e (before ++ replaced ++ after) = before ++ e.text ++ after := by
  have hcutStart : Text.cut? (before ++ replaced ++ after) e.span.start
      = some (before, replaced ++ after) := by
    rw [List.append_assoc, ← hstart, Text.cut?_append]
  have hcutStop : Text.cut? (before ++ replaced ++ after) e.span.stop
      = some (before ++ replaced, after) := by
    rw [← hstop, ← hstart, ← Text.size_append, Text.cut?_append]
  simp only [splice, hcutStart, hcutStop]

/-- An edit that sits in a text, at or after the end of a part of it, divides what follows. -/
theorem Sits.divide {source : Text} {e : Edit} (he : Sits source e) (before rest : Text)
    (hsource : source = before ++ rest) (hle : before.size ≤ e.span.start) :
    ∃ gap replaced after, rest = gap ++ replaced ++ after ∧
      before.size + gap.size = e.span.start ∧ e.span.start + replaced.size = e.span.stop := by
  obtain ⟨head, tail, hstart, hhead⟩ := Text.isBoundary_iff.mp he.start_cut
  obtain ⟨head', tail', hstop, hhead'⟩ := Text.isBoundary_iff.mp he.stop_cut
  obtain ⟨gap, rfl, rfl⟩ := Text.exists_middle (hsource.symm.trans hstart) (by omega)
  have hle' := he.start_le_stop
  obtain ⟨replaced, rfl, rfl⟩ := Text.exists_middle (hstart.symm.trans hstop) (by omega)
  refine ⟨gap, replaced, tail', (List.append_assoc ..).symm, ?_, ?_⟩
  · rw [← hhead, Text.size_append]
  · rw [← hhead', Text.size_append, hhead]

/-- The fold that applies the edits from the last one on leaves the text before the first edit
alone and lays out the rest. -/
theorem exists_laid {source : Text} :
    ∀ (edits : List Edit) (before rest : Text), source = before ++ rest →
      (∀ e ∈ edits, Sits source e) →
      (edits.IsChain fun a b => a.span.stop ≤ b.span.start) →
      (∀ e ∈ edits.head?, before.size ≤ e.span.start) →
      ∃ output, Laid before.size edits rest output ∧ edits.foldr splice source = before ++ output
  | [], before, rest, hsource, _, _, _ => ⟨rest, .nil rest, hsource⟩
  | e :: edits, before, rest, hsource, hsits, hchain, hhead => by
    obtain ⟨gap, replaced, after, rfl, hgap, hreplaced⟩ :=
      (hsits e List.mem_cons_self).divide before rest hsource (hhead e rfl)
    have hstop : (before ++ gap ++ replaced).size = e.span.stop := by
      rw [Text.size_append, Text.size_append, hgap, hreplaced]
    obtain ⟨hnext, hedits⟩ := List.isChain_cons.mp hchain
    -- the later edits are applied first, and leave everything up to the end of `e` as it is
    obtain ⟨output, hlaid, hfold⟩ := exists_laid edits (before ++ gap ++ replaced) after
      (by rw [hsource]; simp only [List.append_assoc])
      (fun f hf => hsits f (List.mem_cons_of_mem e hf)) hedits
      (fun f hf => hstop ▸ hnext f hf)
    refine ⟨gap ++ e.text ++ output, .cons hgap hreplaced (hstop ▸ hlaid), ?_⟩
    rw [List.foldr_cons, hfold, splice_eq output (by rw [Text.size_append, hgap]) hreplaced]
    simp only [List.append_assoc]

theorem exists_laid_of_fits {batch : Batch} {source : Text} (h : batch.Fits source) :
    ∃ output, Laid 0 batch.ordered source output ∧ batch.apply source = .ok output := by
  obtain ⟨output, hlaid, hfold⟩ := @exists_laid source batch.ordered [] source rfl
    (fun e he => h.each e (mem_ordered.mp he)) h.apart (fun e _ => Nat.zero_le _)
  refine ⟨output, hlaid, ?_⟩
  rw [apply, check_eq_none_iff.mpr h, ascending_eq_ordered, hfold]
  rfl

/-- A batch that was applied fits the text, and its edits are laid out in it. -/
theorem laid_of_apply {batch : Batch} {source output : Text}
    (h : batch.apply source = .ok output) :
    batch.Fits source ∧ Laid 0 batch.ordered source output := by
  have hfits : batch.Fits source := by
    rw [← check_eq_none_iff]
    unfold apply at h
    split at h
    · cases h
    · assumption
  obtain ⟨output', hlaid, happly⟩ := exists_laid_of_fits hfits
  rw [happly] at h
  cases h
  exact ⟨hfits, hlaid⟩

theorem ordered_of_pairwise {batch : Batch}
    (h : batch.Pairwise fun a b => a.span.start ≤ b.span.start) : batch.ordered = batch := by
  rw [← ascending_eq_ordered, ascending_of_pairwise h]

/-- A layout makes only one text. -/
theorem Laid.unique {offset : Nat} {edits : List Edit} {rest output output' : Text}
    (h : Laid offset edits rest output) (h' : Laid offset edits rest output') :
    output = output' := by
  induction h generalizing output' with
  | nil =>
    cases h'
    rfl
  | @cons _ e _ gap replaced rest output hgap hreplaced _ ih =>
    generalize htext : gap ++ replaced ++ rest = text at h'
    cases h' with
    | @cons _ _ _ gap' replaced' rest' output' hgap' hreplaced' hrest' =>
      rw [List.append_assoc, List.append_assoc] at htext
      obtain ⟨hgaps, hrests⟩ := Text.append_inj_of_size htext (by omega)
      obtain ⟨-, rfl⟩ := Text.append_inj_of_size hrests (by omega)
      rw [hgaps, ih hrest']

/-! ## Pieces -/

/-- A part of a text that stays, and behind it one that is replaced. -/
structure Piece where
  gap : Text
  old : Text
  new : Text

namespace Piece

/-- The text that pieces and a rest are cut from. -/
def source : List Piece → Text → Text
  | [], rest => rest
  | p :: ps, rest => p.gap ++ p.old ++ source ps rest

/-- The text that is made of pieces and a rest. -/
def result : List Piece → Text → Text
  | [], rest => rest
  | p :: ps, rest => p.gap ++ p.new ++ result ps rest

/-- The edits that replace what pieces replace, from an offset on. -/
def edits : Nat → List Piece → Batch
  | _, [] => []
  | offset, p :: ps =>
    let start := offset + p.gap.size
    ⟨⟨start, start + p.old.size⟩, p.new⟩ :: edits (start + p.old.size) ps

theorem laid_edits (offset : Nat) (ps : List Piece) (rest : Text) :
    Laid offset (edits offset ps) (source ps rest) (result ps rest) := by
  induction ps generalizing offset with
  | nil => exact .nil rest
  | cons p ps ih => exact .cons rfl rfl (ih _)

theorem pairwise_edits (offset : Nat) (ps : List Piece) :
    (edits offset ps).Pairwise (fun a b => a.span.stop ≤ b.span.start) ∧
      ∀ e ∈ edits offset ps, offset ≤ e.span.start ∧ e.span.start ≤ e.span.stop := by
  induction ps generalizing offset with
  | nil => exact ⟨.nil, nofun⟩
  | cons p ps ih =>
    obtain ⟨hpairwise, hle⟩ := ih (offset + p.gap.size + p.old.size)
    refine ⟨List.pairwise_cons.mpr ⟨fun e he => (hle e he).1, hpairwise⟩, fun e he => ?_⟩
    rcases List.mem_cons.mp he with rfl | he
    · exact ⟨Nat.le_add_right _ _, Nat.le_add_right _ _⟩
    · obtain ⟨hoffset, hspan⟩ := hle e he
      exact ⟨by omega, hspan⟩

theorem fits_edits (ps : List Piece) (rest : Text) : (edits 0 ps).Fits (source ps rest) := by
  have hsits (before : Text) : ∀ e ∈ edits before.size ps, Sits (before ++ source ps rest) e := by
    induction ps generalizing before with
    | nil => exact nofun
    | cons p ps ih =>
      have hgap : (before ++ p.gap).size = before.size + p.gap.size := Text.size_append before p.gap
      have hold : (before ++ p.gap ++ p.old).size = before.size + p.gap.size + p.old.size := by
        rw [Text.size_append, hgap]
      intro e he
      rcases List.mem_cons.mp he with rfl | he
      · refine sits_of_isBoundary ?_ ?_ (Nat.le_add_right _ _) p.new
        · rw [← hgap, source, List.append_assoc, ← List.append_assoc]
          exact Text.isBoundary_size_append _ _
        · rw [← hold, source, ← List.append_assoc, ← List.append_assoc]
          exact Text.isBoundary_size_append _ _
      · rw [source, ← List.append_assoc, ← List.append_assoc]
        exact ih _ e (hold ▸ he)
  exact fits_of_pairwise (hsits []) (pairwise_edits 0 ps).1

/-- Edits that are given one behind the other make the text that they are meant to make. -/
theorem result_of_apply {batch : Batch} {ps : List Piece} {rest output : Text}
    (h : batch.apply (source ps rest) = .ok output) (hbatch : batch = edits 0 ps) :
    output = result ps rest := by
  subst hbatch
  obtain ⟨-, hlaid⟩ := laid_of_apply h
  obtain ⟨hpairwise, hle⟩ := pairwise_edits 0 ps
  rw [ordered_of_pairwise (hpairwise.imp_of_mem fun ha _ hab => Nat.le_trans (hle _ ha).2 hab)]
    at hlaid
  exact hlaid.unique (laid_edits 0 ps rest)

end Piece

/-! ## The splice -/

/-- The parts of a text that an ascending list of edits leaves alone, from an offset on: one before
each edit and one after the last. -/
def gaps? (source : Text) : Nat → List Edit → Option (List Text)
  | offset, [] => (source.slice? offset source.size).map fun gap => [gap]
  | offset, e :: edits =>
    match source.slice? offset e.span.start, gaps? source e.span.stop edits with
    | some gap, some gaps => some (gap :: gaps)
    | _, _ => none

/-- Gaps and what fills them in turn, starting with a gap. -/
def weave : List Text → List Text → Text
  | gap :: gaps, filling :: fillings => gap ++ filling ++ weave gaps fillings
  | gaps, _ => gaps.flatten

/-- The old and the new text of a layout have the same gaps. -/
theorem Laid.exists_gaps {source rest output : Text} {offset : Nat} {edits : List Edit}
    (h : Laid offset edits rest output) (before : Text) (hsource : source = before ++ rest)
    (hsize : before.size = offset) :
    ∃ gaps replaced, gaps? source offset edits = some gaps ∧
      edits.map (fun e => source.slice? e.span.start e.span.stop) = replaced.map some ∧
      rest = weave gaps replaced ∧ output = weave gaps (edits.map Edit.text) := by
  induction h generalizing before with
  | nil rest =>
    have hlast : source.slice? before.size source.size = some rest :=
      Text.slice?_eq_some_iff.mpr ⟨before, [], by simp [hsource], rfl, by simp [hsource]⟩
    refine ⟨[rest], [], ?_, rfl, ?_, ?_⟩
    · simp [gaps?, ← hsize, hlast]
    · simp [weave]
    · simp [weave]
  | @cons offset e edits gap replaced rest output hgap hreplaced _ ih =>
    have hfirst : source.slice? offset e.span.start = some gap :=
      Text.slice?_eq_some_iff.mpr ⟨before, replaced ++ rest, by simp [hsource], hsize, by omega⟩
    have hsecond : source.slice? e.span.start e.span.stop = some replaced :=
      Text.slice?_eq_some_iff.mpr
        ⟨before ++ gap, rest, by simp [hsource], by simp; omega, by simp; omega⟩
    obtain ⟨gaps, olds, hgaps, holds, hrest, houtput⟩ :=
      ih (before ++ gap ++ replaced) (by simp [hsource]) (by simp; omega)
    refine ⟨gap :: gaps, replaced :: olds, ?_, ?_, ?_, ?_⟩
    · simp only [gaps?, hfirst, hgaps]
    · simp [hsecond, holds]
    · rw [weave, ← hrest]
    · rw [List.map_cons, weave, ← houtput]

/-- What an edit meets while the batch is applied: the edits behind it have changed nothing up to
the end of its range. -/
theorem Fits.sits_in_met {batch : Batch} {source : Text} (h : batch.Fits source)
    {earlier later : List Edit} {e : Edit} (hsplit : batch.ordered = earlier ++ e :: later) :
    Sits (later.foldr splice source) e := by
  have hmem : ∀ f ∈ e :: later, Sits source f := fun f hf =>
    h.each f (mem_ordered.mp (by rw [hsplit]; exact List.mem_append_right _ hf))
  have hchain : (e :: later).IsChain fun a b => a.span.stop ≤ b.span.start :=
    (List.isChain_append.mp (hsplit ▸ h.apart)).2.1
  obtain ⟨hnext, hlater⟩ := List.isChain_cons.mp hchain
  have he := hmem e List.mem_cons_self
  -- `e` alone divides the source, and the edits behind it work on `after` only
  obtain ⟨before, replaced, after, hsource, hstart, hstop⟩ :=
    he.divide [] source rfl (Nat.zero_le _)
  rw [Text.size_nil, Nat.zero_add] at hstart
  have hsize : (before ++ replaced).size = e.span.stop := by
    rw [Text.size_append, hstart, hstop]
  obtain ⟨output, -, hfold⟩ := exists_laid later (before ++ replaced) after hsource
    (fun f hf => hmem f (List.mem_cons_of_mem e hf)) hlater (fun f hf => hsize ▸ hnext f hf)
  rw [hfold]
  refine ⟨he.start_le_stop, ?_, ?_, ?_⟩
  · rw [Text.size_append, hsize]
    exact Nat.le_add_right _ _
  · rw [List.append_assoc, ← hstart]
    exact Text.isBoundary_size_append _ _
  · rw [← hsize]
    exact Text.isBoundary_size_append _ _

/-- **Applying a batch is one splice.** A batch is applied if and only if it fits the text. Then
old and new text are the same gaps, filled with what the edits replace and with what they put
there, in the order of the edits; and each edit meets a text that can be cut at both ends of its
range. -/
theorem apply_eq_weave (batch : Batch) (source : Text) :
    match batch.apply source with
    | .error _ => ¬ batch.Fits source
    | .ok output =>
      batch.Fits source ∧
      (∃ gaps replaced, gaps? source 0 batch.ordered = some gaps ∧
        batch.ordered.map (fun e => source.slice? e.span.start e.span.stop) = replaced.map some ∧
        source = weave gaps replaced ∧
        output = weave gaps (batch.ordered.map Edit.text)) ∧
      ∀ earlier e later, batch.ascending = earlier ++ e :: later →
        Sits (later.foldr splice source) e := by
  cases h : batch.apply source with
  | error error =>
    intro hfits
    obtain ⟨output, -, happly⟩ := exists_laid_of_fits hfits
    rw [happly] at h
    cases h
  | ok output =>
    obtain ⟨hfits, hlaid⟩ := laid_of_apply h
    refine ⟨hfits, hlaid.exists_gaps [] rfl rfl, ?_⟩
    intro earlier e later hsplit
    exact hfits.sits_in_met (ascending_eq_ordered batch ▸ hsplit)

/-- Two insertions and a replacement that start at one offset come out in the order of addition. -/
example :
    Batch.apply [⟨⟨1, 1⟩, ['x']⟩, ⟨⟨1, 1⟩, ['y']⟩, ⟨⟨1, 3⟩, ['z']⟩] ['a', 'é', 'b']
      = .ok ['a', 'x', 'y', 'z', 'b'] := by
  rfl

end Retouch.Batch
