import Retouch.Proofs.Edits
import Retouch.Proofs.Plan

/-!
# Offered refactorings go through

A refactoring is offered where it finds a target. Here this is tied to what happens when it is asked
for: with a target it gives a transformation that can be applied, without one it declines, and a
fault is no third way.

- `Refactoring.transform_of_canPerform`, `Refactoring.transform_of_not_canPerform`: the two ways.
- `Refactoring.plan_declines_iff`: when planning declines.
- `Refactoring.offered_goes_through`: offered refactorings go through, and those that are offered
  are those that planning does not decline.
-/

namespace Retouch

variable {d : Document} {s : Selection}

namespace Refactoring

/-- What a refactoring that applies comes to. -/
theorem transform_of_canPerform (h : (Tree.ofDocument d).WellSpanned)
    (hclosed : (Tree.ofDocument d).ListsClosed)
    (hoperators : (Tree.ofDocument d).OperatorsBetween) {r : Refactoring}
    (hcan : r.canPerform (Tree.ofDocument d) s = true) (settings : Settings) :
    ∃ x, r.transform (Tree.ofDocument d) s settings = .ok x ∧ x.GoesThrough d s := by
  cases r with
  | addBraces =>
    obtain ⟨target, htarget⟩ := Option.isSome_iff_exists.mp hcan
    obtain ⟨id, e, -, -, -, hworks, -⟩ := Braces.exists_site htarget
    obtain ⟨batch, hbatch, hfits⟩ := Braces.edits_fit h htarget settings
    change ∃ x, Braces.transform (Tree.ofDocument d) s settings = .ok x ∧ x.GoesThrough d s
    unfold Braces.transform
    simp only [htarget]
    exact Transformation.goesThrough_of_bind hbatch hfits hworks.exists_span?
  | convertToSwitch =>
    obtain ⟨target, htarget⟩ := Option.isSome_iff_exists.mp hcan
    obtain ⟨id, e, hworks, hhead, hform, -⟩ := Switch.exists_site htarget
    obtain ⟨text, htext⟩ := Switch.switchText_succeeds h.proper h.cut htarget settings
    have hshown := (h.shows_node hworks.entry (by rw [hform]; exact nofun)).1
    have hfits : Batch.Fits [⟨d.range target.head.span, text⟩] d.text :=
      Batch.fits_of_pairwise (by simpa [hhead] using h.cut.sits hshown text)
        (List.pairwise_singleton _ _)
    change ∃ x, Switch.transform (Tree.ofDocument d) s settings = .ok x ∧ x.GoesThrough d s
    unfold Switch.transform
    simp only [htarget]
    exact Transformation.goesThrough_of_bind htext hfits hworks.exists_span?
  | extractVariable =>
    obtain ⟨target, htarget⟩ := Option.isSome_iff_exists.mp hcan
    obtain ⟨x, hx⟩ := Variable.transform_succeeds h htarget settings
    obtain ⟨statement, outer, id, e, code, hworks, -, he, -, hinside, rfl⟩ :=
      Variable.transform_ok h.nested hx
    exact ⟨_, hx, Variable.patches_goThrough hworks he hinside code _ _⟩
  | extractGenericType =>
    obtain ⟨target, htarget⟩ := Option.isSome_iff_exists.mp hcan
    obtain ⟨id, e, -, hworks, -⟩ := GenericType.exists_site h.nested htarget
    obtain ⟨type, htype, ⟨written, hwritten⟩, hfits⟩ := GenericType.edits_fit h hclosed htarget
    change ∃ x, GenericType.transform (Tree.ofDocument d) s = .ok x ∧ x.GoesThrough d s
    unfold GenericType.transform
    simp only [htarget, htype]
    exact Transformation.goesThrough_of_bind hwritten (hfits written _) hworks.exists_span?
  | flipTernary =>
    obtain ⟨target, htarget⟩ := Option.isSome_iff_exists.mp hcan
    obtain ⟨id, e, hworks, -⟩ := Ternary.exists_site htarget
    obtain ⟨batch, hbatch, hfits⟩ := Ternary.edits_fit h hoperators htarget
    change ∃ x, Ternary.transform (Tree.ofDocument d) s = .ok x ∧ x.GoesThrough d s
    unfold Ternary.transform
    simp only [htarget]
    exact Transformation.goesThrough_of_bind hbatch hfits hworks.exists_span?

/-- A refactoring that does not apply says so, for its own reason. -/
theorem transform_of_not_canPerform {r : Refactoring} {t : Tree}
    (hcannot : r.canPerform t s = false) (settings : Settings) :
    r.transform t s settings = .error (.notApplicable r.reason) := by
  cases r with
  | addBraces =>
    have hnone : Braces.target? t s = none := by simpa [canPerform] using hcannot
    rw [transform, Braces.transform, hnone]
    rfl
  | convertToSwitch =>
    have hnone : Switch.target? t s = none := by simpa [canPerform] using hcannot
    rw [transform, Switch.transform, hnone]
    rfl
  | extractVariable =>
    have hnone : Variable.target? t s = none := by simpa [canPerform] using hcannot
    rw [transform, Variable.transform, hnone]
    rfl
  | extractGenericType =>
    have hnone : GenericType.target? t s = none := by simpa [canPerform] using hcannot
    rw [transform, GenericType.transform, hnone]
    rfl
  | flipTernary =>
    have hnone : Ternary.target? t s = none := by simpa [canPerform] using hcannot
    rw [transform, Ternary.transform, hnone]
    rfl

theorem mem_all (r : Refactoring) : r ∈ all := by
  cases r <;> simp [all]

/-- Planning declines exactly where a refactoring does not apply, once those that apply go
through. -/
theorem plan_declines_iff {code : Text} {settings : Settings}
    (hparse : Document.parse settings.dialect code = .ok d) {r : Refactoring}
    (hgoes : r.canPerform (Tree.ofDocument d) s = true →
      ∃ x, r.transform (Tree.ofDocument d) s settings = .ok x) :
    (∃ reason, plan r code s settings = .error (.notApplicable reason)) ↔
      r.canPerform (Tree.ofDocument d) s = false := by
  constructor
  · rintro ⟨reason, hplan⟩
    by_contra hcan
    rw [Bool.not_eq_false] at hcan
    obtain ⟨x, hx⟩ := hgoes hcan
    simp only [plan, hparse, hcan, if_true, hx] at hplan
    split at hplan
    · cases hvalidate : validate code s x settings with
      | ok u =>
        rw [hvalidate] at hplan
        cases hplan
      | error e =>
        rw [hvalidate] at hplan
        cases hplan
        -- reading the new text again declines for no reason at all
        have hfirst : reason = .noIfToBrace := validate_declines code s x settings reason hvalidate
        have hsecond : reason = .noCodeToExtract :=
          validate_declines code s x settings reason hvalidate
        rw [hfirst] at hsecond
        cases hsecond
    · cases hplan
  · intro hcannot
    exact ⟨r.reason, by simp [plan, hparse, hcannot]⟩

/-- **An offered refactoring goes through.** Let a tree be well spanned, its lists of type
parameters end in a bracket, and the operators of its equalities stand between their operands. Then
a refactoring that applies at a selection gives a transformation whose edits fit and are applied,
for an extracted variable in the form of two patches; one that does not apply says so, for its own
reason; and no refactoring ends in any other way. So the actions that are offered are those for
which planning does not decline. -/
theorem offered_goes_through {d : Document} (h : (Tree.ofDocument d).WellSpanned)
    (hclosed : (Tree.ofDocument d).ListsClosed)
    (hoperators : (Tree.ofDocument d).OperatorsBetween) (s : Selection) (settings : Settings) :
    (∀ r : Refactoring,
      (r.canPerform (Tree.ofDocument d) s = true →
        ∃ x, r.transform (Tree.ofDocument d) s settings = .ok x ∧ x.GoesThrough d s ∧
          (r = .extractVariable →
            ∃ first second, x = .patches [first, second] (some .renameSymbol))) ∧
      (r.canPerform (Tree.ofDocument d) s = false →
        r.transform (Tree.ofDocument d) s settings = .error (.notApplicable r.reason)) ∧
      (∀ f, r.transform (Tree.ofDocument d) s settings ≠ .error (.fault f)) ∧
      r.transform (Tree.ofDocument d) s settings ≠ .error .brokenSlice) ∧
    ∀ code, Document.parse settings.dialect code = .ok d →
      ∃ list, availableActions code s settings = .ok list ∧
        ∀ r, r ∈ list ↔ ¬ ∃ reason, plan r code s settings = .error (.notApplicable reason) := by
  have hgoes (r : Refactoring) (hcan : r.canPerform (Tree.ofDocument d) s = true) :=
    transform_of_canPerform h hclosed hoperators hcan settings
  refine ⟨fun r => ⟨fun hcan => ?_, fun hcannot => ?_, ?_⟩, fun code hparse => ?_⟩
  · obtain ⟨x, hx, hthrough⟩ := hgoes r hcan
    refine ⟨x, hx, hthrough, ?_⟩
    rintro rfl
    obtain ⟨-, -, -, -, -, -, -, -, -, -, rfl⟩ := Variable.transform_ok h.nested hx
    exact ⟨_, _, rfl⟩
  · exact transform_of_not_canPerform hcannot settings
  · -- the two answers that are left are neither a fault nor a broken slice
    cases hcan : r.canPerform (Tree.ofDocument d) s with
    | true =>
      obtain ⟨x, hx, -⟩ := hgoes r hcan
      rw [hx]
      exact ⟨nofun, nofun⟩
    | false =>
      rw [transform_of_not_canPerform hcan settings]
      exact ⟨nofun, nofun⟩
  · refine ⟨_, by rw [availableActions, hparse], fun r => ?_⟩
    rw [List.mem_filter, plan_declines_iff hparse fun hcan => (hgoes r hcan).imp fun _ => And.left,
      Bool.not_eq_false]
    exact ⟨And.right, fun hcan => ⟨r.mem_all, hcan⟩⟩

/-- Four refactorings at one cursor, in a document that also has type parameters. -/
theorem offered_goes_through_mixed :
    ∃ d, Document.parse {} ("interface P<K> \x7b n: string \x7d\n" ++
          "if (a === 1) f(b == 2 ? 'x' : c); else g();").toList = .ok d ∧
      (Tree.ofDocument d).WellSpanned ∧ (Tree.ofDocument d).ListsClosed ∧
      (Tree.ofDocument d).OperatorsBetween ∧
      (∀ r : Refactoring,
        r.canPerform (Tree.ofDocument d) (.cursor ⟨1, 25⟩) = true ↔ r ≠ .extractGenericType) ∧
      ∀ r : Refactoring, r ≠ .extractGenericType →
        ∃ x, r.transform (Tree.ofDocument d) (.cursor ⟨1, 25⟩) {} = .ok x ∧
          x.GoesThrough d (.cursor ⟨1, 25⟩) := by
  obtain ⟨d, hd, h, hclosed, hoperators, hcan⟩ :
      ∃ d, Document.parse {} ("interface P<K> \x7b n: string \x7d\n" ++
          "if (a === 1) f(b == 2 ? 'x' : c); else g();").toList = .ok d ∧
        (Tree.ofDocument d).WellSpanned ∧ (Tree.ofDocument d).ListsClosed ∧
        (Tree.ofDocument d).OperatorsBetween ∧
        ∀ r ∈ all, r.canPerform (Tree.ofDocument d) (.cursor ⟨1, 25⟩) = true ↔
          r ≠ .extractGenericType :=
    Document.exists_parse (by decide +kernel)
  refine ⟨d, hd, h, hclosed, hoperators, fun r => hcan r r.mem_all, fun r hr => ?_⟩
  obtain ⟨x, hx, hthrough, -⟩ := ((offered_goes_through h hclosed hoperators _ {}).1 r).1
    ((hcan r r.mem_all).mpr hr)
  exact ⟨x, hx, hthrough⟩

end Refactoring

end Retouch
