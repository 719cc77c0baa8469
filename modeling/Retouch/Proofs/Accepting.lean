import Retouch.Config.Basic
import Retouch.Document
import Retouch.Proofs.Parsing.Constant

/-!
# Names that a configuration accepts

A configuration gives the name of the variable that an extraction declares. The check of a
configuration looks only at the characters of the name, and it takes letters and numbers where the
language takes the characters of identifiers.

- `CharClass.coveredFrom`: whether one class of characters lies in another.
- `Config.exists_stray`: where a name that is accepted is no identifier, a stray character is left.
- `Config.isBindingIdentifier`: whether a module can bind a name.
- `Config.validated_name_binds_iff`: of the accepted names these can be declared, and no others.
-/

namespace Retouch

namespace CharClass

theorem hasFrom_cons_sub {n x y : Nat} (hx : x ≤ n) (hy : x ≤ y) (inside : Bool) (ys : List Nat) :
    hasFrom n inside (y :: ys) = hasFrom (n - x) inside ((y - x) :: ys) := by
  rw [hasFrom, hasFrom, Nat.sub_sub_sub_cancel_right hy]
  exact if_congr (Nat.sub_le_sub_iff_right hx).symm rfl rfl

/-- Whether what is in one table is in another, where both are given from some code point on. The
fuel is used up by one with every code point at which a table changes. -/
def coveredFrom : Nat → Bool → List Nat → Bool → List Nat → Bool
  | 0, _, _, _, _ => false
  | _ + 1, inner, [], outer, runs => !inner || outer && runs.isEmpty
  | _ + 1, _, _ :: _, outer, [] => outer
  | fuel + 1, inner, x :: xs, outer, y :: ys =>
    (!inner || outer) &&
      if x < y then coveredFrom fuel (!inner) xs outer ((y - x) :: ys)
      else if y < x then coveredFrom fuel inner ((x - y) :: xs) (!outer) ys
      else coveredFrom fuel (!inner) xs (!outer) ys

theorem hasFrom_of_coveredFrom {fuel : Nat} {inner outer : Bool} {xs ys : List Nat} {n : Nat}
    (h : coveredFrom fuel inner xs outer ys = true) (hn : hasFrom n inner xs = true) :
    hasFrom n outer ys = true := by
  induction fuel generalizing inner outer xs ys n with
  | zero => cases h
  | succ fuel ih =>
    cases xs with
    | nil =>
      obtain rfl : inner = true := hn
      obtain ⟨rfl, hys⟩ := Bool.and_eq_true_iff.mp ((Bool.false_or _).symm.trans h)
      rw [List.isEmpty_iff.mp hys]
      rfl
    | cons x xs =>
      cases ys with
      | nil => exact h
      | cons y ys =>
        obtain ⟨hfirst, hbehind⟩ := Bool.and_eq_true_iff.mp h
        by_cases hboth : n < x ∧ n < y
        · -- The code point falls into the first run of both tables.
          rw [hasFrom, if_neg (by omega)] at hn ⊢
          rw [hn] at hfirst
          exact hfirst
        split at hbehind
        · next hlt =>
          have hx : x ≤ n := by omega
          rw [hasFrom, if_pos hx] at hn
          rw [hasFrom_cons_sub hx hlt.le]
          exact ih hbehind hn
        · split at hbehind
          · next hlt =>
            have hy : y ≤ n := by omega
            rw [hasFrom_cons_sub hy hlt.le] at hn
            rw [hasFrom, if_pos hy]
            exact ih hbehind hn
          · obtain rfl : x = y := by omega
            rw [hasFrom, if_pos (by omega)] at hn ⊢
            exact ih hbehind hn

set_option maxRecDepth 40000 in
theorem has_idContinue {c : Char} (h : has idStart c = true) : has idContinue c = true := by
  have hcovered : coveredFrom (idStart.length + idContinue.length + 1) false idStart
      false idContinue = true := by
    decide
  exact hasFrom_of_coveredFrom hcovered h

end CharClass

namespace Config

open Syntax (Dialect SyntaxError isGap isStray isPlainWord)

/-! ## The characters of accepted names -/

theorem isNamePart_of_isNameStart {c : Char} (h : Syntax.isNameStart c = true) :
    Syntax.isNamePart c = true := by
  unfold Syntax.isNameStart at h
  unfold Syntax.isNamePart
  split at h
  · next hc =>
    rw [if_pos hc, Char.isAlphanum]
    simp only [Bool.or_eq_true] at h ⊢
    rcases h with (h | h) | h
    · exact .inl (.inl (.inl h))
    · exact .inl (.inr h)
    · exact .inr h
  · next hc => rw [if_neg hc, CharClass.has_idContinue h, Bool.or_true]

set_option maxRecDepth 10000 in
/-- In ASCII an accepted name is an identifier, and no white space is accepted. -/
theorem accepted_codes :
    (∀ n < 128, (isNameStart (Char.ofNat n) = true → Syntax.isNameStart (Char.ofNat n) = true) ∧
      (isNamePart (Char.ofNat n) = true → Syntax.isNamePart (Char.ofNat n) = true)) ∧
    ∀ n ∈ Syntax.gapCodes, isNamePart (Char.ofNat n) = false := by
  decide

theorem isNameStart_of_ascii {c : Char} (hc : c.toNat < 128) (h : isNameStart c = true) :
    Syntax.isNameStart c = true := by
  have hstart := (accepted_codes.1 c.toNat hc).1
  rw [Char.ofNat_toNat] at hstart
  exact hstart h

theorem isNamePart_of_ascii {c : Char} (hc : c.toNat < 128) (h : isNamePart c = true) :
    Syntax.isNamePart c = true := by
  have hpart := (accepted_codes.1 c.toNat hc).2
  rw [Char.ofNat_toNat] at hpart
  exact hpart h

theorem isGap_eq_false {c : Char} (h : isNamePart c = true) : isGap c = false := by
  refine Bool.eq_false_iff.mpr fun hgap => ?_
  have hnot := accepted_codes.2 c.toNat (Syntax.mem_gapCodes hgap)
  rw [Char.ofNat_toNat] at hnot
  cases hnot.symm.trans h

theorem isStray_of_isNamePart {c : Char} (h : isNamePart c = true) (hc : ¬ c.toNat < 128)
    (hstart : Syntax.isNameStart c = false) : isStray c = true := by
  refine Syntax.isStray_iff.mpr ⟨fun hshort => hc ?_, isGap_eq_false h, hstart⟩
  exact Nat.lt_succ_of_le (UInt32.le_iff_toNat_le.mp (Char.utf8Size_eq_one_iff.mp hshort))

/-- The longest plain start of an accepted name that is no identifier, and the stray character
behind it. -/
theorem exists_stray {c : Char} {rest : Text} (hparts : (c :: rest).all isNamePart = true)
    (hstart : Syntax.isNameStart c = true) (hplain : (c :: rest).all Syntax.isNamePart = false) :
    ∃ w d z, c :: rest = w ++ d :: z ∧ isPlainWord w = true ∧ isStray d = true ∧
      Syntax.isNamePart d = false := by
  have hsplit := List.takeWhile_append_dropWhile (p := Syntax.isNamePart) (l := c :: rest)
  cases hdrop : (c :: rest).dropWhile Syntax.isNamePart with
  | nil =>
    have hall := List.all_eq_true.mpr (List.dropWhile_eq_nil_iff.mp hdrop)
    cases hplain.symm.trans hall
  | cons d z =>
    have hd : Syntax.isNamePart d = false := by
      have hhead := List.head?_dropWhile_not Syntax.isNamePart (c :: rest)
      rw [hdrop] at hhead
      exact hhead
    rw [hdrop] at hsplit
    rw [← hsplit, List.all_append, List.all_cons, Bool.and_eq_true, Bool.and_eq_true] at hparts
    obtain ⟨-, hpart, -⟩ := hparts
    have hnotStart : Syntax.isNameStart d = false := by
      refine Bool.eq_false_iff.mpr fun h => ?_
      cases hd.symm.trans (isNamePart_of_isNameStart h)
    have hlong : ¬ d.toNat < 128 := fun hlt => by
      cases hd.symm.trans (isNamePart_of_ascii hlt hpart)
    refine ⟨_, d, z, hsplit.symm, ?_, isStray_of_isNamePart hpart hlong hnotStart, hd⟩
    rw [isPlainWord, List.all_takeWhile, Bool.and_true,
      List.takeWhile_cons_of_pos (isNamePart_of_isNameStart hstart)]
    exact hstart

/-! ## Declaring an accepted name -/

/-- The declaration of a constant with a given name. -/
def constantText (name : String) : Text := "const ".toList ++ (name.toList ++ " = 0;".toList)

/-- Whether a module can bind a name: it is an identifier of the language and not reserved. -/
def isBindingIdentifier (name : String) : Bool :=
  isPlainWord name.toList && (Syntax.Parser.plainWord name.toList).isBindable

/-- A constant with the name can be declared, and nothing else is declared with it. -/
def Binds (dialect : Dialect) (name : String) : Prop :=
  ∃ d, Document.parse dialect (constantText name) = .ok d ∧
    d.program.parts.flatMap Syntax.Node.declaredNames = [name]

theorem withoutMark_constantText (name : String) :
    Document.withoutMark (constantText name) = constantText name := rfl

theorem binds_of_isBindingIdentifier {name : String} (h : isBindingIdentifier name = true)
    (dialect : Dialect) : Binds dialect name := by
  obtain ⟨hplain, hbindable⟩ := Bool.and_eq_true_iff.mp h
  obtain ⟨tree, htree, hnames⟩ := Syntax.Parser.parse_bindable dialect hplain hbindable
  rw [String.ofList_toList] at hnames
  have htext : Syntax.parse dialect (constantText name) = .ok tree := htree
  refine ⟨⟨constantText name, tree⟩, ?_, hnames⟩
  rw [Document.parse, withoutMark_constantText, htext]

theorem parse_constantText_error {name : String} (hname : isIdentifier name = true)
    (h : isBindingIdentifier name = false) (dialect : Dialect) :
    ∃ e, Syntax.parse dialect (constantText name) = .error e := by
  unfold isIdentifier at hname
  unfold isBindingIdentifier at h
  unfold constantText
  cases htext : name.toList with
  | nil =>
    rw [htext] at hname
    cases hname
  | cons c rest =>
    rw [htext] at hname h
    obtain ⟨hstart, hrest⟩ := Bool.and_eq_true_iff.mp hname
    have hpart : isNamePart c = true := by rw [isNamePart, hstart, Bool.true_or]
    have hparts : (c :: rest).all isNamePart = true := by rw [List.all_cons, hpart, hrest]; rfl
    cases hc : Syntax.isNameStart c with
    | false =>
      have hlong : ¬ c.toNat < 128 := fun hlt => by
        cases hc.symm.trans (isNameStart_of_ascii hlt hstart)
      exact Syntax.Parser.parse_strayStart dialect (isStray_of_isNamePart hpart hlong hc)
    | true =>
      cases hplain : (c :: rest).all Syntax.isNamePart with
      | true =>
        have hword : isPlainWord (c :: rest) = true := by
          rw [isPlainWord, hplain, List.head?_cons, Option.any_some, hc]
          rfl
        rw [hword, Bool.true_and] at h
        exact Syntax.Parser.parse_unbindable dialect hword h
      | false =>
        obtain ⟨w, d, z, hsplit, hword, hstray, hd⟩ := exists_stray hparts hc hplain
        rw [hsplit, List.append_assoc]
        exact Syntax.Parser.parse_strayPart dialect hword hstray hd

/-- A name that is accepted but cannot be bound makes a declaration that is not read. -/
theorem document_constantText_error {name : String} (hname : isIdentifier name = true)
    (h : isBindingIdentifier name = false) (dialect : Dialect) :
    ∃ fault, Document.parse dialect (constantText name) = .error fault := by
  obtain ⟨e, he⟩ := parse_constantText_error hname h dialect
  rw [Document.parse, withoutMark_constantText, he]
  exact ⟨_, rfl⟩

theorem isIdentifier_of_validate {c : Config} (h : c.validate = .ok ()) :
    isIdentifier c.extractedName = true := by
  unfold validate at h
  split at h
  · cases h
  split at h
  · cases h
  · next hname => simpa using hname

/-- The name of a valid configuration can be bound exactly if it is an identifier of the language
and not reserved. With every other one the declaration is not read. -/
theorem validated_name_binds_iff {c : Config} (h : c.validate = .ok ()) (dialect : Dialect) :
    (Binds dialect c.extractedName ↔ isBindingIdentifier c.extractedName = true) ∧
      (isBindingIdentifier c.extractedName = false →
        ∃ fault, Document.parse dialect (constantText c.extractedName) = .error fault) := by
  have hfails (hnot : isBindingIdentifier c.extractedName = false) :=
    document_constantText_error (isIdentifier_of_validate h) hnot dialect
  refine ⟨⟨fun hbinds => ?_, fun hname => binds_of_isBindingIdentifier hname dialect⟩, hfails⟩
  obtain ⟨d, hd, -⟩ := hbinds
  cases hname : isBindingIdentifier c.extractedName with
  | true => rfl
  | false =>
    obtain ⟨fault, hfault⟩ := hfails hname
    cases hd.symm.trans hfault

/-- A name with letters outside ASCII can be bound, and one with a raised digit cannot. -/
theorem validated_name_binds_iff_raised :
    (({ extractedName := "été_2" } : Config).validate = .ok () ∧ Binds {} "été_2") ∧
      ({ extractedName := "été²" } : Config).validate = .ok () ∧ ¬ Binds {} "été²" := by
  have hdigit : ({ extractedName := "été_2" } : Config).validate = .ok () := by decide
  have hraised : ({ extractedName := "été²" } : Config).validate = .ok () := by decide
  refine ⟨⟨hdigit, (validated_name_binds_iff hdigit {}).1.mpr (by decide)⟩, hraised, ?_⟩
  exact mt (validated_name_binds_iff hraised {}).1.mp (by decide)

/-- A reserved word is accepted, but nothing can be declared with it. -/
theorem class_validated_not_bound :
    ({ extractedName := "class" } : Config).validate = .ok () ∧ ¬ Binds {} "class" := by
  refine ⟨by decide, ?_⟩
  rintro ⟨d, hd, -⟩
  have hname : isIdentifier "class" = true := by decide
  obtain ⟨fault, hfault⟩ := document_constantText_error hname (by decide) {}
  cases hd.symm.trans hfault

end Config

end Retouch
