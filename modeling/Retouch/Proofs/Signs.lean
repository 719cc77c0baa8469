import Retouch.Proofs.Scanning

/-!
# Punctuators

The longest punctuator at the start of a text is read. Which one that is depends on the text behind
it only through one character.

- `Punct.extend?`: the punctuator that one becomes with another character behind it.
- `signOf_append`: a punctuator is read when what follows does not make it a longer one.
- `extend?_of_signOf`: and only then.
-/

namespace Retouch.Syntax

/-- The punctuator that one becomes with another character behind it. -/
def Punct.extend? : Punct → Char → Option Punct
  | .question, '?' => some .nullish
  | .nullish, '=' => some .nullishEq
  | .eq, '>' => some .arrow
  | .eq, '=' => some .eqEq
  | .eqEq, '=' => some .eqEqEq
  | .bang, '=' => some .bangEq
  | .bangEq, '=' => some .bangEqEq
  | .lt, '=' => some .ltEq
  | .lt, '<' => some .shl
  | .shl, '=' => some .shlEq
  | .gt, '=' => some .gtEq
  | .gt, '>' => some .shr
  | .shr, '=' => some .shrEq
  | .shr, '>' => some .ushr
  | .ushr, '=' => some .ushrEq
  | .plus, '+' => some .plusPlus
  | .plus, '=' => some .plusEq
  | .minus, '-' => some .minusMinus
  | .minus, '=' => some .minusEq
  | .star, '=' => some .starEq
  | .star, '*' => some .power
  | .power, '=' => some .powerEq
  | .slash, '=' => some .slashEq
  | .percent, '=' => some .percentEq
  | .amp, '&' => some .ampAmp
  | .amp, '=' => some .ampEq
  | .ampAmp, '=' => some .ampAmpEq
  | .bar, '|' => some .barBar
  | .bar, '=' => some .barEq
  | .barBar, '=' => some .barBarEq
  | .caret, '=' => some .caretEq
  | _, _ => none

theorem Punct.text_extend? {p q : Punct} {c : Char} (h : p.extend? c = some q) :
    q.text.toList = p.text.toList ++ [c] ∧ q ≠ .dot := by
  unfold Punct.extend? at h
  split at h
  all_goals cases h
  all_goals exact ⟨rfl, nofun⟩

/-- A punctuator is the one that is read when it cannot be made longer. Three points make one, so
a second point is out of place behind the first. -/
theorem signOf_append (p : Punct) {z : Text}
    (hz : ∀ c rest, z = c :: rest → p.extend? c = none ∧ (p = .dot → c ≠ '.')) :
    signOf (p.text.toList ++ z) = some (p, p.text.length) := by
  cases z with
  | nil => cases p <;> rfl
  | cons c rest =>
    obtain ⟨hextend, hdot⟩ := hz c rest rfl
    cases p
    case question | nullish | eq | eqEq | bang | bangEq | lt | shl | gt | shr | ushr | plus |
        minus | star | power | slash | percent | amp | ampAmp | bar | barBar | caret =>
      simp only [Punct.text, String.reduceToList, List.cons_append, List.nil_append]
      rw [signOf]
      · rfl
      all_goals
        intro t h
        cases h
        cases hextend
    case dot =>
      simp only [Punct.text, String.reduceToList, List.cons_append, List.nil_append]
      rw [signOf]
      · rfl
      · intro t h
        cases h
        exact hdot rfl rfl
    all_goals rfl

theorem text_of_signOf {text : Text} {p : Punct} {k : Nat} (h : signOf text = some (p, k)) :
    k = p.text.length ∧ p.text.toList <+: text := by
  unfold signOf at h
  split at h
  case h_59 =>
    split at h
    · next hquote =>
      cases h
      have hc := (Char.ofNat_toNat _).symm.trans (congrArg Char.ofNat (eq_of_beq hquote))
      exact ⟨rfl, _, by rw [hc]; rfl⟩
    · cases h
  case h_60 => cases h
  all_goals
    cases h
    exact ⟨rfl, _, rfl⟩

/-- Where a punctuator stands, one at least as long is read. -/
theorem signOf_length (p : Punct) (hp : p ≠ .dot) (rest : Text) :
    ∃ q k, signOf (p.text.toList ++ rest) = some (q, k) ∧ p.text.length ≤ k := by
  induction rest generalizing p with
  | nil => exact ⟨p, p.text.length, signOf_append p nofun, Nat.le_refl _⟩
  | cons c rest ih =>
    cases hextend : p.extend? c with
    | none =>
      refine ⟨p, p.text.length, signOf_append p fun d rest' h => ?_, Nat.le_refl _⟩
      cases h
      exact ⟨hextend, fun h => absurd h hp⟩
    | some longer =>
      obtain ⟨htext, hdot⟩ := Punct.text_extend? hextend
      obtain ⟨q, k, hq, hk⟩ := ih longer hdot
      rw [htext, List.append_assoc] at hq
      refine ⟨q, k, hq, ?_⟩
      have hlength := congrArg List.length htext
      rw [List.length_append, String.length_toList, String.length_toList] at hlength
      omega

/-- A punctuator that is read cannot be made longer by what stands behind it. -/
theorem extend?_of_signOf {p : Punct} {c : Char} {rest : Text} {k : Nat}
    (h : signOf (p.text.toList ++ c :: rest) = some (p, k)) : p.extend? c = none := by
  cases hextend : p.extend? c with
  | none => rfl
  | some longer =>
    obtain ⟨htext, hdot⟩ := Punct.text_extend? hextend
    obtain ⟨q, k', hq, hk⟩ := signOf_length longer hdot rest
    rw [htext, List.append_assoc] at hq
    cases h.symm.trans hq
    have hlength := congrArg List.length htext
    rw [List.length_append, String.length_toList, String.length_toList] at hlength
    have hshort := (text_of_signOf h).1
    have hone : [c].length = 1 := rfl
    omega

end Retouch.Syntax
