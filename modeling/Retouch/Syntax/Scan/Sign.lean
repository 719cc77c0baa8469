import Retouch.Syntax.Scan.Trivia

/-!
# Punctuators

- `scanSign`: the longest punctuator at a place.
-/

namespace Retouch.Syntax

/-- The longest punctuator that a text starts with, and its length. -/
def signOf : Text → Option (Punct × Nat)
  | '(' :: _ => some (.lparen, 1)
  | ')' :: _ => some (.rparen, 1)
  | '[' :: _ => some (.lbracket, 1)
  | ']' :: _ => some (.rbracket, 1)
  | '\x7b' :: _ => some (.lbrace, 1)
  | '\x7d' :: _ => some (.rbrace, 1)
  | ';' :: _ => some (.semi, 1)
  | ',' :: _ => some (.comma, 1)
  | ':' :: _ => some (.colon, 1)
  | '~' :: _ => some (.tilde, 1)
  | '@' :: _ => some (.atSign, 1)
  | '#' :: _ => some (.hash, 1)
  | '.' :: '.' :: '.' :: _ => some (.ellipsis, 3)
  | '.' :: _ => some (.dot, 1)
  | '?' :: '?' :: '=' :: _ => some (.nullishEq, 3)
  | '?' :: '?' :: _ => some (.nullish, 2)
  | '?' :: _ => some (.question, 1)
  | '=' :: '=' :: '=' :: _ => some (.eqEqEq, 3)
  | '=' :: '=' :: _ => some (.eqEq, 2)
  | '=' :: '>' :: _ => some (.arrow, 2)
  | '=' :: _ => some (.eq, 1)
  | '!' :: '=' :: '=' :: _ => some (.bangEqEq, 3)
  | '!' :: '=' :: _ => some (.bangEq, 2)
  | '!' :: _ => some (.bang, 1)
  | '<' :: '<' :: '=' :: _ => some (.shlEq, 3)
  | '<' :: '<' :: _ => some (.shl, 2)
  | '<' :: '=' :: _ => some (.ltEq, 2)
  | '<' :: _ => some (.lt, 1)
  | '>' :: '>' :: '>' :: '=' :: _ => some (.ushrEq, 4)
  | '>' :: '>' :: '>' :: _ => some (.ushr, 3)
  | '>' :: '>' :: '=' :: _ => some (.shrEq, 3)
  | '>' :: '>' :: _ => some (.shr, 2)
  | '>' :: '=' :: _ => some (.gtEq, 2)
  | '>' :: _ => some (.gt, 1)
  | '+' :: '+' :: _ => some (.plusPlus, 2)
  | '+' :: '=' :: _ => some (.plusEq, 2)
  | '+' :: _ => some (.plus, 1)
  | '-' :: '-' :: _ => some (.minusMinus, 2)
  | '-' :: '=' :: _ => some (.minusEq, 2)
  | '-' :: _ => some (.minus, 1)
  | '*' :: '*' :: '=' :: _ => some (.powerEq, 3)
  | '*' :: '*' :: _ => some (.power, 2)
  | '*' :: '=' :: _ => some (.starEq, 2)
  | '*' :: _ => some (.star, 1)
  | '/' :: '=' :: _ => some (.slashEq, 2)
  | '/' :: _ => some (.slash, 1)
  | '%' :: '=' :: _ => some (.percentEq, 2)
  | '%' :: _ => some (.percent, 1)
  | '&' :: '&' :: '=' :: _ => some (.ampAmpEq, 3)
  | '&' :: '&' :: _ => some (.ampAmp, 2)
  | '&' :: '=' :: _ => some (.ampEq, 2)
  | '&' :: _ => some (.amp, 1)
  | '|' :: '|' :: '=' :: _ => some (.barBarEq, 3)
  | '|' :: '|' :: _ => some (.barBar, 2)
  | '|' :: '=' :: _ => some (.barEq, 2)
  | '|' :: _ => some (.bar, 1)
  | '^' :: '=' :: _ => some (.caretEq, 2)
  | '^' :: _ => some (.caret, 1)
  | c :: _ => if c.toNat == 0x60 then some (.backquote, 1) else none
  | [] => none

/-- The longest punctuator at a place, and the place after it. -/
def scanSign (place : Place) : Option (Punct × Place) :=
  (signOf place.rest).map fun sign =>
    (sign.1, ⟨place.rest.drop sign.2, place.offset + sign.2⟩)

end Retouch.Syntax
