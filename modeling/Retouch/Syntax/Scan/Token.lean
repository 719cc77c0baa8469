import Retouch.Syntax.Scan.Sign
import Retouch.Syntax.Scan.Number
import Retouch.Syntax.Scan.Quoted

/-!
# The next token

- `scanToken`: skip what stands between tokens and read one token. A slash is read as a sign;
  the grammar reads it again where a regular expression may stand.
-/

namespace Retouch.Syntax

/-- A token, the complaints that it gives rise to, and the places around it. -/
structure Scanned where
  token : Token
  notes : List SyntaxError
  here : Place
  after : Place

/-- The kind of a token that is a name or keyword. -/
def wordKind (strict : Bool) (start : Nat) (name : ScannedName) : TokenKind :=
  match name.error with
  | some e => .bad e
  | none =>
    let text := String.ofList name.chars
    match if name.startsEscaped then none else Keyword.ofText? text with
    | none => .word ⟨text, none⟩
    | some k =>
      if name.escaped && k.deniesEscapes strict then
        .bad ⟨start, "Unexpected escape sequence in reserved word: " ++ text⟩
      else
        .word ⟨text, some k⟩

/-- The kind of the token at a place, its complaints, and the place after it. -/
def scanKind (strict : Bool) (place : Place) : TokenKind × List SyntaxError × Place :=
  match place.rest with
  | [] => (.eof, [], place)
  | c :: rest =>
    if isNameStart c || c == '\\' then
      let name := scanName place
      (wordKind strict place.offset name, name.notes, name.place)
    else if c.isDigit || (c == '.' && rest.head?.any Char.isDigit) then
      let number := scanNumber place
      (number.kind, number.notes, number.place)
    else if c == '"' || c == '\x27' then
      let string := scanString place
      (string.kind, string.notes, string.place)
    else
      match scanSign place with
      | some (sign, after) => (.punct sign, [], after)
      | none =>
        (.bad ⟨place.offset, "Unexpected character '" ++ String.singleton c ++ "'"⟩, [],
          ⟨rest, place.offset + c.utf8Size⟩)

/-- Skip white space and comments and read a token. -/
def scanToken (place : Place) (strict : Bool := true) : Scanned :=
  let trivia := skipTrivia place
  let here := trivia.place
  match trivia.error with
  | some e => ⟨⟨.bad e, here.offset, here.offset, trivia.sawBreak⟩, trivia.notes, here, here⟩
  | none =>
    let (kind, notes, after) := scanKind strict here
    ⟨⟨kind, here.offset, after.offset, trivia.sawBreak⟩, trivia.notes ++ notes, here, after⟩

end Retouch.Syntax
