import Retouch.Syntax.Token

/-!
# White space and comments

What stands between tokens. A line comment runs to the end of its line; a block comment that is
never closed is an error at its start. The signs `<!--`, and `-->` on a line of its own, open line
comments too, but are complained about, and so are the marks of a failed merge.

- `skipTrivia`: the place of the next token, and whether a line break was passed.
-/

namespace Retouch.Syntax

/-- A place in the text: what is still to be read, and its byte offset. -/
structure Place where
  rest : Text
  offset : Nat

/-- Characters that end a line. -/
def isLineBreak (c : Char) : Bool :=
  c == '\n' || c == '\r' || c.toNat == 0x2028 || c.toNat == 0x2029

/-- Characters that separate tokens within a line. -/
def isSeparator (c : Char) : Bool :=
  let n := c.toNat
  n == 0x20 || n == 0x9 || n == 0xB || n == 0xC || n == 0xA0 || n == 0xFEFF || n == 0x1680
    || (0x2000 ≤ n && n ≤ 0x200A) || n == 0x202F || n == 0x205F || n == 0x3000

/-- Where in the space between tokens a character stands. -/
inductive TriviaMode where
  | blank
  | lineComment
  | blockComment (start : Nat)

/-- The end of a run of white space and comments, and the complaints that it gives rise to. -/
structure Trivia where
  place : Place
  sawBreak : Bool
  notes : List SyntaxError
  error : Option SyntaxError

/-- The complaint about a comment in the old style. -/
def legacyComment (start : Nat) : SyntaxError :=
  ⟨start, "Legacy comments cannot be used in module code"⟩

/-- Whether a line is a mark that a failed merge leaves. -/
def isMergeMark (text : Text) : Bool :=
  "<<<<<<< ".toList.isPrefixOf text || ">>>>>>> ".toList.isPrefixOf text
    || "=======".toList.isPrefixOf text

/-- Read white space and comments in a given mode. -/
def triviaFrom : Text → Nat → Bool → List SyntaxError → TriviaMode → Trivia
  | [], n, sawBreak, notes, .blockComment start =>
    ⟨⟨[], n⟩, sawBreak, notes, some ⟨start, "Unterminated block comment"⟩⟩
  | [], n, sawBreak, notes, _ => ⟨⟨[], n⟩, sawBreak, notes, none⟩
  | c :: rest, n, sawBreak, notes, .lineComment =>
    if isLineBreak c then triviaFrom rest (n + c.utf8Size) true notes .blank
    else triviaFrom rest (n + c.utf8Size) sawBreak notes .lineComment
  | '*' :: '/' :: rest, n, sawBreak, notes, .blockComment _ =>
    triviaFrom rest (n + 2) sawBreak notes .blank
  | c :: rest, n, sawBreak, notes, .blockComment start =>
    triviaFrom rest (n + c.utf8Size) (sawBreak || isLineBreak c) notes (.blockComment start)
  | '/' :: '/' :: rest, n, sawBreak, notes, .blank =>
    triviaFrom rest (n + 2) sawBreak notes .lineComment
  | '/' :: '*' :: rest, n, sawBreak, notes, .blank =>
    triviaFrom rest (n + 2) sawBreak notes (.blockComment n)
  | '<' :: '!' :: '-' :: '-' :: rest, n, sawBreak, notes, .blank =>
    triviaFrom rest (n + 4) sawBreak (notes ++ [legacyComment n]) .lineComment
  | '-' :: '-' :: '>' :: rest, n, true, notes, .blank =>
    triviaFrom rest (n + 3) true (notes ++ [legacyComment n]) .lineComment
  | c :: rest, n, sawBreak, notes, .blank =>
    if isLineBreak c then triviaFrom rest (n + c.utf8Size) true notes .blank
    else if isSeparator c then triviaFrom rest (n + c.utf8Size) sawBreak notes .blank
    else if sawBreak && isMergeMark (c :: rest) then
      triviaFrom rest (n + c.utf8Size) true (notes ++ [⟨n, "Merge conflict marker encountered."⟩])
        .lineComment
    else ⟨⟨c :: rest, n⟩, sawBreak, notes, none⟩

/-- Skip white space and comments. The start of the text is the start of a line. -/
def skipTrivia (place : Place) : Trivia :=
  triviaFrom place.rest place.offset (place.offset == 0) [] .blank

/-- Skip to the end of the line, which stays. -/
def skipLine : Text → Nat → Place
  | [], n => ⟨[], n⟩
  | c :: rest, n => if isLineBreak c then ⟨c :: rest, n⟩ else skipLine rest (n + c.utf8Size)

end Retouch.Syntax
