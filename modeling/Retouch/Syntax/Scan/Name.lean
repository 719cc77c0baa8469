import Retouch.Syntax.Scan.Trivia
import Retouch.Text.CharClass

/-!
# Names

A name starts with a letter, `$` or `_` and goes on with these, digits and joiners. Any of its
characters may be written as an escape; what an escape stands for must be able to go on in a name.

- `isNameStart`, `isNamePart`: the characters of names.
- `scanName`: the longest name at a place.
-/

namespace Retouch.Syntax

/-- Characters that can start a name. -/
def isNameStart (c : Char) : Bool :=
  if c.toNat < 128 then c.isAlpha || c == '$' || c == '_' else CharClass.has CharClass.idStart c

/-- Characters that can go on in a name. -/
def isNamePart (c : Char) : Bool :=
  if c.toNat < 128 then c.isAlphanum || c == '$' || c == '_'
  else c.toNat == 0x200C || c.toNat == 0x200D || CharClass.has CharClass.idContinue c

/-- Value of a hexadecimal digit. -/
def hexDigit? (c : Char) : Option Nat :=
  let n := c.toNat
  if 48 ≤ n && n ≤ 57 then some (n - 48)
  else if 97 ≤ n && n ≤ 102 then some (n - 87)
  else if 65 ≤ n && n ≤ 70 then some (n - 55)
  else none

/-- Whether a name's next character is written plainly or inside an escape, which starts at an
offset. -/
inductive NameMode where
  | plain
  | fixed (start left value : Nat)
  | braced (start count value : Nat)

/-- A name, the complaints that it gives rise to, what is wrong with it, and the place after it. -/
structure ScannedName where
  chars : Text
  /-- some character is written as an escape -/
  escaped : Bool
  /-- the first character is written as an escape -/
  startsEscaped : Bool
  notes : List SyntaxError
  place : Place
  error : Option SyntaxError

/-- What has been read of a name: its characters in reverse, and complaints. -/
structure NameSoFar where
  chars : Text := []
  escaped : Bool := false
  startsEscaped : Bool := false
  notes : List SyntaxError := []

/-- The complaint about an escape that lacks its digits. -/
def badEscape (start : Nat) (expected : String) : SyntaxError :=
  ⟨start, "Bad character escape sequence, expected " ++ expected⟩

/-- The complaint about an escape beyond the last code point. -/
def escapeOutOfRange (start : Nat) : SyntaxError :=
  badEscape start "1-6 hex characters in the range 0 to 10FFFF."

namespace NameSoFar

/-- Add a plain character. -/
def push (name : NameSoFar) (c : Char) : NameSoFar :=
  { name with chars := c :: name.chars }

/-- Add a character that is written as an escape. -/
def pushEscape (name : NameSoFar) (start value : Nat) : NameSoFar :=
  let c := Char.ofNat value
  { chars := c :: name.chars
    escaped := true
    startsEscaped := name.startsEscaped || name.chars.isEmpty
    notes := if isNamePart c then name.notes
      else name.notes ++ [⟨start, "Invalid character in identifier"⟩] }

/-- The name, up to a place. -/
def finish (name : NameSoFar) (place : Place) (error : Option SyntaxError) : ScannedName :=
  ⟨name.chars.reverse, name.escaped, name.startsEscaped, name.notes, place, error⟩

end NameSoFar

/-- Read the rest of a name. -/
def nameFrom : Text → Nat → NameSoFar → NameMode → ScannedName
  | [], n, name, .plain => name.finish ⟨[], n⟩ none
  | [], n, name, .fixed start _ _ =>
    name.finish ⟨[], n⟩ (some (badEscape start "4 hex characters"))
  | [], n, name, .braced start _ _ =>
    name.finish ⟨[], n⟩ (some ⟨start, "Invalid unicode escape"⟩)
  | '\\' :: 'u' :: '\x7b' :: rest, n, name, .plain =>
    nameFrom rest (n + 3) name (.braced n 0 0)
  | '\\' :: 'u' :: rest, n, name, .plain => nameFrom rest (n + 2) name (.fixed n 4 0)
  | c :: rest, n, name, .plain =>
    if isNamePart c then nameFrom rest (n + c.utf8Size) (name.push c) .plain
    else if c == '\\' then
      name.finish ⟨c :: rest, n⟩ (some ⟨n, "Expected unicode escape"⟩)
    else name.finish ⟨c :: rest, n⟩ none
  | c :: rest, n, name, .fixed start left value =>
    match hexDigit? c with
    | none => name.finish ⟨c :: rest, n⟩ (some (badEscape start "4 hex characters"))
    | some d =>
      if left ≤ 1 then nameFrom rest (n + 1) (name.pushEscape start (16 * value + d)) .plain
      else nameFrom rest (n + 1) name (.fixed start (left - 1) (16 * value + d))
  | c :: rest, n, name, .braced start count value =>
    match hexDigit? c with
    | some d => nameFrom rest (n + 1) name (.braced start (count + 1) (16 * value + d))
    | none =>
      if count == 0 then
        name.finish ⟨c :: rest, n⟩ (some (badEscape start "1-6 hex characters"))
      else if 0x110000 ≤ value then
        name.finish ⟨c :: rest, n⟩ (some (escapeOutOfRange start))
      else if c == '\x7d' then
        nameFrom rest (n + 1) (name.pushEscape start value) .plain
      else
        name.finish ⟨c :: rest, n⟩ (some ⟨start, "Invalid unicode escape"⟩)

/-- The longest name at a place. -/
def scanName (place : Place) : ScannedName :=
  nameFrom place.rest place.offset {} .plain

/-- The characters at a place that can go on in a name, none of them written as an escape. -/
def scanNameParts : Text → Nat → Text × Place
  | [], n => ([], ⟨[], n⟩)
  | c :: rest, n =>
    if isNamePart c then
      let (chars, place) := scanNameParts rest (n + c.utf8Size)
      (c :: chars, place)
    else
      ([], ⟨c :: rest, n⟩)

end Retouch.Syntax
