/-!
# Texts and byte offsets

A document is the list of its characters. Offsets into it count the bytes of its UTF-8 form,
so an offset may fall inside a character; such an offset is no place to cut.

- `Text.size`: the number of bytes.
- `Text.cut?`: the two parts at an offset, if the offset lies between two characters.
- `Text.slice?`: the characters of a byte range, if both ends lie between characters.
- `Text.floor`: the last cutting place at or before an offset.
- `Text.isBlank`, `Text.trim`: white space in the sense of the Unicode property.
-/

namespace Retouch

/-- A document: its characters in order. -/
abbrev Text := List Char

namespace Text

/-- Number of bytes of a text in UTF-8. -/
def size : Text → Nat
  | [] => 0
  | c :: rest => c.utf8Size + size rest

/-- The parts of a text before and after a byte offset. There are none when the offset lies
inside a character or past the end. -/
def cut? : Text → Nat → Option (Text × Text)
  | text, 0 => some ([], text)
  | [], _ + 1 => none
  | c :: rest, n + 1 =>
    if c.utf8Size ≤ n + 1 then
      (cut? rest (n + 1 - c.utf8Size)).map fun parts => (c :: parts.1, parts.2)
    else
      none

/-- Whether a text can be cut at a byte offset. -/
def isBoundary (text : Text) (offset : Nat) : Bool :=
  (text.cut? offset).isSome

/-- The characters between two byte offsets, if the text can be cut at both. -/
def slice? (text : Text) (start stop : Nat) : Option Text :=
  if start ≤ stop then
    match text.cut? start with
    | none => none
    | some (_, rest) => (Text.cut? rest (stop - start)).map Prod.fst
  else
    none

/-- The last offset at or before the given one at which the text can be cut. -/
def floor : Text → Nat → Nat
  | [], _ => 0
  | c :: rest, offset =>
    if c.utf8Size ≤ offset then c.utf8Size + floor rest (offset - c.utf8Size) else 0

/-- The Unicode property White_Space. -/
def isSpace (c : Char) : Bool :=
  let n := c.toNat
  (0x9 ≤ n && n ≤ 0xD) || n == 0x20 || n == 0x85 || n == 0xA0 || n == 0x1680
    || (0x2000 ≤ n && n ≤ 0x200A) || n == 0x2028 || n == 0x2029 || n == 0x202F
    || n == 0x205F || n == 0x3000

/-- A text of white space only. -/
def isBlank (text : Text) : Bool :=
  text.all isSpace

/-- Drop the characters at the end that satisfy a predicate. -/
def dropEndWhile (text : Text) (p : Char → Bool) : Text :=
  (text.reverse.dropWhile p).reverse

/-- A text without the white space at both of its ends. -/
def trim (text : Text) : Text :=
  Text.dropEndWhile (text.dropWhile isSpace) isSpace

/-- A space or a tab: the characters that indent a line. -/
def isIndent (c : Char) : Bool :=
  c == ' ' || c == '\t'

/-- The pieces of a text between the occurrences of a character; always at least one. -/
def splitOnChar (separator : Char) : Text → List Text
  | [] => [[]]
  | c :: rest =>
    if c == separator then
      [] :: splitOnChar separator rest
    else
      match splitOnChar separator rest with
      | [] => [[c]]
      | piece :: pieces => (c :: piece) :: pieces

/-- What follows a given beginning, if the text has that beginning. -/
def dropHead? : Text → Text → Option Text
  | text, [] => some text
  | [], _ :: _ => none
  | c :: rest, d :: head => if c == d then dropHead? rest head else none

/-- The parts of a text around the first occurrence of a word. -/
def splitFirst? (word : Text) : Text → Option (Text × Text)
  | [] => if word.isEmpty then some ([], []) else none
  | c :: rest =>
    match dropHead? (c :: rest) word with
    | some after => some ([], after)
    | none => (splitFirst? word rest).map fun parts => (c :: parts.1, parts.2)

end Text

end Retouch
