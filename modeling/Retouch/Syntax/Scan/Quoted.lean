import Retouch.Syntax.Scan.Name

/-!
# Strings, templates and regular expressions

- `scanString`: a string literal and its value, with every escape resolved.
- `scanQuasi`: a piece of a template, up to the next substitution or the end of the template.
- `scanRegex`: a regular expression literal.
-/

namespace Retouch.Syntax

/-- Join each surrogate pair into the code point that it stands for. -/
def joinSurrogates : CodePoints → CodePoints
  | high :: low :: rest =>
    if 0xD800 ≤ high && high < 0xDC00 && 0xDC00 ≤ low && low < 0xE000 then
      (0x10000 + (high - 0xD800) * 0x400 + (low - 0xDC00)) :: joinSurrogates rest
    else
      high :: joinSurrogates (low :: rest)
  | short => short

/-- Where inside a string a character stands; an escape knows where it starts. -/
inductive StringMode where
  | plain
  | escape (backslash : Nat)
  | fixed (backslash : Nat) (short : Bool) (left value : Nat)
  | braced (backslash count value : Nat)

/-- A string literal, the complaints that it gives rise to, and the place after it. -/
structure ScannedString where
  kind : TokenKind
  notes : List SyntaxError
  place : Place

/-- What a simple escape stands for. -/
def simpleEscape (c : Char) : Nat :=
  match c with
  | 'n' => 10
  | 'r' => 13
  | 't' => 9
  | 'b' => 8
  | 'v' => 11
  | 'f' => 12
  | c => c.toNat

/-- An octal digit. -/
def isOctal (c : Char) : Bool := '0' ≤ c && c ≤ '7'

/-- Whether an escape with a digit is one of the old octal escapes. -/
def isOctalEscape (c : Char) (rest : Text) : Bool :=
  if c == '0' then rest.head?.any isOctal else isOctal c

/-- The complaint about an octal escape. -/
def octalEscape (start : Nat) : SyntaxError :=
  ⟨start, "Legacy octal escape is not permitted in strict mode"⟩

/-- Read a string up to its closing quote; the value so far is in reverse. -/
def stringFrom (start : Nat) (quote : Char) :
    Text → Nat → CodePoints → List SyntaxError → StringMode → ScannedString
  | [], n, _, notes, _ => ⟨.bad ⟨start, "Unterminated string constant"⟩, notes, ⟨[], n⟩⟩
  | c :: rest, n, done, notes, .plain =>
    if c == quote then
      ⟨.string (joinSurrogates done.reverse), notes, ⟨rest, n + 1⟩⟩
    else if c == '\\' then
      stringFrom start quote rest (n + 1) done notes (.escape n)
    else if c == '\n' || c == '\r' then
      ⟨.bad ⟨start, "Unterminated string constant"⟩, notes, ⟨c :: rest, n⟩⟩
    else
      stringFrom start quote rest (n + c.utf8Size) (c.toNat :: done) notes .plain
  | 'x' :: rest, n, done, notes, .escape backslash =>
    stringFrom start quote rest (n + 1) done notes (.fixed backslash true 2 0)
  | 'u' :: '\x7b' :: rest, n, done, notes, .escape backslash =>
    stringFrom start quote rest (n + 2) done notes (.braced backslash 0 0)
  | 'u' :: rest, n, done, notes, .escape backslash =>
    stringFrom start quote rest (n + 1) done notes (.fixed backslash false 4 0)
  | '\r' :: '\n' :: rest, n, done, notes, .escape _ =>
    stringFrom start quote rest (n + 2) done notes .plain
  | c :: rest, n, done, notes, .escape backslash =>
    if isLineBreak c then
      stringFrom start quote rest (n + c.utf8Size) done notes .plain
    else if isOctalEscape c rest then
      stringFrom start quote rest (n + 1) ((c.toNat - 48) :: done)
        (notes ++ [octalEscape backslash]) .plain
    else if c == '0' then
      stringFrom start quote rest (n + 1) (0 :: done) notes .plain
    else
      stringFrom start quote rest (n + c.utf8Size) (simpleEscape c :: done) notes .plain
  | c :: rest, n, done, notes, .fixed backslash short left value =>
    match hexDigit? c with
    | none =>
      ⟨.bad (badEscape backslash (if short then "2 hex characters" else "4 hex characters")), notes,
        ⟨c :: rest, n⟩⟩
    | some d =>
      if left ≤ 1 then
        stringFrom start quote rest (n + 1) ((16 * value + d) :: done) notes .plain
      else
        stringFrom start quote rest (n + 1) done notes
          (.fixed backslash short (left - 1) (16 * value + d))
  | c :: rest, n, done, notes, .braced backslash count value =>
    match hexDigit? c with
    | some d =>
      stringFrom start quote rest (n + 1) done notes (.braced backslash (count + 1) (16 * value + d))
    | none =>
      if count == 0 then
        ⟨.bad (badEscape backslash "1-6 hex characters"), notes, ⟨c :: rest, n⟩⟩
      else if 0x110000 ≤ value then
        ⟨.bad (escapeOutOfRange backslash), notes, ⟨c :: rest, n⟩⟩
      else if c == '\x7d' then
        stringFrom start quote rest (n + 1) (value :: done) notes .plain
      else
        ⟨.bad ⟨backslash, "Invalid unicode escape"⟩, notes, ⟨c :: rest, n⟩⟩

/-- The string literal at a place, which starts with a quote. -/
def scanString (place : Place) : ScannedString :=
  match place.rest with
  | quote :: rest => stringFrom place.offset quote rest (place.offset + 1) [] [] .plain
  | [] => ⟨.eof, [], place⟩

/-- How a piece of a template ends. -/
inductive QuasiEnd where
  | substitution
  | template
  | missing
deriving DecidableEq

/-- A piece of a template as written, with line breaks made uniform. -/
structure ScannedQuasi where
  raw : Text
  stop : Nat
  ending : QuasiEnd
  place : Place

/-- Read a piece of a template; its characters so far are in reverse. -/
def quasiFrom : Text → Nat → Text → ScannedQuasi
  | [], n, done => ⟨done.reverse, n, .missing, ⟨[], n⟩⟩
  | '$' :: '\x7b' :: rest, n, done => ⟨done.reverse, n, .substitution, ⟨rest, n + 2⟩⟩
  | '\\' :: '\r' :: '\n' :: rest, n, done => quasiFrom rest (n + 3) ('\n' :: '\\' :: done)
  | '\\' :: c :: rest, n, done => quasiFrom rest (n + 1 + c.utf8Size) (c :: '\\' :: done)
  | '\r' :: '\n' :: rest, n, done => quasiFrom rest (n + 2) ('\n' :: done)
  | c :: rest, n, done =>
    if c.toNat == 0x60 then ⟨done.reverse, n, .template, ⟨rest, n + 1⟩⟩
    else quasiFrom rest (n + c.utf8Size) ((if c == '\r' then '\n' else c) :: done)

/-- The piece of a template at a place. -/
def scanQuasi (place : Place) : ScannedQuasi :=
  quasiFrom place.rest place.offset []

/-- Where inside a piece of a template a character stands. -/
inductive QuasiMode where
  | plain
  | escape (backslash : Nat)
  | fixed (backslash : Nat) (short : Bool) (left : Nat)
  | braced (backslash count value : Nat)

/-- What is wrong with the first bad escape before an offset, if there is one. A tag may ask for the
pieces as written; without a tag a bad escape is a fault. -/
def quasiFault? (stop : Nat) : Text → Nat → QuasiMode → Option SyntaxError
  | [], _, .plain => none
  | [], _, .escape _ => none
  | [], _, .fixed backslash short _ =>
    some (badEscape backslash (if short then "2 hex characters" else "4 hex characters"))
  | [], _, .braced backslash _ _ => some (badEscape backslash "1-6 hex characters")
  | c :: rest, n, .plain =>
    if stop ≤ n then none
    else quasiFault? stop rest (n + c.utf8Size) (if c == '\\' then .escape n else .plain)
  | 'x' :: rest, n, .escape backslash => quasiFault? stop rest (n + 1) (.fixed backslash true 2)
  | 'u' :: '\x7b' :: rest, n, .escape backslash =>
    quasiFault? stop rest (n + 2) (.braced backslash 0 0)
  | 'u' :: rest, n, .escape backslash => quasiFault? stop rest (n + 1) (.fixed backslash false 4)
  | c :: rest, n, .escape backslash =>
    if isOctalEscape c rest then some (octalEscape backslash)
    else quasiFault? stop rest (n + c.utf8Size) .plain
  | c :: rest, n, .fixed backslash short left =>
    match hexDigit? c with
    | none => some (badEscape backslash (if short then "2 hex characters" else "4 hex characters"))
    | some _ =>
      quasiFault? stop rest (n + 1) (if left ≤ 1 then .plain else .fixed backslash short (left - 1))
  | c :: rest, n, .braced backslash count value =>
    match hexDigit? c with
    | some d => quasiFault? stop rest (n + 1) (.braced backslash (count + 1) (16 * value + d))
    | none =>
      if count == 0 then some (badEscape backslash "1-6 hex characters")
      else if 0x110000 ≤ value then some (escapeOutOfRange backslash)
      else if c == '\x7d' then quasiFault? stop rest (n + 1) .plain
      else some ⟨backslash, "Invalid unicode escape"⟩

/-- Where inside a regular expression a character stands. -/
inductive RegexMode where
  | plain
  | set
  | escape (inSet : Bool)

/-- The body of a regular expression and the place of its flags, if it is closed. -/
def regexFrom : Text → Nat → Text → RegexMode → Option (Text × Place)
  | [], _, _, _ => none
  | c :: rest, n, done, mode =>
    if isLineBreak c then
      none
    else
      let go := regexFrom rest (n + c.utf8Size) (c :: done)
      match mode with
      | .escape inSet => go (if inSet then .set else .plain)
      | .set => if c == ']' then go .plain else if c == '\\' then go (.escape true) else go .set
      | .plain =>
        if c == '/' then some (done.reverse, ⟨rest, n + 1⟩)
        else if c == '[' then go .set
        else if c == '\\' then go (.escape false)
        else go .plain

/-- A regular expression literal. -/
structure ScannedRegex where
  body : Text
  flags : Text
  place : Place

/-- The regular expression whose opening slash has been read. -/
def scanRegex (afterSlash : Place) : Option ScannedRegex :=
  match regexFrom afterSlash.rest afterSlash.offset [] .plain with
  | none => none
  | some (body, place) =>
    let (flags, after) := scanNameParts place.rest place.offset
    some ⟨body, flags, after⟩

end Retouch.Syntax
