import Retouch.Syntax.Scan.Name

/-!
# Numbers

Decimal numbers with a fraction and an exponent, integers in base 16, 8 and 2, and integers of
any size marked by a final `n`. Digits may be separated by single underscores.

- `scanDigits`: a run of digits of a base.
- `scanNumber`: the number at a place, with the complaints that do not end the reading.
-/

namespace Retouch.Syntax

/-- Value of a digit in a base. -/
def digitIn? (base : Nat) (c : Char) : Option Nat :=
  match hexDigit? c with
  | some d => if d < base then some d else none
  | none => none

/-- A run of digits: where it starts, its value, its length, and whether a separator stands
wrongly. -/
structure Digits where
  start : Nat
  value : Nat
  count : Nat
  badSeparator : Bool
  place : Place

/-- Read digits and separators. A digit must follow a separator. -/
def digitsFrom (base start : Nat) : Text → Nat → Nat → Nat → Bool → Digits
  | [], n, value, count, bad => ⟨start, value, count, bad, ⟨[], n⟩⟩
  | c :: rest, n, value, count, bad =>
    match digitIn? base c with
    | some d => digitsFrom base start rest (n + 1) (base * value + d) (count + 1) bad
    | none =>
      if c == '_' then
        let next := match rest with
          | [] => false
          | d :: _ => (digitIn? base d).isSome
        digitsFrom base start rest (n + 1) value count (bad || !next)
      else
        ⟨start, value, count, bad, ⟨c :: rest, n⟩⟩

/-- The run of digits of a base at a place. -/
def scanDigits (base : Nat) (place : Place) : Digits :=
  digitsFrom base place.offset place.rest place.offset 0 0 false

/-- A number, the complaints that it gives rise to, and the place after it. -/
structure ScannedNumber where
  kind : TokenKind
  notes : List SyntaxError
  place : Place

/-- The complaint about a misplaced separator, at the start of its run of digits. -/
def Digits.notes (digits : Digits) : List SyntaxError :=
  if digits.badSeparator then
    [⟨digits.start, "A numeric separator is only allowed between two digits"⟩]
  else
    []

/-- A name cannot follow a number directly. -/
def endNumber (kind : TokenKind) (notes : List SyntaxError) (place : Place) : ScannedNumber :=
  match place.rest with
  | c :: _ =>
    if isNameStart c then
      ⟨.bad ⟨place.offset, "Identifier cannot follow number"⟩, notes, place⟩
    else
      ⟨kind, notes, place⟩
  | [] => ⟨kind, notes, place⟩

/-- Name of the digits of a base. -/
def digitName : Nat → String
  | 2 => "a binary"
  | 8 => "an octal"
  | 16 => "a hexadecimal"
  | _ => "a decimal"

/-- The complaint about digits that are not there. -/
def missingDigit (base offset : Nat) : SyntaxError :=
  ⟨offset, "Expected " ++ digitName base ++ " digit"⟩

/-- An integer in a base other than ten, after its two-character mark. -/
def scanRadix (base : Nat) (place : Place) : ScannedNumber :=
  let digits := scanDigits base place
  let notes := digits.notes
  if digits.count == 0 then
    ⟨.bad (missingDigit base digits.start), notes, digits.place⟩
  else
    match digits.place.rest with
    | 'n' :: rest => endNumber (.bigint digits.value) notes ⟨rest, digits.place.offset + 1⟩
    | _ => endNumber (.number (Numeral.ofNat digits.value)) notes digits.place

/-- The exponent at a place, with the complaints about it and the one that ends the reading. -/
structure Exponent where
  value : Int
  notes : List SyntaxError
  error : Option SyntaxError
  place : Place

/-- Read an exponent, if one is there. -/
def scanExponent (place : Place) : Exponent :=
  match place.rest with
  | c :: rest =>
    if c == 'e' || c == 'E' then
      let (negative, place) : Bool × Place := match rest with
        | '-' :: rest => (true, ⟨rest, place.offset + 2⟩)
        | '+' :: rest => (false, ⟨rest, place.offset + 2⟩)
        | _ => (false, ⟨rest, place.offset + 1⟩)
      let digits := scanDigits 10 place
      let error :=
        if rest.isEmpty then
          some ⟨place.offset, "Expected +, - or decimal digit after e"⟩
        else if digits.count == 0 then
          some (missingDigit 10 digits.start)
        else
          none
      ⟨if negative then -digits.value else digits.value, digits.notes, error, digits.place⟩
    else
      ⟨0, [], none, place⟩
  | [] => ⟨0, [], none, place⟩

/-- The fraction and exponent after a whole part. -/
def scanFraction (whole : Nat) (notes : List SyntaxError) (place : Place) : ScannedNumber :=
  let fraction : Digits := match place.rest with
    | '.' :: rest => digitsFrom 10 (place.offset + 1) rest (place.offset + 1) whole 0 false
    | _ => ⟨place.offset, whole, 0, false, place⟩
  let exponent := scanExponent fraction.place
  let notes := notes ++ fraction.notes ++ exponent.notes
  match exponent.error with
  | some e => ⟨.bad e, notes, exponent.place⟩
  | none =>
    endNumber (.number (Numeral.ofDecimal fraction.value (exponent.value - fraction.count))) notes
      exponent.place

/-- The number at a place, which starts with a digit or with a point before a digit. -/
def scanNumber (place : Place) : ScannedNumber :=
  let start := place.offset
  match place.rest with
  | '0' :: x :: rest =>
    if x == 'x' || x == 'X' then scanRadix 16 ⟨rest, start + 2⟩
    else if x == 'o' || x == 'O' then scanRadix 8 ⟨rest, start + 2⟩
    else if x == 'b' || x == 'B' then scanRadix 2 ⟨rest, start + 2⟩
    else if x.isDigit || x == '_' then
      let octal := scanDigits 8 place
      let decimal := scanDigits 10 place
      if octal.count == decimal.count then
        endNumber (.number (Numeral.ofNat octal.value))
          (octal.notes ++
            [⟨start, "Legacy octal literals are not available when targeting ECMAScript 5 and higher"⟩])
          octal.place
      else
        scanFraction decimal.value
          (decimal.notes ++ [⟨start, "Legacy decimal escape is not permitted in strict mode"⟩])
          decimal.place
    else
      decimal
  | _ => decimal
where
  /-- A decimal number that starts at the place. -/
  decimal : ScannedNumber :=
    let whole := scanDigits 10 place
    let notes := whole.notes
    match whole.place.rest with
    | 'n' :: rest => endNumber (.bigint whole.value) notes ⟨rest, whole.place.offset + 1⟩
    | _ => scanFraction whole.value notes whole.place

end Retouch.Syntax
