import Retouch.Text.Basic

/-!
# Quoted text

Text between double quotes, with escapes after a backslash.

- `Quoted.readFrom`: the text up to the closing quote.
-/

namespace Retouch.Config.Quoted

/-- Characters that must be escaped. -/
def isControl (c : Char) : Bool := (c.toNat < 0x20 && c != '\t') || c.toNat == 0x7F

/-- The value of a digit of a base up to sixteen. -/
def digit? (base : Nat) (c : Char) : Option Nat :=
  let n :=
    if '0' ≤ c && c ≤ '9' then some (c.toNat - '0'.toNat)
    else if 'a' ≤ c && c ≤ 'f' then some (c.toNat - 'a'.toNat + 10)
    else if 'A' ≤ c && c ≤ 'F' then some (c.toNat - 'A'.toNat + 10)
    else none
  n.filter (· < base)

/-- The character with a code given by hexadecimal digits. -/
def coded? (digits : Text) : Option Char :=
  match digits.foldl (fun n c => do return 16 * (← n) + (← digit? 16 c)) (some 0) with
  | some n => if n.isValidChar then some (Char.ofNat n) else none
  | none => none

/-- What an escape of one character stands for. -/
def escaped? : Char → Option Char
  | 'b' => some '\x08'
  | 't' => some '\t'
  | 'n' => some '\n'
  | 'f' => some '\x0c'
  | 'r' => some '\r'
  | '"' => some '"'
  | '\\' => some '\\'
  | _ => none

/-- A string up to its closing quote; its characters so far are in reverse. -/
def readFrom : Text → Text → Option (Text × Text)
  | [], _ => none
  | '"' :: rest, done => some (done.reverse, rest)
  | '\\' :: 'u' :: a :: b :: c :: d :: rest, done =>
    match coded? [a, b, c, d] with
    | some ch => readFrom rest (ch :: done)
    | none => none
  | '\\' :: 'U' :: a :: b :: c :: d :: e :: f :: g :: h :: rest, done =>
    match coded? [a, b, c, d, e, f, g, h] with
    | some ch => readFrom rest (ch :: done)
    | none => none
  | '\\' :: c :: rest, done =>
    match escaped? c with
    | some ch => readFrom rest (ch :: done)
    | none => none
  | c :: rest, done => if isControl c then none else readFrom rest (c :: done)

end Retouch.Config.Quoted
