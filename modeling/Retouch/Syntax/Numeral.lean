/-!
# Values of numeric literals

A numeric literal denotes a binary floating-point number with 53 significant bits. Its value is
kept as an exact dyadic number, so that two spellings of one value are equal and nothing rests on
machine arithmetic.

- `Numeral`: zero, a finite value `mantissa * 2 ^ exponent` in normal form, or infinity.
- `Numeral.ofRatio`: the nearest such value to a fraction; a tie goes to the even mantissa.
- `Numeral.ofDecimal`, `Numeral.ofNat`: values of the decimal and the other notations.
- `Numeral.text`: the fewest decimal digits that read back, without an exponent.
-/

namespace Retouch.Syntax

/-- Value of a numeric literal. A finite value has an odd mantissa. -/
inductive Numeral where
  | zero
  | finite (mantissa : Nat) (exponent : Int)
  | infinity
deriving DecidableEq, Repr

namespace Numeral

/-- Divide out the factors of two; the fuel bounds their number. -/
def normalize : Nat → Nat → Int → Numeral
  | 0, m, e => .finite m e
  | fuel + 1, m, e =>
    if m == 0 then .zero
    else if m % 2 == 0 then normalize fuel (m / 2) (e + 1)
    else .finite m e

/-- Quotient rounded to the nearest integer; a tie goes to the even one. -/
def roundDiv (num den : Nat) : Nat :=
  let q := num / den
  let r := num % den
  if 2 * r < den then q
  else if den < 2 * r then q + 1
  else if q % 2 == 0 then q else q + 1

/-- The representable value nearest to `num / den`. -/
def ofRatio (num den : Nat) : Numeral :=
  if num == 0 || den == 0 then
    .zero
  else
    -- the exponent of the last bit of 53 significant bits, not below that of subnormal numbers
    let guess : Int := (Nat.log2 num : Int) - (Nat.log2 den : Int) - 52
    let scaled (e : Int) : Nat :=
      if 0 ≤ e then roundDiv num (den * Nat.pow 2 e.toNat)
      else roundDiv (num * Nat.pow 2 (-e).toNat) den
    let exact (e : Int) : Bool :=
      if 0 ≤ e then num < Nat.pow 2 53 * (den * Nat.pow 2 e.toNat)
      else num * Nat.pow 2 (-e).toNat < Nat.pow 2 53 * den
    -- one of two neighbouring exponents leaves the quotient below 2 ^ 53
    let e0 := if exact (guess - 1) then guess - 1 else guess
    let e := if e0 < -1074 then -1074 else e0
    let m := scaled e
    let value := normalize 64 m e
    if Nat.pow 2 53 * Nat.pow 2 971 ≤ (if 0 ≤ e then m * Nat.pow 2 e.toNat else 0) then .infinity
    else value

/-- Value of decimal digits with a power of ten. Powers far out of range are cut short. -/
def ofDecimal (digits : Nat) (exponent : Int) : Numeral :=
  if digits == 0 then .zero
  else if 0 ≤ exponent then
    if 400 < exponent then .infinity else ofRatio (digits * Nat.pow 10 exponent.toNat) 1
  else
    let e := (-exponent).toNat
    if 400 + Nat.log2 digits < e then .zero else ofRatio digits (Nat.pow 10 e)

/-- Value of an integer. -/
def ofNat (n : Nat) : Numeral :=
  ofRatio n 1

/-- Number of decimal digits before the point of `num / den`; zero or less below one. -/
def decimalPlaces (num den : Nat) : Nat → Int → Int
  | 0, p => p
  | fuel + 1, p =>
    let below (q : Int) : Bool :=
      if 0 ≤ q then num < den * Nat.pow 10 q.toNat else num * Nat.pow 10 (-q).toNat < den
    if below (p - 1) then decimalPlaces num den fuel (p - 1)
    else if below p then p
    else decimalPlaces num den fuel (p + 1)

/-- The fewest digits, and their power of ten, that read back as a value near `num / den` with `p`
digits before the point; `count` digits are tried first. -/
def shortest (value : Numeral) (num den : Nat) (p : Int) : Nat → Nat → Nat × Int
  | 0, _ => (0, 0)
  | fuel + 1, count =>
    let power := p - count
    let (n, d) : Nat × Nat :=
      if 0 ≤ power then (num, den * Nat.pow 10 power.toNat)
      else (num * Nat.pow 10 (-power).toNat, den)
    let digits := roundDiv n d
    if ofDecimal digits power == value then (digits, power)
    else shortest value num den p fuel (count + 1)

/-- Digits with a power of ten, written without an exponent. -/
def positional (digits : Nat) (power : Int) : String :=
  let text := toString digits
  if 0 ≤ power then
    text ++ String.ofList (List.replicate power.toNat '0')
  else
    let places := (-power).toNat
    let chars := text.toList
    let padded := List.replicate (places + 1 - chars.length) '0' ++ chars
    let whole := padded.take (padded.length - places)
    String.ofList (whole ++ '.' :: padded.drop (padded.length - places))

/-- The fewest decimal digits that read back, without an exponent. -/
def text : Numeral → String
  | .zero => "0"
  | .infinity => "inf"
  | .finite mantissa exponent =>
    let (num, den) : Nat × Nat :=
      if 0 ≤ exponent then (mantissa * Nat.pow 2 exponent.toNat, 1)
      else (mantissa, Nat.pow 2 (-exponent).toNat)
    let p := decimalPlaces num den 800 0
    let (digits, power) := shortest (.finite mantissa exponent) num den p 18 1
    positional digits power

end Numeral

end Retouch.Syntax
