import Retouch.Config.Quoted
import Retouch.Config.Value

/-!
# Configuration files

The file format is TOML: lines of keys and values, grouped under headings.

- `Toml.read?`: the values of a file, or nothing if the file does not follow the format. A key
  that is set twice, a table that is opened twice and a table that is extended in another way than
  it was begun are faults too.
-/

namespace Retouch.Config.Toml

open Quoted (isControl digit? coded? escaped?)

/-- How a table came about, which decides how it can be extended. -/
inductive Origin where
  /-- on the way to a table with a heading of its own -/
  | implied
  | heading
  | dotted
deriving DecidableEq, Repr

/-- What stands under a key while a file is read. -/
inductive Item where
  | value (v : Value)
  | table (origin : Origin) (entries : List (String × Item))
  /-- tables under a repeated heading, the last one first -/
  | tables (elements : List (List (String × Item)))

/-- The keys of a table and what stands under them. -/
abbrev Entries := List (String × Item)

mutual

/-- The value of an item. -/
def Item.toValue : Item → Value
  | .value v => v
  | .table _ entries => .table (entryValues entries)
  | .tables elements => .list (elementValues elements)

/-- The values of entries. -/
def entryValues : Entries → List (String × Value)
  | [] => []
  | (k, item) :: rest => (k, item.toValue) :: entryValues rest

/-- The values of tables under a repeated heading. -/
def elementValues : List Entries → List Value
  | [] => []
  | e :: rest => elementValues rest ++ [.table (entryValues e)]

end

/-- What stands under a key. -/
def find (key : String) : Entries → Option Item
  | [] => none
  | (k, item) :: rest => if k == key then some item else find key rest

/-- Put an item under a key. -/
def put (key : String) (item : Item) : Entries → Entries
  | [] => [(key, item)]
  | (k, old) :: rest => if k == key then (k, item) :: rest else (k, old) :: put key item rest

/-- Set a key in entries that take single keys or do not. Tables on the way to the key that have a
heading of their own are closed to it. -/
def assignIn (v : Value) (takesKeys : Bool) : List String → Entries → Option Entries
  | [], _ => none
  | [k], es =>
    match takesKeys, find k es with
    | true, none => some (put k (.value v) es)
    | _, _ => none
  | k :: rest, es =>
    match find k es with
    | none => (assignIn v true rest []).map fun inner => put k (.table .dotted inner) es
    | some (.table .heading _) => none
    | some (.table origin inner) =>
      (assignIn v (origin == .dotted) rest inner).map fun inner => put k (.table origin inner) es
    | some (.tables (last :: others)) =>
      (assignIn v false rest last).map fun last => put k (.tables (last :: others)) es
    | some _ => none

/-- Set a key, which may be dotted; the table that holds it must then be made by dotted keys. -/
def assign (v : Value) (path : List String) (es : Entries) : Option Entries :=
  assignIn v true path es

/-- Change the table under a path, going into the last of repeated tables. -/
def change (f : Entries → Option Entries) : List String → Entries → Option Entries
  | [], es => f es
  | k :: rest, es =>
    match find k es with
    | some (.table origin inner) =>
      (change f rest inner).map fun inner => put k (.table origin inner) es
    | some (.tables (last :: others)) =>
      (change f rest last).map fun last => put k (.tables (last :: others)) es
    | _ => none

/-- Open the table under a heading. -/
def openTable : List String → Entries → Option Entries
  | [], _ => none
  | [k], es =>
    match find k es with
    | none => some (put k (.table .heading []) es)
    | some (.table .implied inner) => some (put k (.table .heading inner) es)
    | some _ => none
  | k :: rest, es =>
    match find k es with
    | none => (openTable rest []).map fun inner => put k (.table .implied inner) es
    | some (.table origin inner) =>
      (openTable rest inner).map fun inner => put k (.table origin inner) es
    | some (.tables (last :: others)) =>
      (openTable rest last).map fun last => put k (.tables (last :: others)) es
    | some _ => none

/-- Open one more table under a repeated heading. -/
def openElement : List String → Entries → Option Entries
  | [], _ => none
  | [k], es =>
    match find k es with
    | none => some (put k (.tables [[]]) es)
    | some (.tables elements) => some (put k (.tables ([] :: elements)) es)
    | some _ => none
  | k :: rest, es =>
    match find k es with
    | none => (openElement rest []).map fun inner => put k (.table .implied inner) es
    | some (.table origin inner) =>
      (openElement rest inner).map fun inner => put k (.table origin inner) es
    | some (.tables (last :: others)) =>
      (openElement rest last).map fun last => put k (.tables (last :: others)) es
    | some _ => none

/-! ## Characters -/

/-- Spaces and tabs. -/
def isGap (c : Char) : Bool := c == ' ' || c == '\t'

/-- Characters of keys without quotes. -/
def isBare (c : Char) : Bool := c.isAlphanum || c == '_' || c == '-'

/-- Skip spaces and tabs. -/
def skipGap (text : Text) : Text := text.dropWhile isGap

/-- Skip a comment up to the end of its line. -/
def skipComment? (text : Text) : Option Text :=
  match text with
  | '#' :: rest =>
    let after := rest.dropWhile fun c => c != '\n' && c != '\r'
    if (rest.takeWhile fun c => c != '\n' && c != '\r').any isControl then none else some after
  | other => some other

/-- Read a line break. -/
def lineBreak? : Text → Option Text
  | '\n' :: rest => some rest
  | '\r' :: '\n' :: rest => some rest
  | _ => none

/-- Nothing but a comment can stand before the end of the line. -/
def endLine? (text : Text) : Option Text :=
  match skipComment? (skipGap text) with
  | some [] => some []
  | some rest => lineBreak? rest
  | none => none

/-- Skip white space, comments and line breaks. -/
def skipLines : Nat → Text → Option Text
  | 0, _ => none
  | fuel + 1, text =>
    match skipComment? (skipGap text) with
    | none => none
    | some rest =>
      match lineBreak? rest with
      | some more => skipLines fuel more
      | none => some rest

/-! ## Strings -/

/-- A string without escapes up to its closing quote. -/
def literalFrom : Text → Text → Option (Text × Text)
  | [], _ => none
  | c :: rest, done =>
    if c == '\x27' then some (done.reverse, rest)
    else if isControl c then none
    else literalFrom rest (c :: done)

/-- Where in a string of several lines a character stands: in the text, after a backslash that
hides the line break, or among the white space that it hides. -/
inductive Mode where
  | plain
  | hiding
  | hidden

/-- A string of several lines up to its closing quotes. -/
def multilineFrom : Text → Text → Mode → Option (Text × Text)
  | [], _, _ => none
  | '\r' :: '\n' :: rest, done, .plain => multilineFrom rest ('\n' :: done) .plain
  | '\r' :: '\n' :: rest, done, _ => multilineFrom rest done .hidden
  | c :: rest, done, .hiding =>
    if c == '\n' then multilineFrom rest done .hidden
    else if isGap c then multilineFrom rest done .hiding
    else none
  | '"' :: '"' :: '"' :: '"' :: '"' :: rest, done, _ => some (('"' :: '"' :: done).reverse, rest)
  | '"' :: '"' :: '"' :: '"' :: rest, done, _ => some (('"' :: done).reverse, rest)
  | '"' :: '"' :: '"' :: rest, done, _ => some (done.reverse, rest)
  | '\\' :: 'u' :: a :: b :: c :: d :: rest, done, _ =>
    match coded? [a, b, c, d] with
    | some ch => multilineFrom rest (ch :: done) .plain
    | none => none
  | '\\' :: 'U' :: a :: b :: c :: d :: e :: f :: g :: h :: rest, done, _ =>
    match coded? [a, b, c, d, e, f, g, h] with
    | some ch => multilineFrom rest (ch :: done) .plain
    | none => none
  | '\\' :: c :: rest, done, _ =>
    match escaped? c with
    | some ch => multilineFrom rest (ch :: done) .plain
    | none =>
      if c == '\n' then multilineFrom rest done .hidden
      else if isGap c || c == '\r' then multilineFrom rest done .hiding
      else none
  | c :: rest, done, .hidden =>
    if c == '\n' || isGap c then multilineFrom rest done .hidden
    else if isControl c then none
    else multilineFrom rest (c :: done) .plain
  | c :: rest, done, .plain =>
    if isControl c && c != '\n' then none else multilineFrom rest (c :: done) .plain

/-- A string of several lines without escapes up to its closing quotes. -/
def multilineLiteralFrom : Text → Text → Option (Text × Text)
  | [], _ => none
  | '\x27' :: '\x27' :: '\x27' :: '\x27' :: '\x27' :: rest, done =>
    some (('\x27' :: '\x27' :: done).reverse, rest)
  | '\x27' :: '\x27' :: '\x27' :: '\x27' :: rest, done => some (('\x27' :: done).reverse, rest)
  | '\x27' :: '\x27' :: '\x27' :: rest, done => some (done.reverse, rest)
  | '\r' :: '\n' :: rest, done => multilineLiteralFrom rest ('\n' :: done)
  | c :: rest, done =>
    if isControl c && c != '\n' then none else multilineLiteralFrom rest (c :: done)

/-- Drop a line break at the start. -/
def dropBreak (text : Text) : Text := (lineBreak? text).getD text

/-- A string in quotes of any kind, with the text after it. -/
def string? (text : Text) : Option (Text × Text) :=
  match text with
  | '"' :: '"' :: '"' :: rest => multilineFrom (dropBreak rest) [] .plain
  | '\x27' :: '\x27' :: '\x27' :: rest => multilineLiteralFrom (dropBreak rest) []
  | '"' :: rest => Quoted.readFrom rest []
  | '\x27' :: rest => literalFrom rest []
  | _ => none

/-! ## Numbers and dates -/

/-- Digits of a base, with single underscores between them, and their value. -/
def digits? (base : Nat) (text : Text) : Option Nat :=
  let groups := Text.splitOnChar '_' text
  if groups.any List.isEmpty then
    none
  else
    groups.flatten.foldl (fun n c => do return base * (← n) + (← digit? base c)) (some 0)

/-- Digits of a decimal number without a needless zero in front. -/
def decimal? (text : Text) : Option Nat :=
  match text with
  | '0' :: _ :: _ => none
  | _ => digits? 10 text

/-- A number in the range of signed words of 64 bits. -/
def inRange (n : Int) : Option Value :=
  if -(Nat.pow 2 63 : Int) ≤ n && n < (Nat.pow 2 63 : Int) then some (.int n) else none

/-- An integer. -/
def integer? (text : Text) : Option Value :=
  match text with
  | '0' :: 'x' :: rest => (digits? 16 rest).bind fun n => inRange n
  | '0' :: 'o' :: rest => (digits? 8 rest).bind fun n => inRange n
  | '0' :: 'b' :: rest => (digits? 2 rest).bind fun n => inRange n
  | '+' :: rest => (decimal? rest).bind fun n => inRange n
  | '-' :: rest => (decimal? rest).bind fun n => inRange (-(n : Int))
  | _ => (decimal? text).bind fun n => inRange n

/-- A number in scientific notation: some digits times a power of ten. -/
structure Scientific where
  digits : Nat
  exponent : Int

/-- Whether a number is too large for a double-precision number, that is, nearer to the first
power of two out of range than to the largest such number. -/
def Scientific.overflows (x : Scientific) : Bool :=
  let limit := Nat.pow 2 1024 - Nat.pow 2 970
  let places : Int := (Nat.toDigits 10 x.digits).length + x.exponent
  if x.digits == 0 || places < 300 then
    false
  else if places > 320 then
    true
  else if 0 ≤ x.exponent then
    limit ≤ x.digits * Nat.pow 10 x.exponent.toNat
  else
    limit * Nat.pow 10 (-x.exponent).toNat ≤ x.digits

/-- An exponent without its mark. -/
def exponent? (text : Text) : Option Int :=
  match text with
  | '+' :: rest => (digits? 10 rest).map Int.ofNat
  | '-' :: rest => (digits? 10 rest).map fun n => -(n : Int)
  | _ => (digits? 10 text).map Int.ofNat

/-- A finite number without its sign that is no integer. -/
def scientific? (text : Text) : Option Scientific := do
  let whole := text.takeWhile fun c => c != '.' && c != 'e' && c != 'E'
  let n ← decimal? whole
  match text.drop whole.length with
  | '.' :: rest =>
    let part := rest.takeWhile fun c => c != 'e' && c != 'E'
    let m ← digits? 10 part
    let places := (part.filter Char.isDigit).length
    let exponent ← match rest.drop part.length with
      | [] => some 0
      | _ :: exponent => exponent? exponent
    return ⟨n * Nat.pow 10 places + m, exponent - places⟩
  | _ :: exponent => return ⟨n, ← exponent? exponent⟩
  | [] => none

/-- Whether a text without its sign is a number that is no integer. Only a negative number may be
out of range. -/
def isFraction (text : Text) (negative : Bool) : Bool :=
  if text == "inf".toList || text == "nan".toList then
    true
  else
    match scientific? text with
    | some x => negative || !x.overflows
    | none => false

/-- Whether a text is made like a pattern, where `0` stands for a digit. -/
def fits : List Char → Text → Bool
  | [], [] => true
  | p :: ps, c :: cs => (if p == '0' then c.isDigit else p == c) && fits ps cs
  | _, _ => false

/-- The number that the digits at a place spell. -/
def numberAt (start length : Nat) (text : Text) : Nat :=
  ((digits? 10 ((text.drop start).take length))).getD 0

/-- How many days a month has. -/
def monthLength (year month : Nat) : Nat :=
  if month == 2 then
    if year % 4 == 0 && (year % 100 != 0 || year % 400 == 0) then 29 else 28
  else if month == 4 || month == 6 || month == 9 || month == 11 then
    30
  else
    31

/-- Whether a text is a day of the calendar. -/
def isDay (text : Text) : Bool :=
  let month := numberAt 5 2 text
  let day := numberAt 8 2 text
  fits "0000-00-00".toList text && 1 ≤ month && month ≤ 12 && 1 ≤ day &&
    day ≤ monthLength (numberAt 0 4 text) month

/-- Whether a text is a time of day; a minute may have a leap second. -/
def isTime (text : Text) : Bool :=
  fits "00:00:00".toList (text.take 8) && numberAt 0 2 text ≤ 23 && numberAt 3 2 text ≤ 59 &&
    numberAt 6 2 text ≤ 60 &&
    match text.drop 8 with
    | [] => true
    | '.' :: rest => !rest.isEmpty && rest.all Char.isDigit
    | _ => false

/-- Whether a text is the offset of a time zone. -/
def isOffset (text : Text) : Bool :=
  (fits "+00:00".toList text || fits "-00:00".toList text) && numberAt 1 2 text ≤ 23 &&
    numberAt 4 2 text ≤ 59

/-- Whether a text is a time of day with an optional offset. -/
def isZonedTime (text : Text) : Bool :=
  isTime text ||
    (match text.getLast? with
      | some 'Z' | some 'z' => isTime text.dropLast
      | _ => false) ||
    isTime (text.take (text.length - 6)) && isOffset (text.drop (text.length - 6))

/-- Whether a text is a date, a time, or both. -/
def isDate (text : Text) : Bool :=
  isTime text ||
    (isDay (text.take 10) &&
      match text.drop 10 with
      | [] => true
      | c :: rest => (c == 'T' || c == 't' || c == ' ') && isZonedTime rest)

/-- Characters of numbers, dates and the two truth values. -/
def isScalarChar (c : Char) : Bool :=
  c.isAlphanum || c == '+' || c == '-' || c == '_' || c == '.' || c == ':'

/-- The text of a scalar; a date may be followed by a time after a space. -/
def scalarText (text : Text) : Text :=
  let first := text.takeWhile isScalarChar
  match text.drop first.length with
  | ' ' :: rest =>
    if fits "0000-00-00".toList first && fits "00:".toList (rest.take 3) then
      first ++ ' ' :: rest.takeWhile isScalarChar
    else
      first
  | _ => first

/-- The value of a scalar. -/
def scalar? (text : Text) : Option Value :=
  if text == "true".toList then some (.bool true)
  else if text == "false".toList then some (.bool false)
  else if isDate text then some (.table [("date", .str (String.ofList text))])
  else
    match integer? text with
    | some v => some v
    | none =>
      match text with
      | '+' :: rest => if isFraction rest false then some .real else none
      | '-' :: rest => if isFraction rest true then some .real else none
      | _ => if isFraction text false then some .real else none

/-! ## Keys and values -/

/-- One part of a key. -/
def keyPart? (text : Text) : Option (String × Text) :=
  match text with
  | '"' :: rest => (Quoted.readFrom rest []).map fun (k, after) => (String.ofList k, after)
  | '\x27' :: rest => (literalFrom rest []).map fun (k, after) => (String.ofList k, after)
  | _ =>
    let bare := text.takeWhile isBare
    if bare.isEmpty then none else some (String.ofList bare, text.drop bare.length)

/-- How deeply lists and tables may stand in each other, and how many parts a key may have. -/
def maxDepth : Nat := 79

/-- A key of at most so many parts, joined by points. -/
def keyOf? : Nat → Text → Option (List String × Text)
  | 0, _ => none
  | parts + 1, text =>
    match keyPart? (skipGap text) with
    | none => none
    | some (part, rest) =>
      match skipGap rest with
      | '.' :: more => (keyOf? parts more).map fun (parts, after) => (part :: parts, after)
      | after => some ([part], after)

/-- A key, which may have several parts. -/
def key? (text : Text) : Option (List String × Text) := keyOf? maxDepth text

mutual

/-- A value that holds others to a given depth at most, with the text after it. -/
def valueOf? : Nat → Nat → Text → Option (Value × Text)
  | 0, _, _ => none
  | fuel + 1, depth, text =>
    match text, depth with
    | '"' :: _, _ | '\x27' :: _, _ =>
      (string? text).map fun (s, rest) => (.str (String.ofList s), rest)
    | '[' :: rest, depth + 1 => items? fuel depth rest []
    | '\x7b' :: rest, depth + 1 =>
      match skipGap rest with
      | '\x7d' :: after => some (.table [], after)
      | more => fields? fuel depth more []
    | _, _ =>
      let scalar := scalarText text
      (scalar? scalar).map fun v => (v, text.drop scalar.length)

/-- Items of a list up to its closing bracket; those so far are in reverse. -/
def items? : Nat → Nat → Text → List Value → Option (Value × Text)
  | 0, _, _, _ => none
  | fuel + 1, depth, text, done =>
    match skipLines (text.length + 1) text with
    | none => none
    | some (']' :: rest) => some (.list done.reverse, rest)
    | some rest =>
      match valueOf? fuel depth rest with
      | none => none
      | some (v, more) =>
        match skipLines (more.length + 1) more with
        | some (',' :: next) => items? fuel depth next (v :: done)
        | some (']' :: next) => some (.list (v :: done).reverse, next)
        | _ => none

/-- Fields of a table on one line up to its closing brace. -/
def fields? : Nat → Nat → Text → Entries → Option (Value × Text)
  | 0, _, _, _ => none
  | fuel + 1, depth, text, done =>
    match key? text with
    | some (path, '=' :: rest) =>
      match valueOf? fuel depth (skipGap rest) with
      | none => none
      | some (v, more) =>
        match assign v path done with
        | none => none
        | some done =>
          match skipGap more with
          | ',' :: next => fields? fuel depth next done
          | '\x7d' :: next => some (.table (entryValues done), next)
          | _ => none
    | _ => none

end

/-- A value, with the text after it. -/
def value? (text : Text) : Option (Value × Text) := valueOf? (text.length + 1) maxDepth text

/-! ## Files -/

/-- A line of a file: a heading, a repeated heading, or a key with its value. -/
inductive Line where
  | heading (path : List String)
  | element (path : List String)
  | setting (path : List String) (v : Value)

/-- The line at the start of a text, which is no comment and not empty. -/
def line? (text : Text) : Option (Line × Text) :=
  match text with
  | '[' :: '[' :: rest =>
    match key? rest with
    | some (path, ']' :: ']' :: after) => some (.element path, after)
    | _ => none
  | '[' :: rest =>
    match key? rest with
    | some (path, ']' :: after) => some (.heading path, after)
    | _ => none
  | _ =>
    match key? text with
    | some (path, '=' :: rest) =>
      (value? (skipGap rest)).map fun (v, after) => (.setting path v, after)
    | _ => none

/-- Read line after line, with the heading under which they stand. -/
def lines? : Nat → Text → List String → Entries → Option Entries
  | 0, _, _, _ => none
  | fuel + 1, text, path, es =>
    match skipLines (text.length + 1) text with
    | none => none
    | some [] => some es
    | some start =>
      match line? start with
      | none => none
      | some (line, after) =>
        match endLine? after with
        | none => none
        | some rest =>
          match line with
          | .heading p => (openTable p es).bind fun es => lines? fuel rest p es
          | .element p => (openElement p es).bind fun es => lines? fuel rest p es
          | .setting p v => (change (assign v p) path es).bind fun es => lines? fuel rest path es

/-- The values of a file. -/
def read? (text : Text) : Option Value :=
  let text := match text with
    | c :: rest => if c.toNat == 0xFEFF then rest else c :: rest
    | [] => []
  (lines? (text.length + 1) text [] []).map fun es => .table (entryValues es)

end Retouch.Config.Toml
