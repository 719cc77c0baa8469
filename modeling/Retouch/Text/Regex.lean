import Retouch.Text.Basic

/-!
# Regular expressions

- `Regex`: the patterns.
- `Regex.ends`: where a match that starts at a place can end, the preferred end first.
- `Regex.reachesEnd`: whether the first match in a text goes up to the end of the text.
- `Regex.read?`: the pattern that a text spells.
-/

namespace Retouch

/-- A pattern for texts. -/
inductive Regex where
  | empty
  /-- one character in some of the ranges, or in none of them -/
  | one (inside : Bool) (ranges : List (Char × Char))
  | atStart
  | atEnd
  | seq (first second : Regex)
  | either (preferred other : Regex)
  /-- any number of matches in a row, as many or as few as possible -/
  | many (greedy : Bool) (inner : Regex)
deriving DecidableEq, Repr

namespace Regex

/-- The pattern for one given character. -/
def char (c : Char) : Regex := .one true [(c, c)]

/-- Every text once, at its first place. -/
def distinct (found : List Text) : List Text :=
  found.foldl (fun kept t => if kept.any fun k => k.length == t.length then kept else kept ++ [t]) []

/-- Where repeated steps can end. Only a step that consumes something is followed by another. -/
def iterate (step : Text → List Text) (greedy : Bool) : Nat → Text → List Text
  | 0, t => [t]
  | fuel + 1, t =>
    let more := (step t).flatMap fun next =>
      if next.length < t.length then iterate step greedy fuel next else [t]
    distinct (if greedy then more ++ [t] else t :: more)

/-- What can be left of a text after a match at its start, the preferred end first. The whole text
has the given length. -/
def ends (whole : Nat) : Regex → Text → List Text
  | .empty, t => [t]
  | .one inside ranges, t =>
    match t with
    | [] => []
    | c :: rest => if (ranges.any fun r => r.1 ≤ c && c ≤ r.2) == inside then [rest] else []
  | .atStart, t => if t.length == whole then [t] else []
  | .atEnd, t => if t.isEmpty then [t] else []
  | .seq a b, t => distinct ((ends whole a t).flatMap fun next => ends whole b next)
  | .either a b, t => distinct (ends whole a t ++ ends whole b t)
  | .many greedy inner, t => iterate (fun next => ends whole inner next) greedy (t.length + 1) t

/-- What is left of a text after its first match at or after a place. -/
def afterFirst? (r : Regex) (whole : Nat) : Text → Option Text
  | [] => (r.ends whole []).head?
  | c :: rest =>
    match r.ends whole (c :: rest) with
    | left :: _ => some left
    | [] => afterFirst? r whole rest

/-- Whether the first match in a text goes up to the end of the text. -/
def reachesEnd (r : Regex) (text : Text) : Bool :=
  r.afterFirst? text.length text == some []

/-! ## Reading -/

/-- Digits. -/
def digitRanges : List (Char × Char) := [('0', '9')]

/-- Characters of words. -/
def wordRanges : List (Char × Char) := [('0', '9'), ('A', 'Z'), ('_', '_'), ('a', 'z')]

/-- White space. -/
def spaceRanges : List (Char × Char) := [('\t', '\r'), (' ', ' ')]

/-- Characters that stand for themselves after a backslash. -/
def isMark (c : Char) : Bool :=
  c.toNat < 128 && !c.isAlphanum && c != '<' && c != '>'

/-- What a character after a backslash stands for, when it is one other character. -/
def escaped? (c : Char) : Option Char :=
  match c with
  | 'n' => some '\n'
  | 't' => some '\t'
  | 'r' => some '\r'
  | 'f' => some '\x0c'
  | 'v' => some '\x0b'
  | 'a' => some '\x07'
  | _ => if isMark c then some c else none

/-- The class of characters that a letter after a backslash stands for. -/
def classOf? (c : Char) : Option Regex :=
  match c with
  | 'd' => some (.one true digitRanges)
  | 'D' => some (.one false digitRanges)
  | 'w' => some (.one true wordRanges)
  | 'W' => some (.one false wordRanges)
  | 's' => some (.one true spaceRanges)
  | 'S' => some (.one false spaceRanges)
  | _ => none

/-- What a backslash and a character stand for. -/
def escape? (c : Char) : Option Regex :=
  match c with
  | 'A' => some .atStart
  | 'z' => some .atEnd
  | _ => (classOf? c).orElse fun _ => (escaped? c).map char

/-- One character in brackets. -/
def member? : Text → Option (Char × Text)
  | [] => none
  | '[' :: _ => none
  | '\\' :: c :: rest => (escaped? c).map fun found => (found, rest)
  | '\\' :: [] => none
  | c :: rest => some (c, rest)

/-- Characters and ranges up to the closing bracket. -/
def members? : Nat → Text → List (Char × Char) → Option (List (Char × Char) × Text)
  | 0, _, _ => none
  | fuel + 1, text, done =>
    match text with
    | ']' :: rest => if done.isEmpty then members? fuel rest [(']', ']')] else some (done, rest)
    | '\\' :: 'd' :: rest => members? fuel rest (digitRanges ++ done)
    | '\\' :: 'w' :: rest => members? fuel rest (wordRanges ++ done)
    | '\\' :: 's' :: rest => members? fuel rest (spaceRanges ++ done)
    | _ =>
      match member? text with
      | none => none
      | some (low, '-' :: ']' :: rest) => members? fuel (']' :: rest) (('-', '-') :: (low, low) :: done)
      | some (low, '-' :: rest) =>
        match member? rest with
        | none => none
        | some (high, after) => if low ≤ high then members? fuel after ((low, high) :: done) else none
      | some (c, rest) => members? fuel rest ((c, c) :: done)

/-- The marks for repetition after a pattern. -/
def repeated : Nat → Regex → Text → Regex × Text
  | 0, r, text => (r, text)
  | fuel + 1, r, text =>
    match text with
    | '*' :: '?' :: rest => repeated fuel (.many false r) rest
    | '*' :: rest => repeated fuel (.many true r) rest
    | '+' :: '?' :: rest => repeated fuel (.seq r (.many false r)) rest
    | '+' :: rest => repeated fuel (.seq r (.many true r)) rest
    | '?' :: '?' :: rest => repeated fuel (.either .empty r) rest
    | '?' :: rest => repeated fuel (.either r .empty) rest
    | _ => (r, text)

mutual

/-- A pattern that is no sequence and no choice. -/
def atom? : Nat → Text → Option (Regex × Text)
  | 0, _ => none
  | fuel + 1, text =>
    match text with
    | [] => none
    | '.' :: rest => some (.one false [('\n', '\n')], rest)
    | '^' :: rest => some (.atStart, rest)
    | '$' :: rest => some (.atEnd, rest)
    | '(' :: rest =>
      let inner := match rest with
        | '?' :: ':' :: more => some more
        | '?' :: _ => none
        | _ => some rest
      match inner.bind fun more => choice? fuel more with
      | some (r, ')' :: after) => some (r, after)
      | _ => none
    | '[' :: '^' :: rest => (members? (rest.length + 1) rest []).map fun (found, after) =>
        (.one false found, after)
    | '[' :: rest => (members? (rest.length + 1) rest []).map fun (found, after) =>
        (.one true found, after)
    | '\\' :: c :: rest => (escape? c).map fun r => (r, rest)
    | c :: rest => if "\\*+?\x7b".toList.contains c then none else some (char c, rest)

/-- Patterns in a row. -/
def row? : Nat → Text → Option (Regex × Text)
  | 0, _ => none
  | fuel + 1, text =>
    match text with
    | [] | '|' :: _ | ')' :: _ => some (.empty, text)
    | _ =>
      match atom? fuel text with
      | none => none
      | some (r, rest) =>
        let (r, rest) := repeated rest.length r rest
        (row? fuel rest).map fun (more, after) => (.seq r more, after)

/-- A choice between patterns; the first one that matches is preferred. -/
def choice? : Nat → Text → Option (Regex × Text)
  | 0, _ => none
  | fuel + 1, text =>
    match row? fuel text with
    | some (r, '|' :: rest) => (choice? fuel rest).map fun (more, after) => (.either r more, after)
    | found => found

end

/-- The pattern that a text spells. -/
def read? (text : Text) : Option Regex :=
  match choice? (3 * text.length + 3) text with
  | some (r, []) => some r
  | _ => none

end Regex

end Retouch
