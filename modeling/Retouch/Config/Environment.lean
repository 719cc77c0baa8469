import Retouch.Config.Quoted
import Retouch.Config.Value
import Retouch.Text.CaseMap

/-!
# Settings in the environment

A variable whose name starts with `MILL__`, in any case, sets the key that the rest of its name
spells: two underscores go one level down, and single ones stand between words. Words are joined with
capital letters, but a key is set in small letters only.

- `Environment.spelled?`: the key that the name of a variable spells.
- `Environment.keyPath?`: the key that it sets.
- `Environment.readValue`: the value that a variable's text stands for.
- `Environment.layer`: all settings of an environment.
-/

namespace Retouch.Config.Environment

/-- What the names of variables start with. -/
def leadingPart : Text := "MILL__".toList

/-- Drop the leading part of a name, in any case. -/
def dropLeading : Text → Text → Option Text
  | [], rest => some rest
  | _ :: _, [] => none
  | p :: ps, c :: cs => if p.toLower == c.toLower then dropLeading ps cs else none

/-- Two underscores in a name are a point. -/
def pointed : Text → Text
  | '_' :: '_' :: rest => '.' :: pointed rest
  | c :: rest => c :: pointed rest
  | [] => []

/-- A text with capital letters for those behind an underscore and small ones for all others. Whether
a letter has been read says if an underscore counts, and whether one has just been read says if a
capital letter is due. -/
def camelFrom (started capital : Bool) : Text → Text
  | [] => []
  | c :: rest =>
    if c == '_' then camelFrom started started rest
    else (if capital then CaseMap.upper c else CaseMap.lower c) ++ camelFrom true false rest

/-- The words of a name in one, with capital letters where they start. -/
def camelCased (name : Text) : Text := camelFrom false false name

/-- A text in small letters, as far as it is ASCII. -/
def lowered (text : Text) : Text := text.map Char.toLower

/-- The key that the name of a variable spells, level by level. A key with an empty part is none. -/
def spelled? (name : String) : Option (List Text) :=
  match dropLeading leadingPart (Text.trim name.toList) with
  | none => none
  | some rest =>
    let key := ['.'].intercalate ((Text.splitOnChar '.' (pointed rest)).map camelCased)
    let parts := Text.splitOnChar '.' (Text.trim key)
    if parts.any List.isEmpty then none else some parts

/-- The key that a variable sets: the one that its name spells, in small letters. -/
def keyPath? (name : String) : Option (List String) :=
  (spelled? name).map fun parts => parts.map fun part => String.ofList (lowered part)

/-- White space between values. -/
def isGap (c : Char) : Bool :=
  c == ' ' || c == '\t' || c == '\n' || c == '\r' || c == '\x0c'

/-- Characters that separate items of lists and tables. -/
def isSeparator (c : Char) : Bool :=
  c == ',' || c == '[' || c == ']' || c == '\x7b' || c == '\x7d'

/-- Characters of keys without quotes. -/
def isKeyChar (c : Char) : Bool := c.isAlphanum || c == '_' || c == '-'

/-- Whether a text is a row of at least one digit. -/
def isDigits (text : Text) : Bool := !text.isEmpty && text.all Char.isDigit

/-- A text without its sign. -/
def unsigned : Text → Text
  | '+' :: rest => rest
  | '-' :: rest => rest
  | text => text

/-- Whether a text without its sign is a number that is no integer. -/
def isReal (text : Text) : Bool :=
  let lower := text.map Char.toLower
  if lower == "inf".toList || lower == "infinity".toList || lower == "nan".toList then
    true
  else
    let mantissa := lower.takeWhile (· != 'e')
    let exponent := lower.drop mantissa.length
    let whole := mantissa.takeWhile (· != '.')
    let part := mantissa.drop whole.length
    let mantissaFits := match part with
      | [] => isDigits whole
      | _ :: digits =>
        (isDigits whole && digits.all Char.isDigit) || (whole.isEmpty && isDigits digits)
    mantissaFits &&
      match exponent with
      | [] => true
      | _ :: digits => isDigits (unsigned digits)

/-- The value of a text without brackets or quotes. -/
def scalar (text : Text) : Value :=
  if isDigits (unsigned text) then
    let n := (unsigned text).foldl (fun n c => 10 * n + (c.toNat - '0'.toNat)) 0
    if text.head? == some '-' then
      if n ≤ Nat.pow 2 63 then .int (-(n : Int)) else .real
    else
      if n < Nat.pow 2 64 then .int n else .real
  else if isReal (unsigned text) then .real
  else .str (String.ofList text)

/-- A key of a table, with the text after it. -/
def key? (text : Text) : Option (String × Text) :=
  match text with
  | '"' :: rest => (Quoted.readFrom rest []).map fun (k, after) => (String.ofList k, after)
  | _ =>
    let bare := text.takeWhile isKeyChar
    if bare.isEmpty then none else some (String.ofList bare, text.drop bare.length)

mutual

/-- A value, with the text after it. -/
def value? : Nat → Text → Option (Value × Text)
  | 0, _ => none
  | fuel + 1, text =>
    let found : Option (Value × Text) := match text.dropWhile isGap with
      | 't' :: 'r' :: 'u' :: 'e' :: rest => some (.bool true, rest)
      | 'f' :: 'a' :: 'l' :: 's' :: 'e' :: rest => some (.bool false, rest)
      | '\x7b' :: rest => fields? fuel rest []
      | '[' :: rest => items? fuel rest []
      | '"' :: rest =>
        (Quoted.readFrom rest []).map fun (s, after) => (.str (String.ofList s), after)
      | '\x27' :: c :: '\x27' :: rest => some (.str (String.singleton c), rest)
      | '\x27' :: _ => none
      | rest =>
        let inside := rest.takeWhile fun c => !isSeparator c
        some (scalar (Text.trim inside), rest.drop inside.length)
    found.map fun (v, rest) => (v, rest.dropWhile isGap)

/-- Items of a list up to its closing bracket; those so far are in reverse. -/
def items? : Nat → Text → List Value → Option (Value × Text)
  | 0, _, _ => none
  | fuel + 1, text, done =>
    match text with
    | ']' :: after => some (.list done.reverse, after)
    | _ =>
      match value? fuel text with
      | some (v, ',' :: more) => items? fuel more (v :: done)
      | some (v, ']' :: more) => some (.list (v :: done).reverse, more)
      | _ => none

/-- Fields of a table up to its closing brace. -/
def fields? : Nat → Text → List (String × Value) → Option (Value × Text)
  | 0, _, _ => none
  | fuel + 1, text, done =>
    match text with
    | '\x7d' :: after => some (.table done, after)
    | _ =>
      match key? (text.dropWhile isGap) with
      | none => none
      | some (key, rest) =>
        match rest.dropWhile isGap with
        | '=' :: more =>
          match value? fuel more with
          | some (v, ',' :: next) => fields? fuel next (Value.insert key v done)
          | some (v, '\x7d' :: next) => some (.table (Value.insert key v done), next)
          | _ => none
        | _ => none

end

/-- The value that a variable's text stands for. -/
def readValue (text : Text) : Value :=
  let trimmed := Text.trim text
  match value? (trimmed.length + 1) trimmed with
  | some (v, []) => v
  | _ => .str (String.ofList trimmed)

/-- All settings of an environment. -/
def layer (env : List (String × String)) : Value :=
  env.foldl (fun done (name, text) =>
    match keyPath? name with
    | none => done
    | some path => done.merge (.nest path (readValue text.toList))) (.table [])

end Retouch.Config.Environment
