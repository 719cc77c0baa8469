import Retouch.Text.Basic

/-!
# Structured output

JSON values as the command line prints them.

- `Json.render`: the text of a value, one item a line, two spaces a level.
-/

namespace Retouch

/-- A JSON value; the fields of an object are printed in the order given. -/
inductive Json where
  | null
  | bool (b : Bool)
  | num (n : Nat)
  | str (s : Text)
  | arr (items : List Json)
  | obj (fields : List (String × Json))

namespace Json

/-- A digit below sixteen. -/
def hexDigit (n : Nat) : Char :=
  if n < 10 then Char.ofNat ('0'.toNat + n) else Char.ofNat ('a'.toNat + (n - 10))

/-- A character inside quotes. -/
def escape (c : Char) : Text :=
  if c == '"' then ['\\', '"']
  else if c == '\\' then ['\\', '\\']
  else if c == '\x08' then ['\\', 'b']
  else if c == '\x0c' then ['\\', 'f']
  else if c == '\n' then ['\\', 'n']
  else if c == '\r' then ['\\', 'r']
  else if c == '\t' then ['\\', 't']
  else if c.toNat < 0x20 then
    "\\u00".toList ++ [hexDigit (c.toNat / 16), hexDigit (c.toNat % 16)]
  else [c]

/-- A text in quotes. -/
def quote (s : Text) : Text := '"' :: s.flatMap escape ++ ['"']

/-- A new line at a level. -/
def newline (level : Nat) : Text := '\n' :: List.replicate (2 * level) ' '

mutual

/-- The text of a value at a level of nesting. -/
def renderAt (level : Nat) : Json → Text
  | .null => "null".toList
  | .bool b => (if b then "true" else "false").toList
  | .num n => (toString n).toList
  | .str s => quote s
  | .arr [] => ['[', ']']
  | .arr (item :: rest) =>
    '[' :: newline (level + 1) ++ renderAt (level + 1) item ++ renderItems (level + 1) rest
      ++ newline level ++ [']']
  | .obj [] => ['\x7b', '\x7d']
  | .obj ((key, v) :: rest) =>
    '\x7b' :: newline (level + 1) ++ quote key.toList ++ [':', ' '] ++ renderAt (level + 1) v
      ++ renderFields (level + 1) rest ++ newline level ++ ['\x7d']

/-- The text of the items after the first. -/
def renderItems (level : Nat) : List Json → Text
  | [] => []
  | item :: rest => ',' :: newline level ++ renderAt level item ++ renderItems level rest

/-- The text of the fields after the first. -/
def renderFields (level : Nat) : List (String × Json) → Text
  | [] => []
  | (key, v) :: rest =>
    ',' :: newline level ++ quote key.toList ++ [':', ' '] ++ renderAt level v
      ++ renderFields level rest

end

/-- The text of a value. -/
def render (v : Json) : Text := renderAt 0 v

/-- A text as a value. -/
def ofString (s : String) : Json := .str s.toList

end Json

end Retouch
