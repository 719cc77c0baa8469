import Retouch.Config.Toml
import Retouch.Config.Environment
import Retouch.Fault
import Retouch.Settings
import Retouch.Text.CharClass

/-!
# Configuration

- `Config`: the seven settings, in three sections.
- `Config.ofValue?`: the configuration that a value describes; a section that is left out takes
  its default, a key that is left out of a section is a fault.
- `Config.validate`: the first setting that is out of range.
- `Config.load`: defaults, then a file, then the environment.
-/

namespace Retouch

/-- How log lines are written. -/
inductive LogFormat where
  | json
  | pretty
deriving DecidableEq, Repr

/-- Name of a log format. -/
def LogFormat.key : LogFormat → String
  | .json => "json"
  | .pretty => "pretty"

/-- All settings. -/
structure Config where
  extractedName : String := "extracted"
  indentWidth : Nat := 2
  validateOutput : Bool := true
  tsx : Bool := false
  decorators : Bool := true
  level : String := "warn"
  format : LogFormat := .pretty
deriving DecidableEq, Repr

namespace Config

/-- A truth value. -/
def bool? : Value → Option Bool
  | .bool b => some b
  | _ => none

/-- A text. -/
def str? : Value → Option String
  | .str s => some s
  | _ => none

/-- A natural number in the range of words of 64 bits. -/
def nat? : Value → Option Nat
  | .int n => if 0 ≤ n && n < (Nat.pow 2 64 : Int) then some n.toNat else none
  | _ => none

/-- The log format with a given name. -/
def formatNamed? (name : String) : Option LogFormat :=
  if name == "json" then some .json else if name == "pretty" then some .pretty else none

/-- A log format: its name, or a table with its name as the only key. -/
def format? : Value → Option LogFormat
  | .str name => formatNamed? name
  | .table [(name, .null)] => formatNamed? name
  | _ => none

/-- The values of a section, under the given keys or in the same order. -/
def fields? (keys : List String) : Value → Option (List Value)
  | .table entries => keys.mapM fun k => Value.lookup k entries
  | .list items => if items.length == keys.length then some items else none
  | _ => none

/-- The settings of refactorings. -/
def withRefactoring (c : Config) (section_ : Value) : Option Config := do
  match ← fields? ["extractedVariableName", "indentWidth", "validateOutput"] section_ with
  | [name, width, check] =>
    return { c with
      extractedName := ← str? name, indentWidth := ← nat? width, validateOutput := ← bool? check }
  | _ => none

/-- The settings of the parser. -/
def withParser (c : Config) (section_ : Value) : Option Config := do
  match ← fields? ["tsx", "decorators"] section_ with
  | [tsx, decorators] => return { c with tsx := ← bool? tsx, decorators := ← bool? decorators }
  | _ => none

/-- The settings of logging. -/
def withLogging (c : Config) (section_ : Value) : Option Config := do
  match ← fields? ["level", "format"] section_ with
  | [level, format] => return { c with level := ← str? level, format := ← format? format }
  | _ => none

/-- Apply a section if it is there. -/
def withSection (apply : Config → Value → Option Config) (found : Option Value) (c : Config) :
    Option Config :=
  match found with
  | some v => apply c v
  | none => some c

/-- The configuration that a value describes. -/
def ofValue? (v : Value) : Option Config := do
  let (refactoring, parser, logging) ← match v with
    | .table entries =>
      some (Value.lookup "refactoring" entries, Value.lookup "parser" entries,
        Value.lookup "logging" entries)
    | .list items => if items.length ≤ 3 then some (items[0]?, items[1]?, items[2]?) else none
    | _ => none
  let c ← withSection withRefactoring refactoring {}
  let c ← withSection withParser parser c
  withSection withLogging logging c

/-- The value that describes a configuration. -/
def toValue (c : Config) : Value :=
  .table
    [("refactoring", .table
        [("extractedVariableName", .str c.extractedName), ("indentWidth", .int c.indentWidth),
          ("validateOutput", .bool c.validateOutput)]),
      ("parser", .table [("tsx", .bool c.tsx), ("decorators", .bool c.decorators)]),
      ("logging", .table [("level", .str c.level), ("format", .str c.format.key)])]

/-- The levels of logging, from the most to the least talkative. -/
def levels : List String := ["trace", "debug", "info", "warn", "error"]

/-- Whether a character can start a variable's name. -/
def isNameStart (c : Char) : Bool :=
  CharClass.has CharClass.alphabetic c || c == '_' || c == '$'

/-- Whether a character can stand in a variable's name. -/
def isNamePart (c : Char) : Bool :=
  isNameStart c || CharClass.has CharClass.numeric c

/-- Whether a text can name a variable, as far as its characters go. -/
def isIdentifier (name : String) : Bool :=
  match name.toList with
  | [] => false
  | c :: rest => isNameStart c && rest.all isNamePart

/-- The first setting that is out of range. -/
def validate (c : Config) : Except Fault Unit :=
  if !levels.contains c.level then
    .error (.config ("Invalid log level '" ++ c.level ++ "', must be one of: "
      ++ String.intercalate ", " levels))
  else if !isIdentifier c.extractedName then
    .error (.config ("Extracted variable name '" ++ c.extractedName
      ++ "' is not a valid identifier"))
  else if !(1 ≤ c.indentWidth && c.indentWidth ≤ 8) then
    .error (.config ("Indent width must be between 1 and 8, got " ++ toString c.indentWidth))
  else
    .ok ()

/-- What is told when a configuration cannot be read. -/
def loadFault : Fault := .config "Failed to load configuration"

/-- The configuration from the text of a file, if there is one, and the environment. -/
def load (file : Option Text) (env : List (String × String)) : Except Fault Config := do
  let base := ({} : Config).toValue
  let withFile ← match file with
    | none => pure base
    | some text =>
      match Toml.read? text with
      | some v => pure (base.merge v)
      | none => throw loadFault
  match ofValue? (withFile.merge (Environment.layer env)) with
  | none => throw loadFault
  | some c =>
    c.validate
    return c

/-- The settings of refactorings under a configuration. -/
def settings (c : Config) : Settings :=
  ⟨c.extractedName.toList, c.indentWidth, c.validateOutput, ⟨c.tsx, c.decorators⟩⟩

end Config

end Retouch
