import Retouch.Selection
import Retouch.Text.Basic

/-!
# Arguments of the command line

- `Invocation`: a command with its options.
- `Args.read`: the command that arguments spell, or what is printed in its place. Arguments are
  read from left to right, and the first fault, or the first request for help, ends the reading.
-/

namespace Retouch

/-- How results are printed. -/
inductive OutputFormat where
  | text
  | json
deriving DecidableEq, Repr

/-- A command with what it needs. -/
inductive Task where
  | refactor (key : String) (file : Text) (selection : Selection) (write : Bool)
      (format : OutputFormat)
  | list (format : OutputFormat)
  | actions (file : Text) (selection : Selection) (format : OutputFormat)

/-- A command with the configuration file to use. -/
structure Invocation where
  config : Option Text
  task : Task

/-- What help can be asked about. -/
inductive Topic where
  | program
  | refactor
  | list
  | actions
  | help
deriving DecidableEq, Repr

/-- What arguments ask for other than a command. -/
inductive Halt where
  | misuse
  | version
  /-- help in short, or at length -/
  | help (topic : Topic) (long : Bool)
deriving DecidableEq, Repr

namespace Args

/-- What an option takes. -/
inductive Shape where
  | flag
  | word
  | path
  | count
  | format
deriving DecidableEq, Repr

/-- The names of options and what they take. -/
abbrev Options := List (String × Shape)

/-- Options of every command. -/
def globalOptions : Options := [("config", .path)]

/-- Options that say where to look. -/
def selectionOptions : Options :=
  [("line", .count), ("column", .count), ("end-line", .count), ("end-column", .count)]

/-- What was given so far. -/
structure Given where
  options : List (String × Text) := []
  places : List Text := []

/-- The value of an option. -/
def Given.option? (g : Given) (name : String) : Option Text :=
  (g.options.find? fun o => o.1 == name).map Prod.snd

/-- A whole number up to the largest word of 32 bits. -/
def count? (text : Text) : Option Nat :=
  let digits := match text with
    | '+' :: rest | '-' :: rest => rest
    | _ => text
  if digits.isEmpty || !digits.all Char.isDigit then
    none
  else
    let n := digits.foldl (fun n c => 10 * n + (c.toNat - '0'.toNat)) 0
    if text.head? == some '-' && n != 0 then none
    else if n < Nat.pow 2 32 then some n
    else none

/-- An output format. -/
def format? (text : Text) : Option OutputFormat :=
  if text == "text".toList then some .text
  else if text == "json".toList then some .json
  else none

/-- Whether a value is of the right shape. -/
def fits (shape : Shape) (value : Text) : Bool :=
  match shape with
  | .flag => false
  | .word => true
  | .path => !value.isEmpty
  | .count => (count? value).isSome
  | .format => (format? value).isSome

/-- Add an option, which can be given only once. -/
def Given.add (g : Given) (name : String) (value : Text) : Except Halt Given :=
  if (g.option? name).isSome then .error .misuse
  else .ok { g with options := g.options ++ [(name, value)] }

/-- Add a value in its place, if there is one left for it. -/
def Given.addPlace (g : Given) (places : List Shape) (value : Text) : Except Halt Given :=
  match places[g.places.length]? with
  | none => .error .misuse
  | some shape =>
    if fits shape value then .ok { g with places := g.places ++ [value] }
    else .error .misuse

/-- Whether an argument reads as an option. -/
def isOption (arg : Text) : Bool :=
  match arg with
  | '-' :: _ :: _ => true
  | _ => false

/-- Name and value of a long option, without its dashes. -/
def splitLong (body : Text) : String × Option Text :=
  let name := body.takeWhile (· != '=')
  match body.drop name.length with
  | [] => (String.ofList name, none)
  | _ :: value => (String.ofList name, some value)

/-- What an option takes, if it is known. -/
def shape? (options : Options) (name : String) : Option Shape :=
  (options.find? fun o => o.1 == name).map Prod.snd

/-- Read the arguments of a command. -/
def readOptions (topic : Topic) (options : Options) (places : List Shape) :
    List Text → Given → Except Halt Given
  | [], g => .ok g
  | ['-', '-'] :: rest, g => rest.foldlM (fun g value => g.addPlace places value) g
  | ('-' :: '-' :: body) :: rest, g =>
    match splitLong body with
    | ("help", none) => .error (.help topic true)
    | (name, value) =>
      match shape? options name, value with
      | none, _ => .error .misuse
      | some .flag, none => do readOptions topic options places rest (← g.add name [])
      | some shape, some v =>
        if fits shape v then do readOptions topic options places rest (← g.add name v)
        else .error .misuse
      | some shape, none =>
        match rest with
        | [] => .error .misuse
        | v :: rest =>
          if !isOption v && fits shape v then do
            readOptions topic options places rest (← g.add name v)
          else .error .misuse
  | ('-' :: c :: _) :: _, _ => .error (if c == 'h' then .help topic false else .misuse)
  | value :: rest, g => do readOptions topic options places rest (← g.addPlace places value)

/-- The output format that was asked for. -/
def Given.format (g : Given) : OutputFormat :=
  ((g.option? "format").bind format?).getD .text

/-- The selection that was asked for. Start is needed; the end needs both line and column. -/
def Given.selection? (g : Given) : Option Selection :=
  let number (name : String) : Option Nat := (g.option? name).bind count?
  match number "line", number "column", number "end-line", number "end-column" with
  | some line, some column, none, none => some (.cursor ⟨line, column⟩)
  | some line, some column, some endLine, some endColumn =>
    some (.between ⟨line, column⟩ ⟨endLine, endColumn⟩)
  | _, _, _, _ => none

/-- A command needs all its parts. -/
def required {α : Type} (found : Option α) : Except Halt α :=
  match found with
  | some a => .ok a
  | none => .error .misuse

/-- The command `refactor`. -/
def readRefactor (args : List Text) : Except Halt (Given × Task) := do
  let g ← readOptions .refactor
    (globalOptions ++ selectionOptions ++ [("write", .flag), ("format", .format)])
    [.word, .path] args {}
  let selection ← required g.selection?
  match g.places with
  | [key, file] =>
    return (g, .refactor (String.ofList key) file selection (g.option? "write").isSome g.format)
  | _ => throw .misuse

/-- The command `list`. -/
def readList (args : List Text) : Except Halt (Given × Task) := do
  let g ← readOptions .list (globalOptions ++ [("format", .format)]) [] args {}
  return (g, .list g.format)

/-- The command `actions`. -/
def readActions (args : List Text) : Except Halt (Given × Task) := do
  let g ← readOptions .actions
    (globalOptions ++ selectionOptions ++ [("format", .format)]) [.path] args {}
  let selection ← required g.selection?
  match g.places with
  | [file] => return (g, .actions file selection g.format)
  | _ => throw .misuse

/-- What `help` is asked about. -/
def readHelp (args : List Text) : Halt :=
  match args.map String.ofList with
  | [] => .help .program true
  | ["refactor"] => .help .refactor true
  | ["list"] => .help .list true
  | ["actions"] => .help .actions true
  | ["help"] => .help .help true
  | _ => .misuse

/-- The command with a given name. -/
def readTask (name : String) (args : List Text) : Except Halt (Given × Task) :=
  match name with
  | "refactor" => readRefactor args
  | "list" => readList args
  | "actions" => readActions args
  | "help" => .error (readHelp args)
  | _ => .error .misuse

/-- Read the arguments up to the command, and then those of the command. A configuration file
that is named after the command wins over one before it. -/
def readFrom (config : Option Text) : List Text → Except Halt Invocation
  | [] => .error .misuse
  | ('-' :: '-' :: body) :: rest =>
    match splitLong body with
    | ("help", none) => .error (.help .program true)
    | ("version", none) => .error .version
    | ("config", some path) =>
      if config.isNone && !path.isEmpty then readFrom (some path) rest else .error .misuse
    | ("config", none) =>
      match rest with
      | [] => .error .misuse
      | path :: rest =>
        if config.isNone && !isOption path && !path.isEmpty then readFrom (some path) rest
        else .error .misuse
    | _ => .error .misuse
  | ('-' :: c :: _) :: _ =>
    .error (if c == 'h' then .help .program false else if c == 'V' then .version else .misuse)
  | name :: rest =>
    match readTask (String.ofList name) rest with
    | .error h => .error h
    | .ok (g, task) => .ok ⟨(g.option? "config").orElse fun _ => config, task⟩

/-- The command that arguments spell. -/
def read (args : List Text) : Except Halt Invocation := readFrom none args

end Args

end Retouch
