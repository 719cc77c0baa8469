import Retouch.Cli.Args

/-!
# Help texts

- `Topic.helpText`: the text for a topic, in short or at length.
- `versionText`: name and version of the program.
-/

namespace Retouch

/-- Name and version of the program. -/
def versionText : String := "mill 0.8.3\n"

namespace Help

/-- An option with what it is for and what it is if it is not given. -/
structure Entry where
  spelling : String
  text : String
  notes : List String := []

/-- The option for the configuration file. -/
def configEntry : Entry :=
  ⟨"    --config <CONFIG>", "Configuration file (defaults to mill.toml or .mill/config.toml)", []⟩

/-- The options that say where to look. -/
def selectionEntries : List Entry :=
  [⟨"    --line <LINE>", "Line of the cursor or selection start", []⟩,
    ⟨"    --column <COLUMN>", "Column of the cursor or selection start", []⟩,
    ⟨"    --end-line <END_LINE>", "Line of the selection end (omit for a cursor)", []⟩,
    ⟨"    --end-column <END_COLUMN>", "Column of the selection end (omit for a cursor)", []⟩]

/-- The option that writes the file. -/
def writeEntry : Entry := ⟨"    --write", "Write the result back to the file", []⟩

/-- The option for the output format. -/
def formatEntry : Entry :=
  ⟨"    --format <FORMAT>", "Output format", ["[default: text]", "[possible values: text, json]"]⟩

/-- The option for help. -/
def helpEntry (text : String) : Entry := ⟨"-h, --help", text, []⟩

/-- A text with blanks up to a width. -/
def padded (width : Nat) (s : String) : String :=
  String.ofList (s.toList ++ List.replicate (width - s.toList.length) ' ')

/-- Entries side by side with their texts. -/
def short (entries : List Entry) : String :=
  let width := entries.foldl (fun n e => max n e.spelling.toList.length) 0
  String.join (entries.map fun e =>
    "  " ++ padded width e.spelling ++ "  " ++ String.intercalate " " (e.text :: e.notes) ++ "\n")

/-- One entry above its text. -/
def longEntry (e : Entry) : String :=
  let notes := String.join (e.notes.map fun note => "\n          " ++ note)
  "  " ++ e.spelling ++ "\n          " ++ e.text
    ++ (if e.notes.isEmpty then "" else "\n          " ++ notes) ++ "\n"

/-- Entries above their texts. -/
def long (entries : List Entry) : String :=
  String.intercalate "\n" (entries.map longEntry)

/-- The commands. -/
def commandEntries : List Entry :=
  [⟨"refactor", "Run one refactoring over a file", []⟩,
    ⟨"list", "List every refactoring", []⟩,
    ⟨"actions", "List the refactorings available at a selection", []⟩,
    ⟨"help", "Print this message or the help of the given subcommand(s)", []⟩]

/-- Help for the program. -/
def program : String :=
  "Selection-driven refactorings for TypeScript and JavaScript\n\n"
    ++ "Usage: mill [OPTIONS] <COMMAND>\n\n"
    ++ "Commands:\n" ++ short commandEntries ++ "\nOptions:\n"
    ++ short [configEntry, helpEntry "Print help", ⟨"-V, --version", "Print version", []⟩]

/-- What `refactor` takes in its places. -/
def refactorPlaces : List Entry :=
  [⟨"<KEY>", "Refactoring key (see `mill list`)", []⟩, ⟨"<FILE>", "File to refactor", []⟩]

/-- The options of `refactor`. -/
def refactorOptions (help : String) : List Entry :=
  configEntry :: selectionEntries ++ [writeEntry, formatEntry, helpEntry help]

/-- How `refactor` is called. -/
def refactorUsage : String :=
  "Usage: mill refactor [OPTIONS] --line <LINE> --column <COLUMN> <KEY> <FILE>\n\n"

/-- Help for `refactor` in short. -/
def refactorShort : String :=
  "Run one refactoring over a file\n\n" ++ refactorUsage ++ "Arguments:\n"
    ++ short refactorPlaces ++ "\nOptions:\n"
    ++ short (refactorOptions "Print help (see more with '--help')")

/-- Help for `refactor` at length. -/
def refactorLong : String :=
  "Run one refactoring over a file\n\nPrints the refactored code unless --write is given.\n\n"
    ++ "Examples: mill refactor addBracesToIfStatement src/app.ts --line 3 --column 4 "
    ++ "mill refactor extractVariable src/app.ts --line 2 --column 7 --end-line 2 "
    ++ "--end-column 15 --write\n\n"
    ++ refactorUsage ++ "Arguments:\n" ++ long refactorPlaces ++ "\nOptions:\n"
    ++ long (refactorOptions "Print help (see a summary with '-h')")

/-- Help for `list`. -/
def list : String :=
  "List every refactoring\n\nUsage: mill list [OPTIONS]\n\nOptions:\n"
    ++ short [configEntry, formatEntry, helpEntry "Print help"]

/-- Help for `actions`. -/
def actions : String :=
  "List the refactorings available at a selection\n\n"
    ++ "Usage: mill actions [OPTIONS] --line <LINE> --column <COLUMN> <FILE>\n\nArguments:\n"
    ++ short [⟨"<FILE>", "File to inspect", []⟩] ++ "\nOptions:\n"
    ++ short (configEntry :: selectionEntries ++ [formatEntry, helpEntry "Print help"])

/-- Help for `help`. -/
def help : String :=
  "Print this message or the help of the given subcommand(s)\n\nUsage: mill help [COMMAND]...\n\n"
    ++ "Arguments:\n" ++ short [⟨"[COMMAND]...", "Print help for the subcommand(s)", []⟩]

end Help

/-- The help text for a topic. -/
def Topic.helpText (topic : Topic) (long : Bool) : String :=
  match topic with
  | .program => Help.program
  | .refactor => if long then Help.refactorLong else Help.refactorShort
  | .list => Help.list
  | .actions => Help.actions
  | .help => Help.help

end Retouch
