import Retouch.Cli.Help
import Retouch.Config.Load
import Retouch.Log.Filter
import Retouch.Path

/-!
# Runs of the command line

- `Report`: what a run prints, tells and writes, and its exit code.
- `Cli.report`: the report of a run, given the arguments, the environment and the files.
- `Cli.run`: the report, and the files afterwards.
-/

namespace Retouch

/-- What a run prints, tells and writes. -/
structure Report where
  exit : Nat
  output : Text := []
  /-- messages to the user, apart from the output -/
  messages : List String := []
  events : List Event := []
  /-- how events are written -/
  format : LogFormat := .pretty
  /-- the file that is written, and its new text -/
  written : Option (Text × Text) := none

namespace Cli

/-- The environment: names and values of variables. -/
abbrev Environment := List (String × String)

/-- The value of a variable. -/
def valueOf? (env : Environment) (name : String) : Option String :=
  (env.find? fun v => v.1 == name).map Prod.snd

/-- The format of log lines: a variable wins over the configuration if it names one. -/
def logFormat (env : Environment) (c : Config) : LogFormat :=
  match (valueOf? env "LOG_FORMAT").map fun v => v.toList.map Char.toLower with
  | some name =>
    if name == "json".toList then .json
    else if name == "pretty".toList || name == "human".toList then .pretty
    else c.format
  | none => c.format

/-- The filter of log lines: directives in a variable win over the configured level. -/
def logFilter (env : Environment) (c : Config) : Filter :=
  let configured := (Directive.rank? c.level.toList).getD Level.warn.rank
  Filter.read ((valueOf? env "RUST_LOG").getD "").toList configured

/-- A run that ends with an error message. -/
def failed (message : String) : Report :=
  { exit := 1, messages := ["❌ Error: " ++ message] }

/-- A text with blanks up to the column after the keys. -/
def keyColumn (key : String) : String := Help.padded 26 key

/-- Output of one value. -/
def printed (v : Json) : Text := v.render ++ ['\n']

/-- A position as output. -/
def positionJson (p : Position) : Json := .obj [("column", .num p.column), ("line", .num p.line)]

/-- A selection as output. -/
def selectionJson (s : Selection) : Json :=
  .obj [("end", positionJson s.stop), ("start", positionJson s.start)]

/-- How a refactoring ended, as output. -/
def endingJson : Ending → Json
  | .applied => .obj [("status", .ofString "applied")]
  | .notApplicable reason =>
    .obj [("reason", .ofString reason.key), ("status", .ofString "notApplicable")]

/-- The message of an ending. -/
def endingMessage : Ending → Json
  | .applied => .null
  | .notApplicable reason => .ofString reason.message

/-- The list of all refactorings. -/
def listReport (format : OutputFormat) : Report :=
  match format with
  | .json =>
    { exit := 0
      output := printed (.arr (Refactoring.all.map fun r => .obj
        [("actionMessage", .ofString r.actionMessage), ("isPreferred", .bool r.isPreferred),
          ("key", .ofString r.key), ("title", .ofString r.title)])) }
  | .text =>
    { exit := 0
      output := Refactoring.all.flatMap fun r => (keyColumn r.key ++ " " ++ r.title ++ "\n").toList }

/-- What is offered at a selection. -/
def actionsReport (found : List Refactoring) (format : OutputFormat) : Report :=
  match format with
  | .json =>
    { exit := 0
      output := printed (.arr (found.map fun r => .obj
        [("isPreferred", .bool r.isPreferred), ("key", .ofString r.key),
          ("message", .ofString r.actionMessage)])) }
  | .text =>
    { exit := 0
      output := found.flatMap fun r =>
        ((if r.isPreferred then "* " else "  ") ++ keyColumn r.key ++ " " ++ r.actionMessage
          ++ "\n").toList
      messages := if found.isEmpty then ["No refactoring available at this selection"] else [] }

/-- A fault during a refactoring. -/
def faultReport (r : Refactoring) (file : Text) (format : OutputFormat) (fault : Fault) : Report :=
  match format with
  | .json =>
    { exit := 1
      output := printed (.obj
        [("error", .obj
            [("category", .ofString fault.category), ("message", .ofString fault.message)]),
          ("file", .str file), ("refactoring", .ofString r.key)]) }
  | .text => failed (r.key ++ " failed on " ++ String.ofList file ++ ": " ++ fault.message)

/-- The output of a refactoring as one value. -/
def endingOutput (r : Refactoring) (file : Text) (write : Bool) (after : Editor) (ending : Ending) :
    Text :=
  printed (.obj
    [("code", .str after.code), ("file", .str file), ("message", endingMessage ending),
      ("outcome", endingJson ending), ("refactoring", .ofString r.key),
      ("selection", selectionJson after.selection),
      ("written", .bool (write && ending == .applied))])

/-- A refactoring that was applied. -/
def appliedReport (r : Refactoring) (file : Text) (write : Bool) (format : OutputFormat)
    (after : Editor) : Report :=
  { exit := 0
    output := match format with
      | .json => endingOutput r file write after .applied
      | .text => if write then [] else after.code
    messages :=
      if write && format == .text then
        ["✅ " ++ r.title ++ " applied to " ++ String.ofList file]
      else
        []
    written := if write then some (file, after.code) else none }

/-- A refactoring that found nothing to do. -/
def notApplicableReport (r : Refactoring) (file : Text) (write : Bool) (format : OutputFormat)
    (after : Editor) (reason : Reason) : Report :=
  { exit := 1
    output := match format with
      | .json => endingOutput r file write after (.notApplicable reason)
      | .text => []
    messages := match format with
      | .json => []
      | .text => ["❌ " ++ reason.message] }

/-- Run a refactoring over the text of a file. -/
def refactorReport (r : Refactoring) (file code : Text) (s : Selection) (write : Bool)
    (format : OutputFormat) (settings : Settings) : Report :=
  let editor : Editor := { code := code, selection := s, supportsCommands := false }
  let (after, result) := editor.run r settings
  let report := match result with
    | .ok .applied => appliedReport r file write format after
    | .ok (.notApplicable reason) => notApplicableReport r file write format after reason
    | .error (.fault fault) => faultReport r file format fault
    | .error (.notApplicable reason) => notApplicableReport r file write format after reason
    | .error .brokenSlice => { exit := 101 }
  { report with events := editor.events r settings }

/-- A file that cannot be read. -/
def unreadable (file : Text) (a : Access) : Report :=
  failed ("Failed to read " ++ String.ofList file ++ ": " ++ a.obstacle)

/-- Settings for a file: its extension can switch markup on. -/
def settingsFor (settings : Settings) (file : Text) : Settings :=
  { settings with dialect := settings.dialect.forPath file }

/-- Do what a command asks. -/
def perform (task : Task) (settings : Settings) (access : Text → Access) : Report :=
  match task with
  | .list format => listReport format
  | .actions file s format =>
    match access file with
    | .text code =>
      match availableActions code s (settingsFor settings file) with
      | .ok found => actionsReport found format
      | .error fault => failed fault.message
    | other => unreadable file other
  | .refactor key file s write format =>
    match Refactoring.ofKey key with
    | .error fault => failed fault.message
    | .ok r =>
      match access file with
      | .text code => refactorReport r file code s write format (settingsFor settings file)
      | other => unreadable file other

/-- The occasion of the events that a command gives rise to. -/
def occasion : Task → Occasion
  | .refactor key _ s .. => ⟨key.toList, s.start⟩
  | .actions _ s _ => ⟨[], s.start⟩
  | .list _ => ⟨[], ⟨0, 0⟩⟩

/-- What is printed when no command is run. -/
def haltReport : Halt → Report
  | .misuse => { exit := 2 }
  | .version => { exit := 0, output := versionText.toList }
  | .help topic long => { exit := 0, output := (topic.helpText long).toList }

/-- The report of a run. -/
def report (args : List Text) (env : Environment) (access : Text → Access) : Report :=
  match Args.read args with
  | .error halt => haltReport halt
  | .ok invocation =>
    match Config.find invocation.config env access with
    | .error fault => failed fault.message
    | .ok c =>
      let done := perform invocation.task c.settings access
      { done with
        events := (logFilter env c).select (occasion invocation.task) done.events
        format := logFormat env c }

/-- Write what a run writes. -/
def applyTo {σ : Type} [Files σ] (r : Report) (files : σ) : σ :=
  match r.written with
  | some (path, content) => Files.write files path content
  | none => files

/-- The report of a run, and the files afterwards. -/
def run {σ : Type} [Files σ] (args : List Text) (env : Environment) (files : σ) : Report × σ :=
  let done := report args env (Files.access files)
  (done, applyTo done files)

/-- The files that a run may read. -/
def paths (args : List Text) : List Text :=
  Config.searchPaths ++
    match Args.read args with
    | .error _ => []
    | .ok invocation =>
      invocation.config.toList ++
        match invocation.task with
        | .refactor _ file .. => [file]
        | .actions file .. => [file]
        | .list _ => []

end Cli

end Retouch
