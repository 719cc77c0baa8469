import Retouch.Editor
import Retouch.Json

/-!
# The log

- `Event`: what a run tells, with its level and fields.
- `Editor.events`: what a refactoring in an editor tells.
-/

namespace Retouch

/-- How much a log line matters. -/
inductive Level where
  | error
  | warn
  | info
  | debug
  | trace
deriving DecidableEq, Repr

namespace Level

/-- All levels, from the most to the least important. -/
def all : List Level := [.error, .warn, .info, .debug, .trace]

/-- The number of a level, from one. -/
def rank : Level → Nat
  | .error => 1
  | .warn => 2
  | .info => 3
  | .debug => 4
  | .trace => 5

/-- Name in settings. -/
def key : Level → String
  | .error => "error"
  | .warn => "warn"
  | .info => "info"
  | .debug => "debug"
  | .trace => "trace"

/-- Name in log lines. -/
def heading : Level → String
  | .error => "ERROR"
  | .warn => "WARN"
  | .info => "INFO"
  | .debug => "DEBUG"
  | .trace => "TRACE"

end Level

/-- What a run tells. -/
inductive Event where
  | step (s : Step)
  | notApplicable (reason : Reason)
  | unsupported (command : Command)
  | applied

namespace Event

/-- Level of an event. -/
def level : Event → Level
  | .step _ | .unsupported _ => .debug
  | .notApplicable _ => .warn
  | .applied => .info

/-- Fields of a stage of planning. -/
def stepFields : Step → List (String × Json)
  | .parsed n => [("stage", .ofString "parsed"), ("nodes", .num n)]
  | .unmatched => [("stage", .ofString "failed"), ("gate", .ofString "matched")]
  | .matched => [("stage", .ofString "matched")]
  | .untransformed => [("stage", .ofString "failed"), ("gate", .ofString "transformed")]
  | .transformed => [("stage", .ofString "transformed")]
  | .validated => [("stage", .ofString "validated")]

/-- Fields of an event; its text is one of them. -/
def fields : Event → List (String × Json)
  | .step s => stepFields s
  | .notApplicable reason =>
    [("message", .ofString "Refactoring not applicable"), ("reason", .ofString reason.message)]
  | .unsupported command =>
    [("message", .ofString "Editor does not support command"),
      ("command", .ofString command.key)]
  | .applied => [("message", .ofString "Refactoring applied")]

end Event

/-- What is told once a transformation is accepted. -/
def Transformation.events (x : Transformation) (supportsCommands : Bool) : List Event :=
  match x with
  | .patches _ (some command) =>
    if supportsCommands then [.applied] else [.unsupported command, .applied]
  | _ => [.applied]

/-- What a refactoring in an editor tells. -/
def Editor.events (e : Editor) (r : Refactoring) (settings : Settings) : List Event :=
  (planSteps r e.code e.selection settings).map .step ++
    match plan r e.code e.selection settings with
    | .error (.notApplicable reason) => [.notApplicable reason]
    | .error _ => []
    | .ok x =>
      match (e.accept x).2 with
      | .error _ => []
      | .ok _ => x.events e.supportsCommands

end Retouch
