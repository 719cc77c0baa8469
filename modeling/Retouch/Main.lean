import Retouch.Cli.Run

/-!
# The program

Reads what a run may need, makes the report, and does what it says.
-/

open Retouch

/-- What stands at a path on disk. -/
def accessOnDisk (path : Text) : IO Access := do
  try
    return .ofBytes (← IO.FS.readBinFile (String.ofList path))
  catch
    | .inappropriateType _ code _ => return if code == 21 then .directory else .blocked
    | _ => return .missing

/-- The variables of the environment. -/
def environment : IO Cli.Environment := do
  try
    let bytes ← IO.FS.readBinFile "/proc/self/environ"
    let text := (String.fromUTF8? bytes).getD ""
    return ((Text.splitOnChar (Char.ofNat 0) text.toList).filter (·.contains '=')).map fun entry =>
      let name := entry.takeWhile (· != '=')
      (String.ofList name, String.ofList (entry.drop (name.length + 1)))
  catch _ =>
    return []

/-- One line of the log. -/
def logLine (format : LogFormat) (e : Event) : String :=
  match format with
  | .json =>
    let fields := Json.obj [("level", .ofString e.level.heading), ("fields", .obj e.fields),
      ("target", .str Event.place)]
    String.ofList (fields.render.filter (· != '\n'))
  | .pretty => e.level.heading ++ " " ++ String.ofList (Json.obj e.fields).render

def main (args : List String) : IO UInt32 := do
  let args := args.map String.toList
  let env ← environment
  let found ← (Cli.paths args).mapM fun path => return (path, ← accessOnDisk path)
  let access (path : Text) : Access :=
    ((found.find? fun entry => entry.1 == path).map Prod.snd).getD .missing
  let report := Cli.report args env access
  if let some (path, content) := report.written then
    IO.FS.writeFile (String.ofList path) (String.ofList content)
  for e in report.events do
    IO.eprintln (logLine report.format e)
  for message in report.messages do
    IO.eprintln message
  IO.print (String.ofList report.output)
  return report.exit.toUInt32
