import Retouch.Config.Basic
import Retouch.Workspace

/-!
# Where the configuration comes from

- `Config.searchPaths`: the files that are looked for, the first one that is there counts.
- `Config.find`: the configuration of a run. A directory in the place of a file sets nothing.
-/

namespace Retouch.Config

/-- The files that are looked for. -/
def searchPaths : List Text := ["mill.toml".toList, ".mill/config.toml".toList]

/-- The configuration with the file at a path over the defaults, and the environment over both. -/
def loadAt (path : Text) (env : List (String × String)) (access : Text → Access) :
    Except Fault Config :=
  match access path with
  | .text content => load (some content) env
  | .unreadable => .error loadFault
  | _ => load none env

/-- The configuration of a run. -/
def find (explicit : Option Text) (env : List (String × String)) (access : Text → Access) :
    Except Fault Config :=
  match explicit with
  | some path =>
    if (access path).isThere then loadAt path env access
    else .error (.config ("Configuration file not found: " ++ String.ofList path))
  | none =>
    match searchPaths.find? fun path => (access path).isThere with
    | some path => loadAt path env access
    | none => load none env

end Retouch.Config
