import Retouch.Text.Basic
import Retouch.Syntax.Parser.Basic

/-!
# Paths

- `Path.parts`: the parts of a path; empty parts and single points do not count.
- `Path.extension?`: what stands after the last point of a file's name, unless the name only
  starts with that point.
- `Dialect.forPath`: markup is read in files whose extension says so.
-/

namespace Retouch

namespace Path

/-- The parts of a path. -/
def parts (path : Text) : List Text :=
  (Text.splitOnChar '/' path).filter fun part => !part.isEmpty && part != ['.']

/-- The extension of a file's name. -/
def extensionOf? (name : Text) : Option Text :=
  match name.reverse.dropWhile (· != '.') with
  | [] => none
  | [_] => none
  | _ :: _ => some (name.reverse.takeWhile (· != '.')).reverse

/-- The extension of a path. -/
def extension? (path : Text) : Option Text :=
  match (parts path).getLast? with
  | none => none
  | some name => if name == "..".toList then none else extensionOf? name

end Path

/-- The dialect of a file: the given one, with markup if the file's extension says so. -/
def Syntax.Dialect.forPath (d : Syntax.Dialect) (path : Text) : Syntax.Dialect :=
  match Path.extension? path with
  | some ext => if ext == "tsx".toList || ext == "jsx".toList then { d with tsx := true } else d
  | none => d

end Retouch
