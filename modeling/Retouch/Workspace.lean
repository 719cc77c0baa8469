import Retouch.Text.Basic

/-!
# Files

- `Access`: what an attempt to read a path comes to.
- `Files`: what a run needs to be able to do with files.
- `Disk`: files with any bytes in them, and any way to find a file by its path.
- `Workspace`: texts in a directory and below it, under paths relative to it.
-/

namespace Retouch

/-- The bytes that a file with the given text holds. -/
def Text.bytes (text : Text) : ByteArray := (String.ofList text).toUTF8

/-- What an attempt to read a path comes to. -/
inductive Access where
  | text (content : Text)
  | directory
  | missing
  /-- a part of the path before the last is a file -/
  | blocked
  /-- the content is no text -/
  | unreadable
deriving DecidableEq, Repr

namespace Access

/-- Whether something stands at the path. -/
def isThere : Access → Bool
  | .text _ | .directory | .unreadable => true
  | .missing | .blocked => false

/-- Why the path cannot be read. -/
def obstacle : Access → String
  | .text _ => ""
  | .directory => "Is a directory (os error 21)"
  | .missing => "No such file or directory (os error 2)"
  | .blocked => "Not a directory (os error 20)"
  | .unreadable => "stream did not contain valid UTF-8"

/-- What reading the bytes of a file comes to. -/
def ofBytes (bytes : ByteArray) : Access :=
  match String.fromUTF8? bytes with
  | some content => .text content.toList
  | none => .unreadable

end Access

/-- Files that can be read and written by their paths. -/
class Files (σ : Type) where
  /-- what stands at a path -/
  access : σ → Text → Access
  /-- put a new text into the file at a path -/
  write : σ → Text → Text → σ

/-- Files as a system keeps them. Which file a path leads to is up to the system: the path may be
absolute or start in a working directory, and several paths may lead to one file. -/
structure Disk (Place : Type) where
  /-- the place of the file that a path leads to, or why there is none -/
  locate : Text → Except Access Place
  /-- the bytes of the file at a place -/
  content : Place → ByteArray
  /-- where there is no file, nothing is read -/
  ne_text : ∀ {path a}, locate path = .error a → ∀ text, a ≠ .text text

namespace Disk

variable {Place : Type}

/-- What stands at a path. -/
def access (disk : Disk Place) (path : Text) : Access :=
  match disk.locate path with
  | .error a => a
  | .ok place => .ofBytes (disk.content place)

/-- Put new bytes into the file at a place. -/
def put [DecidableEq Place] (disk : Disk Place) (place : Place) (bytes : ByteArray) : Disk Place :=
  { disk with content := fun other => if other = place then bytes else disk.content other }

/-- Put a new text into the file at a path. -/
def write [DecidableEq Place] (disk : Disk Place) (path text : Text) : Disk Place :=
  match disk.locate path with
  | .error _ => disk
  | .ok place => disk.put place (Text.bytes text)

instance [DecidableEq Place] : Files (Disk Place) := ⟨access, write⟩

end Disk

/-- Texts by their paths. -/
structure Workspace where
  files : List (Text × Text)

namespace Workspace

/-- The names along a path. -/
def names (path : Text) : List Text := Text.splitOnChar '/' path

/-- The content of the file with the given names along its path. -/
def content? (w : Workspace) (place : List Text) : Option Text :=
  (w.files.find? fun file => names file.1 == place).map Prod.snd

/-- Whether some file is below a directory with the given names along its path. -/
def hasDirectory (w : Workspace) (place : List Text) : Bool :=
  place.isEmpty || w.files.any fun file => place.isPrefixOf (names file.1) && names file.1 != place

/-- Whether a name stays where it is. -/
def isHere (name : Text) : Bool := name.isEmpty || name == ['.']

/-- Follow names from a place; the result is the place they lead to. Above the workspace there are
only directories that hold nothing else. -/
def follow (w : Workspace) : List Text → List Text → Except Access (List Text)
  | [], place => .ok place
  | name :: rest, place =>
    if (w.content? place).isSome then
      .error .blocked
    else if isHere name then
      follow w rest place
    else if name == ['.', '.'] then
      match place with
      | [] => .error (if rest.all fun n => isHere n || n == ['.', '.'] then .directory else .missing)
      | _ => follow w rest place.dropLast
    else
      let next := place ++ [name]
      if (w.content? next).isSome || w.hasDirectory next then follow w rest next
      else .error .missing

/-- The place that a path leads to. -/
def locate (w : Workspace) (path : Text) : Except Access (List Text) :=
  match path with
  | [] => .error .missing
  | '/' :: rest =>
    .error (if (names rest).all fun n => isHere n || n == ['.', '.'] then .directory else .missing)
  | _ => w.follow (names path) []

/-- What stands at a path. -/
def access (w : Workspace) (path : Text) : Access :=
  match w.locate path with
  | .error a => a
  | .ok place =>
    match w.content? place with
    | some text => .text text
    | none => .directory

/-- Put a new text into the file at a path. -/
def write (w : Workspace) (path content : Text) : Workspace :=
  match w.locate path with
  | .error _ => w
  | .ok place =>
    ⟨w.files.map fun file => if names file.1 == place then (file.1, content) else file⟩

instance : Files Workspace := ⟨access, write⟩

end Workspace

end Retouch
