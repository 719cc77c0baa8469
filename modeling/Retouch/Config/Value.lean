import Retouch.Text.Basic

/-!
# Configuration values

What configuration files and the environment hold before it is known which settings it is for.

- `Value`: a value of any type.
- `Value.merge`: a later layer over an earlier one, key by key.
-/

namespace Retouch.Config

/-- A value in a configuration. -/
inductive Value where
  | null
  | bool (b : Bool)
  | int (n : Int)
  /-- a number that is no integer; its value is never needed -/
  | real
  | str (s : String)
  | list (items : List Value)
  | table (entries : List (String × Value))
deriving Inhabited

namespace Value

/-- The value of a key. -/
def lookup (key : String) : List (String × Value) → Option Value
  | [] => none
  | (k, v) :: rest => if k == key then some v else lookup key rest

/-- Put a value under a key: in place of the old one, or at the end. -/
def insert (key : String) (v : Value) : List (String × Value) → List (String × Value)
  | [] => [(key, v)]
  | (k, old) :: rest => if k == key then (k, v) :: rest else (k, old) :: insert key v rest

mutual

/-- A later value over an earlier one: tables are merged key by key, anything else is replaced. -/
def merge (old new : Value) : Value :=
  match new with
  | .table entries =>
    match old with
    | .table olds => .table (mergeEntries olds entries)
    | _ => .table entries
  | v => v

/-- Later entries over earlier ones. -/
def mergeEntries (olds : List (String × Value)) : List (String × Value) → List (String × Value)
  | [] => olds
  | (k, v) :: rest =>
    let merged := match lookup k olds with
      | some old => merge old v
      | none => v
    mergeEntries (insert k merged olds) rest

end

/-- A value under keys nested in each other. -/
def nest : List String → Value → Value
  | [], v => v
  | k :: rest, v => .table [(k, nest rest v)]

end Value

end Retouch.Config
