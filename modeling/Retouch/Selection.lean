/-!
# Positions and selections

A position is a zero-based line and column; columns count characters. A selection is a pair of
positions in order, and a cursor is a selection of width zero.

- `Position.le`: line-major order, as a decidable relation `≤`.
- `Selection.between`: the selection with two given ends, in whichever order they come.
- `Selection.isInside`, `Selection.overlaps`: containment and contact, boundaries included.
- `Selection.display`: `line:column`, or the two ends joined by a dash.
-/

namespace Retouch

/-- A point of a document. -/
structure Position where
  line : Nat
  column : Nat
deriving DecidableEq, Repr

namespace Position

/-- Line-major order. -/
def le (a b : Position) : Prop :=
  a.line < b.line ∨ a.line = b.line ∧ a.column ≤ b.column

instance : LE Position := ⟨le⟩

instance (a b : Position) : Decidable (a ≤ b) :=
  inferInstanceAs (Decidable (a.line < b.line ∨ a.line = b.line ∧ a.column ≤ b.column))

instance : LT Position := ⟨fun a b => ¬ b ≤ a⟩

instance (a b : Position) : Decidable (a < b) :=
  inferInstanceAs (Decidable (¬ b ≤ a))

theorem le_iff (a b : Position) :
    a ≤ b ↔ a.line < b.line ∨ a.line = b.line ∧ a.column ≤ b.column :=
  Iff.rfl

theorem lt_iff_not_le (a b : Position) : a < b ↔ ¬ b ≤ a :=
  Iff.rfl

theorem le_of_lt {a b : Position} (h : a < b) : a ≤ b := by
  rw [lt_iff_not_le, le_iff] at h
  rw [le_iff]
  omega

/-- How a position compares with another. -/
def order (a b : Position) : Ordering :=
  if a < b then .lt else if b < a then .gt else .eq

/-- `line:column`. -/
def display (p : Position) : String :=
  toString p.line ++ ":" ++ toString p.column

end Position

/-- A range of a document, given by its ends in order. -/
structure Selection where
  start : Position
  stop : Position
  start_le_stop : start ≤ stop

instance : DecidableEq Selection := fun a b =>
  if h : a.start = b.start ∧ a.stop = b.stop then
    isTrue (by cases a; cases b; simp_all)
  else
    isFalse (fun e => h (by cases e; exact ⟨rfl, rfl⟩))

namespace Selection

/-- The selection with the two given ends; a pair given backwards is turned round. -/
def between (a b : Position) : Selection :=
  if h : b < a then ⟨b, a, Position.le_of_lt h⟩
  else ⟨a, b, Decidable.not_not.mp h⟩

/-- A selection of width zero. -/
def cursor (p : Position) : Selection :=
  ⟨p, p, by rw [Position.le_iff]; omega⟩

/-- True of a bare cursor. -/
def isEmpty (s : Selection) : Bool :=
  s.start = s.stop

/-- Number of line breaks covered. -/
def height (s : Selection) : Nat :=
  s.stop.line - s.start.line

/-- Whether a position lies in the selection, ends included. -/
def contains (s : Selection) (p : Position) : Bool :=
  s.start ≤ p && p ≤ s.stop

/-- Whether both ends of the first selection lie in the second. -/
def isInside (s outer : Selection) : Bool :=
  outer.contains s.start && outer.contains s.stop

/-- Whether the first selection starts strictly before the second. -/
def startsBefore (s other : Selection) : Bool :=
  s.start < other.start

/-- Whether two selections share at least one point. -/
def overlaps (s other : Selection) : Bool :=
  s.start ≤ other.stop && other.start ≤ s.stop

/-- The cursor at the start of a selection. -/
def collapse (s : Selection) : Selection :=
  cursor s.start

/-- One position for a cursor, both ends joined by a dash otherwise. -/
def display (s : Selection) : String :=
  if s.isEmpty then s.start.display else s.start.display ++ "-" ++ s.stop.display

end Selection

end Retouch
