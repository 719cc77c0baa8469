import Retouch.Text.Indentation
import Retouch.Syntax.Parser.Basic

/-!
# Settings

The settings that shape what refactorings read and write.
-/

namespace Retouch

/-- Settings of a refactoring. -/
structure Settings where
  /-- name of an extracted variable -/
  extractedName : Text := "extracted".toList
  /-- spaces per level of indentation, in a text that shows none -/
  indentWidth : Nat := 2
  /-- read the new text again before it is handed over -/
  validateOutput : Bool := true
  dialect : Syntax.Dialect := {}

/-- One level of indentation in new code. -/
def Settings.indentUnit (o : Settings) (text : Text) : Text :=
  Retouch.indentUnit text o.indentWidth

end Retouch
