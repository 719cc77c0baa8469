import Retouch.Refactoring.Braces
import Retouch.Refactoring.Switch
import Retouch.Refactoring.Variable
import Retouch.Refactoring.GenericType
import Retouch.Refactoring.Ternary

/-!
# The refactorings

- `Refactoring`: every refactoring there is, with its names and texts.
- `Refactoring.ofKey?`, `Refactoring.ofKey`: the refactoring with a given key.
- `Refactoring.canPerform`: whether one applies at a selection.
- `Refactoring.transform`: what it produces there.
-/

namespace Retouch

/-- Every refactoring. -/
inductive Refactoring where
  | addBraces
  | convertToSwitch
  | extractVariable
  | extractGenericType
  | flipTernary
deriving DecidableEq, Repr

namespace Refactoring

/-- Every refactoring, in the order in which they are offered. -/
def all : List Refactoring :=
  [.addBraces, .convertToSwitch, .extractVariable, .extractGenericType, .flipTernary]

/-- Machine-readable name. -/
def key : Refactoring → String
  | .addBraces => "addBracesToIfStatement"
  | .convertToSwitch => "convertIfElseToSwitch"
  | .extractVariable => "extractVariable"
  | .extractGenericType => "extractGenericType"
  | .flipTernary => "flipTernary"

/-- Name for a list of commands. -/
def title : Refactoring → String
  | .addBraces => "Add Braces to If Statement"
  | .convertToSwitch => "Convert If/Else to Switch"
  | .extractVariable => "Extract Variable"
  | .extractGenericType => "Extract Generic Type"
  | .flipTernary => "Flip Ternary"

/-- Name for an offered action. -/
def actionMessage : Refactoring → String
  | .addBraces => "Add braces to if statement"
  | .convertToSwitch => "Convert if/else to switch"
  | .extractVariable => "Extract variable"
  | .extractGenericType => "Extract generic type"
  | .flipTernary => "Flip ternary"

/-- Whether the action is offered before others. -/
def isPreferred : Refactoring → Bool
  | .convertToSwitch | .flipTernary => true
  | .addBraces | .extractVariable | .extractGenericType => false

/-- Why it does not apply where it does not. -/
def reason : Refactoring → Reason
  | .addBraces => .noIfToBrace
  | .convertToSwitch => .noIfElseToConvert
  | .extractVariable => .noCodeToExtract
  | .extractGenericType => .noTypeToExtract
  | .flipTernary => .noTernaryToFlip

/-- The refactoring with a given key, if there is one. -/
def ofKey? (key : String) : Option Refactoring :=
  all.find? fun r => r.key == key

/-- The refactoring with a given key; another key is a fault. -/
def ofKey (key : String) : Except Fault Refactoring :=
  match ofKey? key with
  | some r => .ok r
  | none => .error (.notSupported ("Unknown refactoring '" ++ key ++ "'"))

/-- Whether a refactoring applies at a selection. -/
def canPerform (r : Refactoring) (t : Tree) (s : Selection) : Bool :=
  match r with
  | .addBraces => (Braces.target? t s).isSome
  | .convertToSwitch => (Switch.target? t s).isSome
  | .extractVariable => (Variable.target? t s).isSome
  | .extractGenericType => (GenericType.target? t s).isSome
  | .flipTernary => (Ternary.target? t s).isSome

/-- What a refactoring produces at a selection. -/
def transform (r : Refactoring) (t : Tree) (s : Selection) (settings : Settings) :
    Outcome Transformation :=
  match r with
  | .addBraces => Braces.transform t s settings
  | .convertToSwitch => Switch.transform t s settings
  | .extractVariable => Variable.transform t s settings
  | .extractGenericType => GenericType.transform t s
  | .flipTernary => Ternary.transform t s

end Refactoring

end Retouch
