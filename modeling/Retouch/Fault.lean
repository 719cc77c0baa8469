/-!
# Faults and reasons

A fault is an error of the input or of the tool, with a category and a text for the user. A
reason says why a refactoring does not apply; it is an answer and not an error.

- `Fault.category`, `Fault.message`: the machine-readable and the displayed form.
- `Fault.withContext`: attach where an internal fault arose; other faults are left alone.
- `Reason.key`, `Reason.message`: the two forms of a reason.
-/

namespace Retouch

/-- What went wrong, by category. -/
inductive Fault where
  | parse (cause : String) (line column : Nat)
  | config (cause : String)
  | invalidData (cause : String)
  | notSupported (cause : String)
  | internal (cause : String) (context : Option String)
deriving DecidableEq, Repr

namespace Fault

/-- Machine-readable name of the category. -/
def category : Fault → String
  | .parse .. => "parse"
  | .config _ => "config"
  | .invalidData _ => "invalid_data"
  | .notSupported _ => "not_supported"
  | .internal .. => "internal"

/-- Text for the user: the category's heading and the cause. -/
def message : Fault → String
  | .parse cause _ _ => "Parse error: " ++ cause
  | .config cause => "Configuration error: " ++ cause
  | .invalidData cause => "Invalid data: " ++ cause
  | .notSupported cause => "Operation not supported: " ++ cause
  | .internal cause _ => "Internal error: " ++ cause

/-- Only an internal fault has room for a context; the last one given stays. -/
def withContext (context : String) : Fault → Fault
  | .internal cause _ => .internal cause (some context)
  | other => other

end Fault

/-- Why a refactoring found nothing to do at a selection. -/
inductive Reason where
  | noIfToBrace
  | noIfElseToConvert
  | noCodeToExtract
  | noTypeToExtract
  | noTernaryToFlip
deriving DecidableEq, Repr

namespace Reason

/-- Every reason, in the order in which they are listed. -/
def all : List Reason :=
  [.noIfToBrace, .noIfElseToConvert, .noCodeToExtract, .noTypeToExtract, .noTernaryToFlip]

/-- Machine-readable name. -/
def key : Reason → String
  | .noIfToBrace => "didNotFoundIfStatementToAddBraces"
  | .noIfElseToConvert => "didNotFoundIfElseToConvert"
  | .noCodeToExtract => "didNotFoundExtractedCode"
  | .noTypeToExtract => "didNotFoundTypeToExtract"
  | .noTernaryToFlip => "didNotFoundTernaryToFlip"

/-- The reason with a given name. -/
def ofKey? (key : String) : Option Reason :=
  all.find? fun reason => reason.key == key

/-- Text for the user. -/
def message : Reason → String
  | .noIfToBrace => "I didn't find an if statement to add braces to from current selection"
  | .noIfElseToConvert => "I didn't find a valid if/else to convert from current selection"
  | .noCodeToExtract => "I didn't find a valid code to extract from current selection"
  | .noTypeToExtract => "I didn't find a type to extract from current selection"
  | .noTernaryToFlip => "I didn't find a ternary to flip from current selection"

end Reason

/-- How an operation on a document can end without a result: it does not apply, it meets a
fault, or it would cut a character in two and is abandoned. -/
inductive Failure where
  | notApplicable (reason : Reason)
  | fault (fault : Fault)
  | brokenSlice
deriving DecidableEq, Repr

end Retouch
