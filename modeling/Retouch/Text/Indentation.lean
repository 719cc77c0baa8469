import Retouch.Text.Lines

/-!
# Indentation

- `indentUnit`: one level of indentation in the manner of a document.
- `reindent`: move a snippet of several lines from one base indentation to another.
-/

namespace Retouch

/-- A tab if some line that is not blank starts with a tab, and otherwise a number of spaces. -/
def indentUnit (source : Text) (width : Nat) : Text :=
  if source.rawLines.any fun line => !Text.isBlank line && line.head? == some '\t' then
    ['\t']
  else
    List.replicate width ' '

/-- Move one line: it loses as many leading blanks as the old base is long, if it has them, and
gains the new base. A blank line becomes empty. -/
def reindentLine (old new line : Text) : Text :=
  if Text.isBlank line then
    []
  else
    new ++ line.drop (min (line.takeWhile Text.isIndent).length (Text.size old))

/-- Move every line but the first, which the caller places. -/
def reindent (text old new : Text) : Text :=
  if old == new then
    text
  else
    match text.rawLines with
    | [] => []
    | first :: rest => first ++ rest.flatMap fun line => '\n' :: reindentLine old new line

end Retouch
