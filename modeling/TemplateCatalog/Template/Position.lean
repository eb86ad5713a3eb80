/-
Lines and columns.

`Position.locate` turns a byte of a template into a line, a column counted in characters, and
the line itself. A byte inside a character means that character, a byte past the end means the
end.
-/
import TemplateCatalog.Text.Basic

namespace TemplateCatalog

open Text

/-- A place in a template: line and column count from one, the line comes without its end. -/
structure Position where
  line : Nat
  column : Nat
  sourceLine : Text
  deriving DecidableEq, Repr

/-- The text after the last line feed. -/
def lastLine (s : Text) : Text := (s.reverse.takeWhile (· != '\n')).reverse

/-- The text up to the first line feed. -/
def firstLine (s : Text) : Text := s.takeWhile (· != '\n')

/-- The text without carriage returns at its end. -/
def dropReturns (s : Text) : Text := (s.reverse.dropWhile (· == '\r')).reverse

/-- The place of a byte in a template. -/
def Position.locate (template : Text) (offset : Nat) : Position :=
  let (before, after) := splitAtByte offset template
  { line := before.count '\n' + 1
    column := (lastLine before).length + 1
    sourceLine := dropReturns (lastLine before ++ firstLine after) }

end TemplateCatalog
