/-
Reports on issues.

A report lists issues by file, line and column, each with its message, its place, the line of
the template with a caret below the column, and notes; a summary counts errors and warnings.
Line numbers are aligned to the right, so that all bars of a report stand in one column.
-/
import TemplateCatalog.Issue
import TemplateCatalog.Report.Ink
import TemplateCatalog.Text.Width

namespace TemplateCatalog

namespace Report

open Text

/-! ### Order -/

/-- Does an issue stand at the place of another or before it? -/
def inOrder (a b : Issue) : Bool :=
  if a.origin ≠ b.origin then decide (a.origin < b.origin)
  else if a.line ≠ b.line then decide (a.line < b.line)
  else decide (a.column ≤ b.column)

/-- The issues by file, line and column; equal places keep their order. -/
def sorted (issues : List Issue) : List Issue := issues.mergeSort inOrder

/-- The width of the line numbers. -/
def gutterWidth (issues : List Issue) : Nat :=
  (decimal ((issues.map Issue.line).foldl max 0)).length

/-! ### Issues -/

/-- The ink of a severity. -/
def severityInk : Severity → Ink
  | .error => .boldRed
  | .warning => .boldYellow

/-- The ink of the caret. -/
def caretInk : Severity → Ink
  | .error => .red
  | .warning => .yellow

/-- A text aligned to the right. -/
def alignRight (width : Nat) (s : Text) : Text := spaces (width - s.length) ++ s

/-- The empty gutter and a mark. -/
def gutter (color : Bool) (width : Nat) (mark : Text) : Text :=
  spaces width ++ ' ' :: Ink.blue.paint color mark

/-- The line that names the severity, the message and the rule. -/
def headLine (color : Bool) (i : Issue) : Text :=
  (severityInk i.severity).paint color i.severity.name ++ ": ".toList ++ i.cause.message ++
    "  ".toList ++ Ink.dimmedCyan.paint color i.cause.rule

/-- The line that names the place. -/
def placeLine (color : Bool) (i : Issue) : Text :=
  "  ".toList ++ Ink.blue.paint color "-->".toList ++ ' ' :: i.origin ++
    match i.position with
    | none => []
    | some p => ':' :: decimal p.line ++ ':' :: decimal p.column

/-- The line of the template, and the caret below the column. -/
def sourceLines (color : Bool) (width : Nat) (severity : Severity) (p : Position) : List Text :=
  let bar := Ink.blue.paint color "|".toList
  let before := p.sourceLine.take (p.column - 1)
  [ gutter color width "|".toList,
    Ink.blue.paint color (alignRight width (decimal p.line)) ++ ' ' :: bar ++ ' ' :: p.sourceLine,
    gutter color width "|".toList ++ ' ' :: spaces (displayWidth before) ++
      (caretInk severity).paint color "^".toList ]

/-- A line with a note. -/
def noteLine (color : Bool) (width : Nat) (ink : Ink) (label note : Text) : Text :=
  gutter color width "=".toList ++ ' ' :: ink.paint color label ++ ' ' :: note

/-- The lines of an issue, an empty one at the end. -/
def issueLines (color : Bool) (width : Nat) (i : Issue) : List Text :=
  [headLine color i, placeLine color i] ++
    (i.position.toList.flatMap (sourceLines color width i.severity)) ++
    (i.cause.note?.toList.map (noteLine color width .bold "note:".toList)) ++
    (i.cause.hint?.toList.map (noteLine color width .boldCyan "hint:".toList)) ++ [[]]

/-! ### Summary -/

/-- A noun for a number of things. -/
def plural (n : Nat) (one many : Text) : Text := if n = 1 then one else many

/-- The mark of a run that found issues. -/
def failureMark : Text := "✘".toList

/-- The mark of a run that did its work. -/
def successMark : Text := "✓".toList

/-- The line that counts the issues. -/
def summaryLine (color : Bool) (issues : List Issue) : Text :=
  let errors := issues.countP Issue.isError
  let warnings := issues.length - errors
  Ink.red.paint color failureMark ++ ' ' :: decimal issues.length ++ " problems (".toList ++
    decimal errors ++ ' ' :: Ink.red.paint color (plural errors "error".toList "errors".toList) ++
    ", ".toList ++ decimal warnings ++
    ' ' :: Ink.yellow.paint color (plural warnings "warning".toList "warnings".toList) ++
    ")".toList

/-- The report on issues; without issues there is nothing to report. -/
def render (color : Bool) (issues : List Issue) : Text :=
  if issues.isEmpty then []
  else
    let list := sorted issues
    let width := gutterWidth list
    ((list.flatMap (issueLines color width)) ++ [summaryLine color list]).flatMap Text.line

end Report

end TemplateCatalog
