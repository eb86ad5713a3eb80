/-
Template files that have been extracted.

A file is read and its strings are extracted; what comes of it is kept together with the origin
label and the source, for catalogs and reports. A file that fails is an outcome, not an
exception: the other files of a run do not notice.
-/
import TemplateCatalog.Files.Tree
import TemplateCatalog.Template.Extraction

namespace TemplateCatalog

/-- Why a file gives no strings. The fault of a file that cannot be read comes in words. -/
inductive FileFailure where
  | unreadable (reason : Text)
  | invalid (error : SyntaxError)
  deriving DecidableEq, Repr

/-- The failure in words. -/
def FileFailure.message : FileFailure → Text
  | .unreadable reason => "cannot read file: ".toList ++ reason
  | .invalid error => error.message

/-- A template file: its path, its origin label, its text, and what it gives. -/
structure TemplateFile where
  path : Text
  origin : Text
  source : Text
  outcome : Except FileFailure Extraction
  deriving Repr

namespace TemplateFile

/-- The file with its strings, from the text that was read. -/
def ofText (path origin source : Text) : TemplateFile :=
  ⟨path, origin, source, (extract source).mapError .invalid⟩

/-- A file that cannot be read. -/
def unreadable (path origin reason : Text) : TemplateFile :=
  ⟨path, origin, [], .error (.unreadable reason)⟩

/-- Reads the file at a path and extracts its strings. -/
def load (tree : FileTree) (root path : Text) : TemplateFile :=
  match tree.read path with
  | .ok source => ofText path (Path.origin root path) source
  | .error fault => unreadable path (Path.origin root path) fault.message

/-- Does the file give its strings? -/
def isOk (f : TemplateFile) : Bool :=
  match f.outcome with
  | .ok _ => true
  | .error _ => false

/-- The strings of the file; a file that fails has none. -/
def extraction (f : TemplateFile) : Extraction :=
  match f.outcome with
  | .ok x => x
  | .error _ => {}

end TemplateFile

end TemplateCatalog
