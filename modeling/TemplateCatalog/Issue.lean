/-
Issues of template files.

A file that cannot be read or extracted is an error, a translation tag that was skipped is a
warning. An issue knows where it lies, and everything a report says about it.
-/
import TemplateCatalog.Template.Position
import TemplateCatalog.TemplateFile

namespace TemplateCatalog

/-! ### Kinds -/

/-- How grave an issue is. -/
inductive Severity where
  | error
  | warning
  deriving DecidableEq, Repr

/-- The severity in words. -/
def Severity.name : Severity → Text
  | .error => "error".toList
  | .warning => "warning".toList

/-- What an issue is about. -/
inductive IssueCause where
  /-- The file cannot be read, for the reason given in words. -/
  | unreadable (reason : Text)
  /-- The extraction ended with an error. -/
  | invalid (error : SyntaxError)
  /-- A translation tag was skipped. -/
  | malformed (tag : MalformedTag)
  deriving DecidableEq, Repr

namespace IssueCause

/-- Skipped tags are warnings, all else is an error. -/
def severity : IssueCause → Severity
  | .malformed _ => .warning
  | .unreadable _ => .error
  | .invalid _ => .error

/-- The name of the rule that is broken. -/
def rule : IssueCause → Text
  | .unreadable _ => "read-error".toList
  | .invalid (.unterminatedTag _ _) => "unterminated-tag".toList
  | .invalid (.unparsableExpression _ _ _) => "unparsable-expression".toList
  | .malformed _ => "malformed-i18n-tag".toList

/-- The issue in words. -/
def message : IssueCause → Text
  | .unreadable reason => (FileFailure.unreadable reason).message
  | .invalid error => error.message
  | .malformed tag => "`".toList ++ tag.name ++ "` tag skipped: ".toList ++ tag.reason.message

/-- How to mend it. -/
def hint? : IssueCause → Option Text
  | .invalid (.unterminatedTag _ _) => some "close the tag on this or a later line".toList
  | .invalid (.unparsableExpression _ _ _) =>
    some "translatable text is written as _(\"text\") with matching quotes".toList
  | .unreadable _ => none
  | .malformed _ => none

/-- What follows from it. -/
def note? : IssueCause → Option Text
  | .invalid _ => some "no strings were extracted from this file".toList
  | .unreadable _ => none
  | .malformed _ => none

end IssueCause

/-! ### Issues -/

/-- An issue of the file `origin`, with its place in the file if it has one. -/
structure Issue where
  origin : Text
  position : Option Position
  cause : IssueCause
  deriving DecidableEq, Repr

namespace Issue

/-- The error of a file that gives no strings. -/
def ofFailure? (f : TemplateFile) : Option Issue :=
  match f.outcome with
  | .ok _ => none
  | .error (.unreadable reason) => some ⟨f.origin, none, .unreadable reason⟩
  | .error (.invalid e) => some ⟨f.origin, some (Position.locate f.source e.offset), .invalid e⟩

/-- The warnings of a file, one for every tag that was skipped. -/
def ofSkipped (f : TemplateFile) : List Issue :=
  f.extraction.skipped.map fun s =>
    ⟨f.origin, some (Position.locate f.source s.offset), .malformed s.tag⟩

/-- The errors of files. -/
def errors (files : List TemplateFile) : List Issue := files.filterMap ofFailure?

/-- The warnings of files. -/
def warnings (files : List TemplateFile) : List Issue := files.flatMap ofSkipped

/-- The issues of files, errors first. -/
def all (files : List TemplateFile) : List Issue := errors files ++ warnings files

/-- How grave the issue is. -/
def severity (i : Issue) : Severity := i.cause.severity

/-- The line of the issue, zero for a whole file. -/
def line (i : Issue) : Nat := (i.position.map Position.line).getD 0

/-- The column of the issue, zero for a whole file. -/
def column (i : Issue) : Nat := (i.position.map Position.column).getD 0

/-- Is the issue an error? -/
def isError (i : Issue) : Bool := i.severity == .error

end Issue

end TemplateCatalog
