/-
The configuration of a run.

A configuration says where to look for templates, what to leave out, which file extensions
templates have, and how and where the catalog is written. `Config.fault?` finds bad glob
patterns and a list of extensions that is empty.
-/
import TemplateCatalog.Catalog.Format
import TemplateCatalog.Files.Path
import TemplateCatalog.Glob.Pattern

namespace TemplateCatalog

/-- The configuration of a run; a field that is not given has its default. -/
structure Config where
  includes : List Text := []
  ignores : List Text := []
  extensions : List Text := ["html".toList, "htm".toList, "txt".toList, "tpl".toList]
  format : CatalogFormat := .gettext
  originComments : Bool := true
  output : Option Text := none
  deriving DecidableEq, Repr

/-- The name of the configuration file. -/
def configFileName : Text := ".tplxrc.json".toList

/-- What makes a configuration unusable. -/
inductive ConfigFault where
  | badIgnore (pattern : Text) (error : Glob.PatternError)
  | badInclude (pattern : Text) (error : Glob.PatternError)
  | noExtensions
  deriving DecidableEq, Repr

/-- The fault in words, the cause after it. -/
def ConfigFault.messages : ConfigFault → List Text
  | .badIgnore pattern error =>
    ["Invalid glob pattern in 'ignores': \"".toList ++ pattern ++ "\"".toList, error.message]
  | .badInclude pattern error =>
    ["Invalid glob pattern in 'includes': \"".toList ++ pattern ++ "\"".toList, error.message]
  | .noExtensions => ["'extensions' must list at least one template file extension".toList]

/-- Does a pattern hold a wildcard? Without one it is the path of a file or a directory. -/
def hasWildcard (pattern : Text) : Bool := pattern.contains '*' || pattern.contains '?'

/-- The first pattern that cannot be read. -/
def firstBadPattern? : List Text → Option (Text × Glob.PatternError)
  | [] => none
  | p :: ps =>
    match Glob.Pattern.parse p with
    | .error e => some (p, e)
    | .ok _ => firstBadPattern? ps

namespace Config

/-- The fault of a configuration: first of the ignores, then of the includes with wildcards,
then of the extensions. -/
def fault? (c : Config) : Option ConfigFault :=
  match firstBadPattern? c.ignores with
  | some (p, e) => some (.badIgnore p e)
  | none =>
    match firstBadPattern? (c.includes.filter hasWildcard) with
    | some (p, e) => some (.badInclude p e)
    | none => if c.extensions.isEmpty then some .noExtensions else none

/-- Two texts that differ in the case of ASCII letters at most. -/
def sameIgnoringCase (s t : Text) : Bool := s.map Char.toLower == t.map Char.toLower

/-- Has the path one of the extensions of templates? Points in front of an extension and the
case of ASCII letters do not matter. -/
def isTemplateFile (c : Config) (path : Text) : Bool :=
  match Path.extension? path with
  | none => false
  | some e => c.extensions.any fun x => sameIgnoringCase (x.dropWhile (· == '.')) e

end Config

end TemplateCatalog
