/-
Looking for templates.

A scan walks the included directories and keeps the files with a template extension. An entry
without wildcards is a path below the base directory: an include leads to one directory or
file, an ignore leaves out all that lies below it. An entry with wildcards is a glob pattern:
an include stands for directories, an ignore is compared with the whole path of a file. What
cannot be used is noted in a warning and passed over.
-/
import TemplateCatalog.Config.Loading
import TemplateCatalog.Glob.Expansion

namespace TemplateCatalog

namespace Scan

open Text

/-! ### Warnings -/

/-- What a scan passes over. -/
inductive Warning where
  | invalidIgnore (pattern : Text) (error : Glob.PatternError)
  | invalidInclude (pattern : Text) (error : Glob.PatternError)
  | missingInclude (path : Text)
  | inaccessible (path : Text) (fault : FileFault)
  deriving DecidableEq, Repr

/-- The warning in words. -/
def Warning.message : Warning → Text
  | .invalidIgnore pattern error =>
    "Invalid ignore pattern '".toList ++ pattern ++ "': ".toList ++ error.message
  | .invalidInclude pattern error =>
    "Invalid glob pattern '".toList ++ pattern ++ "': ".toList ++ error.message
  | .missingInclude path => "Include path does not exist: ".toList ++ path
  | .inaccessible path fault =>
    "Cannot access path: IO error for operation on ".toList ++ path ++ ": ".toList ++ fault.message

/-! ### Ignores -/

/-- What is left out: everything below some paths, and everything that some patterns stand
for. -/
structure Ignores where
  paths : List Text
  patterns : List Glob.Pattern
  deriving Repr

namespace Ignores

/-- The ignores of a configuration for a base directory. -/
def ofEntries (base : Text) (entries : List Text) : Ignores where
  paths := (entries.filter (!hasWildcard ·)).map (Path.join base)
  patterns := (entries.filter hasWildcard).filterMap fun p => (Glob.Pattern.parse p).toOption

/-- Is a file left out? -/
def covers (i : Ignores) (path : Text) : Bool :=
  i.paths.any (Path.startsWith path) || i.patterns.any (·.matches? path)

end Ignores

/-- The ignores that are no patterns. -/
def ignoreWarnings (entries : List Text) : List Warning :=
  (entries.filter hasWildcard).filterMap fun p =>
    match Glob.Pattern.parse p with
    | .error e => some (.invalidIgnore p e)
    | .ok _ => none

/-! ### Includes -/

/-- The paths that an include stands for, and what is wrong with it. -/
def includePaths (tree : FileTree) (base : Text) (entry : Text) : List Text × List Warning :=
  let path := Path.join base entry
  if hasWildcard entry then
    match Glob.expand tree path with
    | .error e => ([], [.invalidInclude entry e])
    | .ok paths => (paths.filter tree.isDirectory, [])
  else if tree.existsAt path then ([path], [])
  else ([], [.missingInclude path])

/-- Where a scan starts; without includes at the base directory. -/
def startPaths (tree : FileTree) (base : Text) (includes : List Text) :
    List Text × List Warning :=
  if includes.isEmpty then ([base], [])
  else
    let found := includes.map (includePaths tree base)
    (found.flatMap Prod.fst, found.flatMap Prod.snd)

/-! ### Walks -/

/-- The files at or below a path. -/
def filesBelow (tree : FileTree) (path : Text) : Except FileFault (List Text) :=
  match tree.locate path with
  | .error e => .error e
  | .ok place =>
    match tree.at? place with
    | none => .error .notFound
    | some (.file _) => .ok [path]
    | some .directory =>
      .ok ((tree.descendants place).filterMap fun (names, item) =>
        match item with
        | .file _ => some (Path.join path (['/'].intercalate names))
        | .directory => none)

/-- The files of a walk; a path that cannot be walked has none. -/
def walked (tree : FileTree) (path : Text) : List Text :=
  match filesBelow tree path with
  | .error _ => []
  | .ok files => files

/-- The path that cannot be walked, as a warning. -/
def walkWarning? (tree : FileTree) (path : Text) : Option Warning :=
  match filesBelow tree path with
  | .error e => some (.inaccessible path e)
  | .ok _ => none

/-! ### Scans -/

/-- What a scan gives: the templates in order, how many paths could not be walked, and the
warnings in the order in which they come up. -/
structure Found where
  files : List Text
  skipped : Nat
  warnings : List Warning
  deriving Repr

/-- Is a file a template that is not left out? -/
def selects (config : Config) (ignores : Ignores) (path : Text) : Bool :=
  !ignores.covers path && config.isTemplateFile path

/-- The templates of a configuration below a base directory. -/
def run (tree : FileTree) (base : Text) (config : Config) : Found :=
  let ignores := Ignores.ofEntries base config.ignores
  let (starts, includeWarnings) := startPaths tree base config.includes
  let walkWarnings := starts.filterMap (walkWarning? tree)
  { files := sortDistinct ((starts.flatMap (walked tree)).filter (selects config ignores))
    skipped := walkWarnings.length
    warnings := ignoreWarnings config.ignores ++ includeWarnings ++ walkWarnings }

end Scan

end TemplateCatalog
