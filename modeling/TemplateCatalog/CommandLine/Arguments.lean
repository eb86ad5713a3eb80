/-
What a command line can say.

There are three commands: `extract` writes a catalog, `check` reports issues, `init` makes a
configuration file. A `Switch` is one of their options or flags, with its long and its short
name.
-/
import TemplateCatalog.Catalog.Format

namespace TemplateCatalog

namespace CommandLine

/-! ### Commands -/

/-- The options that extracting and checking share: the files to read instead of scanning, the
directory that is scanned, and whether to say more. -/
structure CommonOptions where
  files : List Text := []
  sourceRoot : Option Text := none
  verbose : Bool := false
  deriving DecidableEq, Repr

/-- The options of `extract`. -/
structure ExtractOptions where
  common : CommonOptions := {}
  format : Option CatalogFormat := none
  output : Option Text := none
  noOriginComments : Bool := false
  failFast : Bool := false
  deriving DecidableEq, Repr

/-- A command with its options. -/
inductive Command where
  | extract (options : ExtractOptions)
  | check (options : CommonOptions)
  | init
  deriving DecidableEq, Repr

/-! ### Usage errors -/

/-- Why a command line says nothing that can be done; asking for help or the version ends the
reading in the same way. -/
inductive UsageError where
  /-- A value that is missing or has the wrong form. -/
  | invalidValue
  /-- A switch or a file that the command does not have. -/
  | unknownArgument
  /-- A word in the place of a command. -/
  | invalidSubcommand
  /-- A switch that is given twice. -/
  | argumentConflict
  /-- A flag with a value. -/
  | tooManyValues
  | displayHelp
  | displayVersion
  deriving DecidableEq, Repr

/-- The word for the kind of error. -/
def UsageError.kind : UsageError → Text
  | .invalidValue => "InvalidValue".toList
  | .unknownArgument => "UnknownArgument".toList
  | .invalidSubcommand => "InvalidSubcommand".toList
  | .argumentConflict => "ArgumentConflict".toList
  | .tooManyValues => "TooManyValues".toList
  | .displayHelp => "DisplayHelp".toList
  | .displayVersion => "DisplayVersion".toList

/-! ### Subcommands and switches -/

/-- The words that choose what to do. -/
inductive Subcommand where
  | extract
  | check
  | init
  | help
  deriving DecidableEq, Repr

namespace Subcommand

/-- The word itself. -/
def name : Subcommand → Text
  | .extract => "extract".toList
  | .check => "check".toList
  | .init => "init".toList
  | .help => "help".toList

/-- All words. -/
def all : List Subcommand := [.extract, .check, .init, .help]

/-- The subcommand of a word. -/
def ofName? (s : Text) : Option Subcommand := all.find? (·.name == s)

end Subcommand

/-- The options and flags of the commands. -/
inductive Switch where
  | sourceRoot
  | format
  | output
  | verbose
  | noOriginComments
  | failFast
  | help
  deriving DecidableEq, Repr

namespace Switch

/-- The name after two dashes. -/
def longName : Switch → Text
  | .sourceRoot => "source-root".toList
  | .format => "format".toList
  | .output => "output".toList
  | .verbose => "verbose".toList
  | .noOriginComments => "no-origin-comments".toList
  | .failFast => "fail-fast".toList
  | .help => "help".toList

/-- The character after one dash. -/
def shortName? : Switch → Option Char
  | .output => some 'o'
  | .verbose => some 'v'
  | .help => some 'h'
  | .sourceRoot => none
  | .format => none
  | .noOriginComments => none
  | .failFast => none

/-- Does a value follow? -/
def takesValue : Switch → Bool
  | .sourceRoot => true
  | .format => true
  | .output => true
  | .verbose => false
  | .noOriginComments => false
  | .failFast => false
  | .help => false

end Switch

namespace Subcommand

/-- The switches of a subcommand. -/
def switches : Subcommand → List Switch
  | .extract => [.sourceRoot, .format, .output, .verbose, .noOriginComments, .failFast, .help]
  | .check => [.sourceRoot, .verbose, .help]
  | .init => [.help]
  | .help => []

/-- The switch with a long name. -/
def long? (c : Subcommand) (name : Text) : Option Switch := c.switches.find? (·.longName == name)

/-- The switch with a short name. -/
def short? (c : Subcommand) (name : Char) : Option Switch :=
  c.switches.find? (·.shortName? == some name)

/-- Can files follow? -/
def takesFiles : Subcommand → Bool
  | .extract => true
  | .check => true
  | .init => false
  | .help => false

end Subcommand

end CommandLine

end TemplateCatalog
