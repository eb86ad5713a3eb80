/-
Running a command.

A run works on a file tree and gives what it writes to its two outputs, its exit code and the
tree that it leaves. Errors of templates make the run fail with code 1; a fault of the
configuration or of the output ends it with code 2, and then nothing in the tree has changed
and no catalog is written.

The notes of a verbose run are part of what it writes. What it logs besides is left out.
-/
import TemplateCatalog.CommandLine.Reading
import TemplateCatalog.Config.Printing
import TemplateCatalog.Report.Issues
import TemplateCatalog.Scan

namespace TemplateCatalog

namespace CommandLine

open Text

/-! ### Outcomes -/

/-- What stops a run. -/
inductive RunFault where
  | config (fault : LoadFault)
  | unwritableCatalog (path : Text) (fault : FileFault)
  | configExists
  | unwritableConfig (fault : FileFault)
  deriving DecidableEq, Repr

/-- The fault in words, causes after it. -/
def RunFault.messages : RunFault → List Text
  | .config fault => fault.messages
  | .unwritableCatalog path fault =>
    ["Failed to write catalog: ".toList ++ path, fault.message]
  | .configExists => [configFileName ++ " already exists".toList]
  | .unwritableConfig fault => ["Failed to write ".toList ++ configFileName, fault.message]

/-- What a run writes, how it ends, and the tree that it leaves. -/
structure Outcome where
  tree : FileTree
  standardOutput : Text := []
  standardError : Text := []
  ending : Except RunFault Nat

/-- The exit code of a run. -/
def Outcome.exitCode (o : Outcome) : Nat :=
  match o.ending with
  | .error _ => 2
  | .ok code => code

/-- The fault that ended a run, as the last line of its standard error. -/
def Outcome.faultLine (o : Outcome) : Text :=
  match o.ending with
  | .error fault => line ("Error: ".toList ++ ": ".toList.intercalate fault.messages)
  | .ok _ => []

/-! ### Templates of a run -/

/-- What a run works on: the directory that origins are relative to, the configuration, the
paths of the templates in order, the number of paths that could not be walked, and the notes
made so far. -/
structure Session where
  root : Text
  config : Config
  paths : List Text
  skipped : Nat
  notes : Text
  deriving Repr

/-- A line that warns. -/
def warningLine (color : Bool) (message : Text) : Text :=
  line (Ink.boldYellow.paint color "warning:".toList ++ ' ' :: message)

/-- The note of a run without a configuration file. -/
def defaultsNote : Text :=
  line ("Note: No ".toList ++ configFileName ++ " found, using default configuration".toList)

/-- Loads the configuration and finds the templates. Files on the command line are taken as
they are, once each; else the root is scanned. -/
def Session.start (tree : FileTree) (color : Bool) (options : CommonOptions) :
    Except LoadFault Session :=
  let root := options.sourceRoot.getD ['.']
  match loadConfig tree root with
  | .error e => .error e
  | .ok loaded =>
    let note := if options.verbose && !loaded.fromFile then defaultsNote else []
    if options.files.isEmpty then
      let found := Scan.run tree root loaded.config
      let warnings := found.warnings.flatMap fun w => warningLine color w.message
      .ok { root := root
            config := loaded.config
            paths := found.files
            skipped := found.skipped
            notes := note ++ if options.verbose then warnings else [] }
    else
      .ok { root := root
            config := loaded.config
            paths := sortDistinct options.files
            skipped := 0
            notes := note }

/-- The templates of a run. -/
def Session.templates (s : Session) (tree : FileTree) : List TemplateFile :=
  s.paths.map (TemplateFile.load tree s.root)

/-- The note on paths that could not be walked, unless each had its own warning. -/
def skippedNote (color : Bool) (options : CommonOptions) (s : Session) : Text :=
  if s.skipped = 0 || options.verbose then []
  else
    warningLine color (decimal s.skipped ++ " path(s) could not be accessed (use ".toList ++
      Ink.cyan.paint color "-v".toList ++ " for details)".toList)

/-- One if some file fails, zero otherwise. -/
def exitCodeOf (issues : List Issue) : Nat := if issues.any Issue.isError then 1 else 0

/-- A line that says that something was done. -/
def successLine (color : Bool) (message : Text) : Text :=
  line (Ink.green.paint color Report.successMark ++ ' ' :: Ink.green.paint color message)

/-! ### Checking -/

/-- The line of a check that found nothing. -/
def checkedLine (color : Bool) (files : Nat) : Text :=
  successLine color ("Checked ".toList ++ decimal files ++ " template ".toList ++
    Report.plural files "file".toList "files".toList ++ " - no issues found".toList)

/-- Reports the issues of the templates. -/
def check (tree : FileTree) (color : Bool) (options : CommonOptions) : Outcome :=
  match Session.start tree color options with
  | .error e => { tree := tree, ending := .error (.config e) }
  | .ok session =>
    let files := session.templates tree
    let issues := Issue.all files
    { tree := tree
      standardOutput :=
        Report.render color issues ++
          if issues.isEmpty then checkedLine color files.length else []
      standardError := session.notes ++ skippedNote color options session
      ending := .ok (exitCodeOf issues) }

/-! ### Extracting -/

/-- The files up to the first one that fails, that one included. -/
def untilFailure : List TemplateFile → List TemplateFile
  | [] => []
  | f :: fs => if f.isOk then f :: untilFailure fs else [f]

/-- The files of a run that are extracted. -/
def processed (options : ExtractOptions) (files : List TemplateFile) : List TemplateFile :=
  if options.failFast then untilFailure files else files

/-- How the catalog of a run is written. -/
def catalogStyle (options : ExtractOptions) (config : Config) : Catalog.Style where
  format := options.format.getD config.format
  originComments := config.originComments && !options.noOriginComments

/-- The catalog of files: what each gives, in order. A file that fails gives nothing. -/
def catalogOf (style : Catalog.Style) (files : List TemplateFile) : Text :=
  files.flatMap fun f => Catalog.render style f.origin f.extraction

/-- The file that the catalog is written to, if there is one. -/
def outputPath (options : ExtractOptions) (session : Session) : Option Text :=
  match options.output with
  | some path => some path
  | none => session.config.output.map (Path.join session.root)

/-- The number of strings that files give. -/
def stringCount : List TemplateFile → Nat
  | [] => 0
  | f :: fs => f.extraction.size + stringCount fs

/-- The line that says what was written. -/
def wroteLine (color : Bool) (files : List TemplateFile) (path : Text) : Text :=
  let strings := stringCount files
  let templates := files.countP TemplateFile.isOk
  successLine color ("Wrote ".toList ++ decimal strings ++ ' ' ::
    Report.plural strings "string".toList "strings".toList ++ " from ".toList ++
    decimal templates ++ ' ' :: Report.plural templates "template".toList "templates".toList ++
    " to ".toList ++ path)

/-- The note of a run that left files out after a failure. -/
def stoppedNote (color : Bool) : Text :=
  line (Ink.bold.paint color "note:".toList ++
    " stopped at the first failing template (".toList ++
    Ink.cyan.paint color "--fail-fast".toList ++ ")".toList)

/-- Writes the catalog of the templates, to a file or to the standard output, and reports their
issues. -/
def extract (tree : FileTree) (color : Bool) (options : ExtractOptions) : Outcome :=
  match Session.start tree color options.common with
  | .error e => { tree := tree, ending := .error (.config e) }
  | .ok session =>
    let files := session.templates tree
    let done := processed options files
    let catalog := catalogOf (catalogStyle options session.config) done
    let issues := Issue.all done
    let stopped := if done.length < files.length then stoppedNote color else []
    let report := Report.render color issues
    let skipped := skippedNote color options.common session
    match outputPath options session with
    | none =>
      { tree := tree
        standardOutput := catalog
        standardError := session.notes ++ report ++ stopped ++ skipped
        ending := .ok (exitCodeOf issues) }
    | some path =>
      match tree.write path (encodeText catalog) with
      | .error e =>
        { tree := tree
          standardError := session.notes
          ending := .error (.unwritableCatalog path e) }
      | .ok written =>
        { tree := written
          standardError :=
            session.notes ++ report ++ wroteLine color done path ++ stopped ++ skipped
          ending := .ok (exitCodeOf issues) }

/-! ### Making a configuration -/

/-- Writes the default configuration, unless there is a configuration. -/
def init (tree : FileTree) (color : Bool) : Outcome :=
  if tree.existsAt configFileName then { tree := tree, ending := .error .configExists }
  else
    match tree.write configFileName (encodeText (Config.toJson {})) with
    | .error e => { tree := tree, ending := .error (.unwritableConfig e) }
    | .ok written =>
      { tree := written
        standardOutput := successLine color ("Created ".toList ++ configFileName)
        ending := .ok 0 }

/-! ### Help -/

/-- The help of a command line without a command. -/
def helpLines : List Text :=
  [ "Extract translatable strings from Grantlee/Django-style templates".toList ++
      " into gettext or Qt Linguist catalogs".toList,
    [],
    "Usage: tplx [COMMAND]".toList,
    [],
    "Commands:".toList,
    "  extract  Extract translatable strings into a gettext or Qt Linguist catalog source".toList,
    "  check    Check templates for syntax errors and malformed i18n tags".toList,
    "  init     Initialize a new .tplxrc.json configuration file".toList,
    "  help     Print this message or the help of the given subcommand(s)".toList,
    [],
    "Options:".toList,
    "  -h, --help     Print help".toList,
    "  -V, --version  Print version".toList ]

/-- Prints the help. -/
def help (tree : FileTree) : Outcome :=
  { tree := tree, standardOutput := helpLines.flatMap line, ending := .ok 0 }

/-- Prints the version. -/
def version (tree : FileTree) : Outcome :=
  { tree := tree, standardOutput := line "tplx 0.1.0".toList, ending := .ok 0 }

/-- Answers a command line that holds no command that can be run. -/
def refuse (tree : FileTree) : UsageError → Outcome
  | .displayHelp => help tree
  | .displayVersion => version tree
  | e => { tree := tree, standardError := line ("error: ".toList ++ e.kind), ending := .ok 2 }

/-! ### Running -/

/-- Runs a command; without one it prints the help. -/
def run (tree : FileTree) (color : Bool) : Option Command → Outcome
  | none => help tree
  | some (.extract options) => extract tree color options
  | some (.check options) => check tree color options
  | some .init => init tree color

end CommandLine

end TemplateCatalog
