/-
Reading a command line.

Words are read from the left. A switch that waits for its value, and a run of files, stay
pending: they are settled, and their values checked, only when the next known switch comes or
the words end. So an unknown switch counts before a bad value in front of it, and a known one
after it. After the word `--` all words are files.
-/
import TemplateCatalog.CommandLine.Arguments

namespace TemplateCatalog

namespace CommandLine

/-! ### Words -/

/-- The shapes of a word. -/
inductive Word where
  /-- `--`, after which all words are files. -/
  | endOfSwitches
  /-- `--name` or `--name=value`. -/
  | long (name : Text) (value : Option Text)
  /-- `-abc`: short names, perhaps with a value after the last one. -/
  | short (names : Text)
  /-- Anything else. -/
  | plain (s : Text)
  deriving DecidableEq, Repr

/-- The shape of a word. -/
def Word.ofText : Text → Word
  | ['-', '-'] => .endOfSwitches
  | '-' :: '-' :: s =>
    match s.dropWhile (· != '=') with
    | [] => .long s none
    | _ :: value => .long (s.takeWhile (· != '=')) (some value)
  | '-' :: c :: s => .short (c :: s)
  | s => .plain s

/-! ### What has been read -/

/-- The switches and values that are settled. -/
structure Draft where
  given : List Switch := []
  files : List Text := []
  sourceRoot : Option Text := none
  format : Option CatalogFormat := none
  output : Option Text := none
  deriving DecidableEq, Repr

/-- What waits to be settled. -/
inductive Pending where
  | nothing
  /-- A switch, with its value once it is there. -/
  | switch (s : Switch) (value : Option Text)
  /-- A run of files. -/
  | files (fs : List Text)
  deriving DecidableEq, Repr

namespace Draft

/-- A path is not empty. -/
def path (s : Text) : Except UsageError Text := if s.isEmpty then .error .invalidValue else .ok s

/-- Settles the value of a switch. -/
def assign (d : Draft) (s : Switch) (value : Text) : Except UsageError Draft :=
  let d := { d with given := s :: d.given }
  match s with
  | .sourceRoot => (path value).map fun p => { d with sourceRoot := some p }
  | .output => (path value).map fun p => { d with output := some p }
  | .format =>
    match CatalogFormat.ofName? value with
    | none => .error .invalidValue
    | some f => .ok { d with format := some f }
  | _ => .ok d

/-- Settles a switch. A switch comes once. -/
def switch (d : Draft) (s : Switch) (value : Option Text) : Except UsageError Draft :=
  if s = .help then .error .displayHelp
  else
    match s.takesValue, value with
    | true, none => .error .invalidValue
    | _, value => if s ∈ d.given then .error .argumentConflict else d.assign s (value.getD [])

/-- Settles what is pending. -/
def settle (d : Draft) : Pending → Except UsageError Draft
  | .nothing => .ok d
  | .switch s value => d.switch s value
  | .files fs => (fs.mapM path).map fun fs => { d with files := d.files ++ fs }

end Draft

/-- A place in the words of a command: what is settled, what is pending, and whether only files
follow. -/
structure State where
  draft : Draft := {}
  pending : Pending := .nothing
  filesOnly : Bool := false
  deriving Repr

namespace State

/-- Settles what is pending, and then does more. -/
def settling (s : State) (next : Draft → Except UsageError State) : Except UsageError State :=
  match s.draft.settle s.pending with
  | .error e => .error e
  | .ok d => next d

/-- Reads a switch without a value of its own: a flag is settled, an option waits. -/
def bare (s : State) (sw : Switch) : Except UsageError State :=
  s.settling fun d =>
    if sw.takesValue then .ok { s with draft := d, pending := .switch sw none }
    else (d.switch sw none).map fun d => { s with draft := d, pending := .nothing }

/-- Reads an option together with its value. -/
def attached (s : State) (sw : Switch) (value : Text) : Except UsageError State :=
  s.settling fun d =>
    (d.switch sw (some value)).map fun d => { s with draft := d, pending := .nothing }

/-- Reads a switch by its long name. -/
def long (c : Subcommand) (s : State) (name : Text) (value : Option Text) :
    Except UsageError State :=
  match c.long? name, value with
  | none, _ => .error .unknownArgument
  | some sw, none => s.bare sw
  | some sw, some v => if sw.takesValue then s.attached sw v else .error .tooManyValues

/-- Reads switches by their short names. What follows the name of an option is its value, an
`=` in front of it aside. -/
def short (c : Subcommand) (s : State) : Text → Except UsageError State
  | [] => .ok s
  | name :: rest =>
    match c.short? name with
    | none => .error .unknownArgument
    | some sw =>
      if sw.takesValue then
        match rest with
        | [] => s.bare sw
        | '=' :: value => s.attached sw value
        | value => s.attached sw value
      else
        match s.bare sw with
        | .error e => .error e
        | .ok s => s.short c rest

/-- Reads a word that is no switch: the value that is waited for, or a file. -/
def plain (c : Subcommand) (s : State) (w : Text) : Except UsageError State :=
  match s.pending, s.filesOnly with
  | .switch sw none, false => .ok { s with pending := .switch sw (some w) }
  | .files fs, _ => .ok { s with pending := .files (fs ++ [w]) }
  | _, _ =>
    if c.takesFiles then s.settling fun d => .ok { s with draft := d, pending := .files [w] }
    else .error .unknownArgument

/-- Reads a word. -/
def word (c : Subcommand) (s : State) (w : Text) : Except UsageError State :=
  if s.filesOnly then s.plain c w
  else
    match Word.ofText w with
    | .endOfSwitches => .ok { s with filesOnly := true }
    | .long name value => s.long c name value
    | .short names => s.short c names
    | .plain w => s.plain c w

end State

/-! ### Commands -/

/-- Reads the words after a subcommand. -/
def readWords (c : Subcommand) (s : State) : List Text → Except UsageError Draft
  | [] => s.draft.settle s.pending
  | w :: ws =>
    match s.word c w with
    | .error e => .error e
    | .ok s => readWords c s ws

/-- The format of a run: the one that is given, else the one that the environment names. -/
def chooseFormat (environment : Option Text) (format : Option CatalogFormat) :
    Except UsageError (Option CatalogFormat) :=
  match format, environment with
  | some f, _ => .ok (some f)
  | none, none => .ok none
  | none, some name =>
    match CatalogFormat.ofName? name with
    | none => .error .invalidValue
    | some f => .ok (some f)

namespace Draft

/-- The options that extracting and checking share. -/
def common (d : Draft) : CommonOptions :=
  { files := d.files, sourceRoot := d.sourceRoot, verbose := decide (Switch.verbose ∈ d.given) }

/-- The options of `extract`. The environment names a format for runs that give none. -/
def extract (d : Draft) (environment : Option Text) : Except UsageError ExtractOptions :=
  (chooseFormat environment d.format).map fun format =>
    { common := d.common
      format := format
      output := d.output
      noOriginComments := decide (Switch.noOriginComments ∈ d.given)
      failFast := decide (Switch.failFast ∈ d.given) }

end Draft

/-- Reads the words after `help`: at most one, a subcommand. -/
def readHelp : List Text → UsageError
  | [] => .displayHelp
  | [w] => if (Subcommand.ofName? w).isSome then .displayHelp else .invalidSubcommand
  | _ => .invalidSubcommand

/-- Reads the words after a subcommand as a command. -/
def readCommand (environment : Option Text) (c : Subcommand) (ws : List Text) :
    Except UsageError Command :=
  match c with
  | .help => .error (readHelp ws)
  | .init => (readWords c {} ws).map fun _ => .init
  | .check => (readWords c {} ws).map fun d => .check d.common
  | .extract =>
    match readWords c {} ws with
    | .error e => .error e
    | .ok d => (d.extract environment).map .extract

/-- The error of a word in front of the subcommand that is none. -/
def strayWord : Word → UsageError
  | .long name value =>
    if name = "help".toList then if value.isSome then .tooManyValues else .displayHelp
    else if name = "version".toList then if value.isSome then .tooManyValues else .displayVersion
    else .unknownArgument
  | .short ('h' :: _) => .displayHelp
  | .short ('V' :: _) => .displayVersion
  | .short _ => .unknownArgument
  | .endOfSwitches => .invalidSubcommand
  | .plain _ => .invalidSubcommand

/-- Reads the words of a command line; without a word there is no command. -/
def readArguments (environment : Option Text) : List Text → Except UsageError (Option Command)
  | [] => .ok none
  | w :: ws =>
    match Subcommand.ofName? w, Word.ofText w with
    | some c, _ => (readCommand environment c ws).map some
    | none, .endOfSwitches =>
      match ws with
      | [] => .ok none
      | w :: _ =>
        if (Subcommand.ofName? w).isSome then .error .unknownArgument else .error .invalidSubcommand
    | none, word => .error (strayWord word)

end CommandLine

end TemplateCatalog
