/-
Finding and loading the configuration of a directory.

The configuration file is looked for in the directory itself and then in the directories its
path names, from the innermost outwards. A directory that holds `.git` ends the search. If a
file is found it is used or the run fails; only if none is found the defaults hold.
-/
import TemplateCatalog.Config.Reading
import TemplateCatalog.Files.Tree

namespace TemplateCatalog

/-- The directory of a repository ends the search. -/
def repositoryMark : Text := ".git".toList

/-- The path of the configuration file for a directory. -/
def findConfig? (tree : FileTree) (directory : Text) : Option Text :=
  let file := Path.join directory configFileName
  if tree.existsAt file then some file
  else if tree.existsAt (Path.join directory repositoryMark) then none
  else
    match _h : Path.parent? directory with
    | none => none
    | some parent => findConfig? tree parent
termination_by directory.length
decreasing_by exact Path.parent?_length _h

/-- Why the configuration that was found cannot be used. -/
inductive LoadFault where
  | unreadable (path : Text) (fault : FileFault)
  | unparsable (path : Text) (fault : Json.Fault)
  | invalid (fault : ConfigFault)
  deriving DecidableEq, Repr

/-- The fault in words, causes after it. -/
def LoadFault.messages : LoadFault → List Text
  | .unreadable path fault =>
    ["Failed to read config file: ".toList ++ Path.quoted path, fault.message]
  | .unparsable path fault =>
    ["Failed to parse config file: ".toList ++ Path.quoted path,
      "json: ".toList ++ fault.category]
  | .invalid fault => fault.messages

/-- The configuration of a file. -/
def loadFile (tree : FileTree) (path : Text) : Except LoadFault Config :=
  match tree.read path with
  | .error e => .error (.unreadable path e)
  | .ok text =>
    match Config.parse text with
    | .error e => .error (.unparsable path e)
    | .ok c =>
      match c.fault? with
      | some e => .error (.invalid e)
      | none => .ok c

/-- A configuration, and whether it comes from a file. -/
structure LoadedConfig where
  config : Config
  fromFile : Bool
  deriving DecidableEq, Repr

/-- The configuration for a directory. -/
def loadConfig (tree : FileTree) (directory : Text) : Except LoadFault LoadedConfig :=
  match findConfig? tree directory with
  | none => .ok ⟨{}, false⟩
  | some path => (loadFile tree path).map (⟨·, true⟩)

end TemplateCatalog
