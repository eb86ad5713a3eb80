/-
The program.

It loads the files below the working directory and those that the command names elsewhere, runs
the command on them, writes back what the run changed, and prints what the run wrote. Nothing
is decided here.
-/
import TemplateCatalog.CommandLine.Run

namespace TemplateCatalog

namespace Program

/-! ### The tree on disk -/

/-- The entry of a place on disk. -/
def entryAt (place : Place) : IO.FS.DirEntry where
  root := ""
  fileName := String.ofList (['/'].intercalate place)

/-- Everything at and below a place on disk. -/
partial def itemsAt (place : Place) : IO (List (Place × Item)) := do
  let entry := entryAt place
  if ← entry.path.isDir then
    let below ← (← entry.path.readDir).toList.mapM fun e => itemsAt (place ++ [e.fileName.toList])
    return (place, .directory) :: below.flatten
  else if ← entry.path.pathExists then
    return [(place, .file (← IO.FS.readBinFile entry.path))]
  else
    return []

/-- The directories around a place, with what a search for the configuration asks them for. -/
def itemsAround (place : Place) : IO (List (Place × Item)) := do
  let items ← (List.range place.length).mapM fun n => do
    let directory := place.take n
    let repository := directory ++ [repositoryMark]
    if ← (entryAt directory).path.isDir then
      let mark := if ← (entryAt repository).path.pathExists then [(repository, .directory)] else []
      return (directory, .directory) :: mark ++ (← itemsAt (directory ++ [configFileName]))
    else
      return []
  return items.flatten

/-- Adds what is at, below and around a place. Below the working directory everything is
known. -/
def addPlace (tree : FileTree) (place : Place) : IO FileTree := do
  let items ← if tree.here.isPrefixOf place then pure [] else itemsAt place
  let around ← itemsAround place
  return (items ++ around).foldl
    (fun t (p, item) => if (t.at? p).isSome then t else t.insert p item) tree

/-- The place that a path spells, as far as it has no wildcards. -/
def target (tree : FileTree) (path : Text) : Place :=
  ((Path.segments path).takeWhile (!hasWildcard ·)).foldl
    (fun place s =>
      match Path.ofSegment s with
      | some (.name name) => place ++ [name]
      | some _ => place.dropLast
      | none => place)
    (tree.start path)

/-! ### What a command looks at -/

/-- The paths that a command names: its source root, and its files with the one it writes. -/
def pathsOf : CommandLine.Command → List Text × List Text
  | .extract options =>
    ([options.common.sourceRoot.getD ['.']], options.common.files ++ options.output.toList)
  | .check options => ([options.sourceRoot.getD ['.']], options.files)
  | .init => ([], [])

/-- The paths that the configuration for a directory names. -/
def configPaths (tree : FileTree) (directory : Text) : List Text :=
  match loadConfig tree directory with
  | .error _ => []
  | .ok loaded =>
    (loaded.config.includes ++ loaded.config.output.toList).map (Path.join directory)

/-- The files and directories that a command looks at. -/
def loadTree (command : CommandLine.Command) : IO FileTree := do
  let working := (← IO.currentDir).toString.toList
  let items ← itemsAt (FileTree.placeOf working)
  let inside : FileTree := { working := working, items := items }
  let (roots, files) := pathsOf command
  let tree ← ((roots ++ files).map (target inside)).foldlM addPlace (← addPlace inside inside.here)
  ((roots.flatMap (configPaths tree)).map (target tree)).foldlM addPlace tree

/-- Writes the files that a run has changed. -/
def save (changes : List (Place × Item)) : IO Unit :=
  changes.forM fun (place, item) =>
    match item with
    | .file bytes => IO.FS.writeBinFile (entryAt place).path bytes
    | .directory => pure ()

/-! ### The outputs -/

/-- Are the outputs read by a person who wants colors? -/
def wantsColor : IO Bool := do
  return (← (← IO.getStdout).isTty) && (← IO.getEnv "NO_COLOR").isNone

/-- Prints what a run wrote. -/
def print (outcome : CommandLine.Outcome) : IO Unit := do
  (← IO.getStdout).putStr (String.ofList outcome.standardOutput)
  (← IO.getStderr).putStr (String.ofList (outcome.standardError ++ outcome.faultLine))

/-! ### Running -/

/-- Runs the command of the arguments and gives the exit code. -/
def run (arguments : List String) : IO UInt32 := do
  let color ← wantsColor
  let environment := (← IO.getEnv "TPLX_FORMAT").map String.toList
  let outcome ←
    match CommandLine.readArguments environment (arguments.map String.toList) with
    | .error e => pure (CommandLine.refuse {} e)
    | .ok none => pure (CommandLine.run {} color none)
    | .ok (some command) => do
      let tree ← loadTree command
      let outcome := CommandLine.run tree color (some command)
      save (tree.changes outcome.tree)
      pure outcome
  print outcome
  return outcome.exitCode.toUInt32

end Program

end TemplateCatalog

/-- The program. -/
def main (arguments : List String) : IO UInt32 := TemplateCatalog.Program.run arguments
