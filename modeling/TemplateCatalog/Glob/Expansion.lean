/-
The paths of a file tree that a glob pattern stands for.

Here a pattern is read component by component, so that `*` stays inside of one. A component
without wildcards is followed as it is written; one with wildcards is compared with the names
in the directory reached so far, hidden names too; `**` goes through all directories below it.
An absolute pattern is followed from the root, any other from the working directory; paths
below that come without `./`.
-/
import TemplateCatalog.Files.Tree
import TemplateCatalog.Glob.Pattern

namespace TemplateCatalog

namespace Glob

/-! ### Components -/

/-- The components of a pattern as they are written; a separator at the end adds none. -/
def splitComponents (pattern : Text) : List Text :=
  let parts := Path.segments pattern
  if parts.getLast? == some [] then parts.dropLast else parts

/-- Reads the pattern as a whole, and then each component. -/
def readComponents (pattern : Text) : Except PatternError (List Pattern) :=
  match Pattern.parse pattern with
  | .error e => .error e
  | .ok _ => (splitComponents pattern).mapM Pattern.parse

/-- A name inside of the directory `path`; names in the working directory stand alone. -/
def childPath (path name : Text) : Text :=
  if Path.isCurrent path then name else Path.join path name

/-! ### Expansion -/

/-- A path that a pattern has led to, if it is a directory or need not be one. -/
def finish (tree : FileTree) (directoryOnly : Bool) (path : Text) : List Text :=
  if !directoryOnly || tree.isDirectory path then [path] else []

/-- The names on the way to everything below a directory, or nothing if the path leads to
none. -/
def namesBelow (tree : FileTree) (path : Text) : List (Place × Item) :=
  match tree.locate path with
  | .error _ => []
  | .ok place => tree.descendants place

/-- The paths that components stand for from the directory `path` on. -/
def expandFrom (tree : FileTree) (directoryOnly : Bool) (components : List Pattern) (path : Text) :
    List Text :=
  match components with
  | [] => finish tree directoryOnly path
  | p :: ps =>
    if p.isLiteral then
      let next := childPath path p.source
      let dots := p.source = ['.'] ∨ p.source = ['.', '.']
      if (dots ∧ tree.isDirectory path) ∨ (¬ dots ∧ tree.existsAt next) then
        expandFrom tree directoryOnly ps next
      else []
    else if !tree.isDirectory path then []
    else if p.isDirectories then
      match _h : ps.dropWhile Pattern.isDirectories with
      | [] =>
        (namesBelow tree path).filterMap fun (names, item) =>
          if item = .directory then some (childPath path (['/'].intercalate names)) else none
      | q :: qs =>
        (namesBelow tree path).flatMap fun (names, _) =>
          if q.matches? (names.getLastD []) then
            expandFrom tree directoryOnly qs (childPath path (['/'].intercalate names))
          else []
    else
      let names := (namesBelow tree path).filterMap fun (names, _) =>
        match names with
        | [name] => if p.matches? name then some name else none
        | _ => none
      let dots := if p.startsWithPoint then [['.'], ['.', '.']].filter p.matches? else []
      names.flatMap (fun name => expandFrom tree directoryOnly ps (childPath path name)) ++
        dots.flatMap fun name => expandFrom tree directoryOnly ps (Path.join path name)
termination_by components.length
decreasing_by
  · simp
  · have hl : (ps.dropWhile Pattern.isDirectories).length ≤ ps.length :=
      (List.dropWhile_suffix _).length_le
    rw [_h] at hl
    simp only [List.length_cons] at hl ⊢
    omega
  · simp
  · simp

/-- Where the expansion of a pattern starts: at the separators in front of it, or at `.`. -/
def startPath (pattern : Text) : Text :=
  if Path.isAbsolute pattern then pattern.takeWhile (· == '/') else ['.']

/-- The paths of a tree that a pattern stands for. A separator at the end asks for
directories. -/
def expand (tree : FileTree) (pattern : Text) : Except PatternError (List Text) :=
  match readComponents pattern with
  | .error e => .error e
  | .ok components =>
    .ok (expandFrom tree (pattern.getLast? == some '/') components (startPath pattern))

end Glob

end TemplateCatalog
