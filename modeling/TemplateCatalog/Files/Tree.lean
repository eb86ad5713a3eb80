/-
A file system with a working directory.

A file tree lists files and directories by their place, the names on the way from the root, and
knows the path of the working directory. `locate` follows a path, an absolute one from the root
and any other from the working directory, and says why a path leads nowhere. `read` and `write`
work on paths; `insert` and `erase` on places.

There are no links and no permissions: an item is a directory or the bytes of a file, and what
is there can be read and written.
-/
import TemplateCatalog.Files.Path

namespace TemplateCatalog

/-! ### Faults -/

/-- Why a file cannot be reached, read or written. -/
inductive FileFault where
  | notFound
  | notDirectory
  | isDirectory
  | invalidText
  deriving DecidableEq, Repr

/-- The fault in words. -/
def FileFault.message : FileFault → Text
  | .notFound => "No such file or directory (os error 2)".toList
  | .notDirectory => "Not a directory (os error 20)".toList
  | .isDirectory => "Is a directory (os error 21)".toList
  | .invalidText => "stream did not contain valid UTF-8".toList

/-! ### Trees -/

/-- A file with its bytes, or a directory. -/
inductive Item where
  | file (bytes : ByteArray)
  | directory

/-- Files are the same if their bytes are. -/
instance : DecidableEq Item
  | .file a, .file b =>
    if h : a.data = b.data then isTrue (congrArg Item.file (ByteArray.ext h))
    else isFalse fun e => h (congrArg ByteArray.data (Item.file.inj e))
  | .file _, .directory => isFalse Item.noConfusion
  | .directory, .file _ => isFalse Item.noConfusion
  | .directory, .directory => isTrue rfl

/-- The names on the way from the root. -/
abbrev Place := List Text

/-- Files and directories by their place, and the path of the working directory. -/
structure FileTree where
  items : List (Place × Item) := []
  working : Text := []
  deriving DecidableEq

/-- The bytes of a text in UTF-8. -/
def encodeText (s : Text) : ByteArray := (String.ofList s).toUTF8

/-- The text that bytes stand for in UTF-8. -/
def decodeText? (bytes : ByteArray) : Option Text := (String.fromUTF8? bytes).map String.toList

theorem decodeText?_encodeText (s : Text) : decodeText? (encodeText s) = some s := by
  have h : String.fromUTF8? (String.ofList s).toUTF8 = some (String.ofList s) := by
    have hv : (String.ofList s).toUTF8.IsValidUTF8 := (String.ofList s).isValidUTF8
    unfold String.fromUTF8?
    rw [dif_pos hv]
    rfl
  rw [decodeText?, encodeText, h, Option.map_some, String.toList_ofList]

namespace FileTree

/-- The place that the names in a path spell. -/
def placeOf (path : Text) : Place :=
  (Path.components path).filterMap fun
    | .name s => some s
    | _ => none

/-- The place of the working directory. -/
def here (t : FileTree) : Place := placeOf t.working

/-- What is at a place. The working directory and the directories around it are always
there. -/
def at? (t : FileTree) (p : Place) : Option Item :=
  if p.isPrefixOf t.here then some .directory else t.items.lookup p

/-- Everything that is there: the way from the root to the working directory, and the items
elsewhere. -/
def entries (t : FileTree) : List (Place × Item) :=
  ((List.range (t.here.length + 1)).map fun n => (t.here.take n, .directory)) ++
    t.items.filter fun (p, _) => !p.isPrefixOf t.here

/-! ### Following paths -/

/-- Follows one segment of a path from a place. Above the root there is the root again. -/
def step (t : FileTree) (p : Place) (s : Text) : Except FileFault Place :=
  match t.at? p with
  | none => .error .notFound
  | some (.file _) => .error .notDirectory
  | some .directory =>
    if s = [] ∨ s = ['.'] then .ok p
    else if s = ['.', '.'] then .ok p.dropLast
    else
      match t.at? (p ++ [s]) with
      | none => .error .notFound
      | some _ => .ok (p ++ [s])

/-- Follows segments of a path from a place. -/
def follow (t : FileTree) (p : Place) : List Text → Except FileFault Place
  | [] => .ok p
  | s :: ss =>
    match t.step p s with
    | .error e => .error e
    | .ok q => t.follow q ss

/-- Where a path starts: at the root or at the working directory. -/
def start (t : FileTree) (path : Text) : Place := if Path.isAbsolute path then [] else t.here

/-- The place that a path leads to. -/
def locate (t : FileTree) (path : Text) : Except FileFault Place :=
  if path.isEmpty then .error .notFound else t.follow (t.start path) (Path.segments path)

/-- What a path leads to. -/
def find (t : FileTree) (path : Text) : Except FileFault Item :=
  match t.locate path with
  | .error e => .error e
  | .ok p =>
    match t.at? p with
    | none => .error .notFound
    | some item => .ok item

/-- Does a path lead to a file or a directory? -/
def existsAt (t : FileTree) (path : Text) : Bool :=
  match t.find path with
  | .ok _ => true
  | .error _ => false

/-- Does a path lead to a directory? -/
def isDirectory (t : FileTree) (path : Text) : Bool :=
  match t.find path with
  | .ok .directory => true
  | _ => false

/-! ### Reading and writing -/

/-- The text of the file at a path. -/
def read (t : FileTree) (path : Text) : Except FileFault Text :=
  match t.find path with
  | .error e => .error e
  | .ok .directory => .error .isDirectory
  | .ok (.file bytes) =>
    match decodeText? bytes with
    | none => .error .invalidText
    | some s => .ok s

/-- Replaces what is at a place. -/
def replace (t : FileTree) (p : Place) (item : Item) : FileTree :=
  { t with items := t.items.map fun (q, old) => if q = p then (q, item) else (q, old) }

/-- Puts an item at a place, whether something is there or not. -/
def set (t : FileTree) (p : Place) (item : Item) : FileTree :=
  match t.at? p with
  | some _ => t.replace p item
  | none => { t with items := t.items ++ [(p, item)] }

/-- Writes a file into the directory `p`. `last` is the last segment of the path, `slash` tells
whether a separator follows it. -/
def writeInto (t : FileTree) (p : Place) (last : Text) (slash : Bool) (bytes : ByteArray) :
    Except FileFault FileTree :=
  match t.at? p with
  | none => .error .notFound
  | some (.file _) => .error .notDirectory
  | some .directory =>
    if slash ∨ last = ['.'] ∨ last = ['.', '.'] then .error .isDirectory
    else
      match t.at? (p ++ [last]) with
      | some .directory => .error .isDirectory
      | _ => .ok (t.set (p ++ [last]) (.file bytes))

/-- Writes the file at a path; the directory it lies in must be there. -/
def write (t : FileTree) (path : Text) (bytes : ByteArray) : Except FileFault FileTree :=
  let reversed := (Path.segments path).reverse
  let slash := reversed.head? == some []
  match reversed.dropWhile (·.isEmpty) with
  | [] => if path.isEmpty then .error .notFound else .error .isDirectory
  | last :: front =>
    match t.follow (t.start path) front.reverse with
    | .error e => .error e
    | .ok p => t.writeInto p last slash bytes

/-! ### Places below a place -/

/-- The part of `q` below `p`, if `q` lies there. -/
def below? (p q : Place) : Option Place :=
  if p.isPrefixOf q && p.length < q.length then some (q.drop p.length) else none

/-- Everything below a place, each with the names on the way to it. -/
def descendants (t : FileTree) (p : Place) : List (Place × Item) :=
  t.entries.filterMap fun (q, item) => (below? p q).map fun names => (names, item)

/-! ### Changing the tree from outside -/

/-- Adds the directories in which a place lies. -/
def withParents (t : FileTree) (p : Place) : FileTree :=
  (List.range p.length).foldl
    (fun t n => if (t.at? (p.take n)).isSome then t else t.set (p.take n) .directory) t

/-- Puts an item at a place, in directories that are made where they are missing. -/
def insert (t : FileTree) (p : Place) (item : Item) : FileTree := (t.withParents p).set p item

/-- Removes what is at a place, and everything below it. -/
def erase (t : FileTree) (p : Place) : FileTree :=
  { t with items := t.items.filter fun (q, _) => !p.isPrefixOf q }

/-- What is new or different in `u`. -/
def changes (t u : FileTree) : List (Place × Item) :=
  u.items.filter fun (p, item) => t.at? p != some item

end FileTree

end TemplateCatalog
