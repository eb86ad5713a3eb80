/-
File paths.

A path is a text in which `/` separates components. Repeated separators and `.` mean nothing,
except a `.` in front; a leading `/` is the root. `components` reads a path, `join` and
`parent?` work on its text, so that a path that is shown keeps the way it was written.
-/
import TemplateCatalog.Text.Combining

namespace TemplateCatalog

/-- The parts of a path. -/
inductive Component where
  | root
  | current
  | parent
  | name (s : Text)
  deriving DecidableEq, Repr

namespace Path

/-! ### Segments and components -/

/-- The runs of characters between the separators, empty ones as well. -/
def segments : Text → List Text
  | [] => [[]]
  | c :: r =>
    if c = '/' then [] :: segments r
    else
      match segments r with
      | [] => [[c]]
      | s :: ss => (c :: s) :: ss

/-- The component of a segment that is not in front. -/
def ofSegment (s : Text) : Option Component :=
  if s = [] ∨ s = ['.'] then none
  else if s = ['.', '.'] then some .parent
  else some (.name s)

/-- Does a path start at the root? -/
def isAbsolute (p : Text) : Bool := p.head? == some '/'

/-- The components of a path. -/
def components (p : Text) : List Component :=
  let rest := (segments p).filterMap ofSegment
  if isAbsolute p then .root :: rest
  else if (segments p).head? == some ['.'] then .current :: rest
  else rest

/-- Does the path name the working directory itself, as `.`? -/
def isCurrent (p : Text) : Bool := components p == [.current]

/-! ### Building paths -/

/-- `q` inside of `p`; an absolute `q` stays as it is. -/
def join (p q : Text) : Text :=
  if isAbsolute q then q
  else if p.isEmpty || p.getLast? == some '/' then p ++ q
  else p ++ '/' :: q

/-- Drops the separators and the `.` segments at the end of a path. The path comes and goes
with its characters in reverse. -/
def dropEnd : Text → Text
  | '/' :: r => dropEnd r
  | '.' :: '/' :: r => dropEnd r
  | r => r

/-- The path without its last component. The root and the empty path have no parent. -/
def parent? (p : Text) : Option Text :=
  match dropEnd p.reverse with
  | [] => none
  | c :: r =>
    match dropEnd ((c :: r).dropWhile (· != '/')) with
    | [] => some (if isAbsolute p then ['/'] else [])
    | q => some q.reverse

theorem dropEnd_length_le (r : Text) : (dropEnd r).length ≤ r.length := by
  fun_induction dropEnd r with
  | case1 r ih => simp only [List.length_cons]; omega
  | case2 r ih => simp only [List.length_cons]; omega
  | case3 => exact Nat.le_refl _

theorem dropEnd_ne_slash (s r : Text) : dropEnd s ≠ '/' :: r := by
  fun_induction dropEnd s <;> simp_all

/-- A parent is shorter. -/
theorem parent?_length {p q : Text} (h : parent? p = some q) : q.length < p.length := by
  have h1 := dropEnd_length_le p.reverse
  unfold parent? at h
  split at h
  · simp at h
  · rename_i c r hr
    have hc : c ≠ '/' := fun hc => dropEnd_ne_slash p.reverse r (hc ▸ hr)
    -- The last component has at least the character `c`.
    have h2 := dropEnd_length_le ((c :: r).dropWhile (· != '/'))
    have h3 : ((c :: r).dropWhile (· != '/')).length ≤ r.length := by
      simp [hc, (List.dropWhile_suffix _).length_le]
    rw [hr] at h1
    simp only [List.length_cons, List.length_reverse] at h1
    split at h
    · simp only [Option.some.injEq] at h
      split at h
      · rename_i ha
        rw [← h]
        -- A path of one character with the root for parent would be the root.
        refine Nat.lt_of_le_of_ne (by simp only [List.length_cons, List.length_nil]; omega) ?_
        intro hp
        obtain ⟨d, rfl⟩ := List.length_eq_one_iff.1 hp.symm
        have hd : d = '/' := by simpa [isAbsolute] using ha
        simp [hd, dropEnd] at hr
      · simp only [← h, List.length_nil]
        omega
    · simp only [Option.some.injEq] at h
      simp only [← h, List.length_reverse]
      omega

/-! ### Names -/

/-- The last component, if it is a name. -/
def fileName? (p : Text) : Option Text :=
  match (components p).getLast? with
  | some (.name s) => some s
  | _ => none

/-- The file name from its last point on, without the point. A name whose only point stands in
front has no extension. -/
def extension? (p : Text) : Option Text :=
  match fileName? p with
  | none => none
  | some s =>
    match s.reverse.dropWhile (· != '.') with
    | [] => none
    | [_] => none
    | _ :: _ :: _ => some (s.reverse.takeWhile (· != '.')).reverse

/-- Does `p` start with all the components of `q`? -/
def startsWith (p q : Text) : Bool := (components q).isPrefixOf (components p)

/-! ### Labels -/

/-- The component in an origin label: `.` is dropped, the root leaves an empty piece. -/
def labelPiece : Component → Option Text
  | .current => none
  | .root => some []
  | .parent => some ['.', '.']
  | .name s => some s

/-- The components of `file` below `root`, or all of them if it does not lie there. -/
def below (root file : Text) : List Component :=
  if startsWith file root then (components file).drop (components root).length
  else components file

/-- The label of a template file: its components below the root, joined by `/`. -/
def origin (root file : Text) : Text :=
  ['/'].intercalate ((below root file).filterMap labelPiece)

/-! ### Quoting -/

/-- The character inside quotes: quotes, backslashes and characters that would not be seen on
their own are escaped. -/
def quotedChar (c : Char) : Text :=
  if c = '\t' then ['\\', 't']
  else if c = '\n' then ['\\', 'n']
  else if c = '\r' then ['\\', 'r']
  else if c.toNat = 0 then ['\\', '0']
  else if c = '\'' ∨ c = '"' ∨ c = '\\' then ['\\', c]
  else if Text.isCombining c || Text.isHidden c then
    ['\\', 'u', '{'] ++ Nat.toDigits 16 c.toNat ++ ['}']
  else [c]

/-- A path in quotes, for messages. -/
def quoted (p : Text) : Text := '"' :: p.flatMap quotedChar ++ ['"']

end Path

end TemplateCatalog
