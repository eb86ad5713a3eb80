/-
Glob patterns.

`?` stands for one character and `*` for any run of characters, separators too. `**` must be a
whole component and stands for any number of directories, also none; at the end it stands for
all that follows. `[abc]`, `[a-z]` and `[!a]` stand for one character of a class, in which a
`]` in front is a member. `Pattern.parse` reads a pattern or names the character that is at
fault.
-/
import TemplateCatalog.Text.Basic

namespace TemplateCatalog

namespace Glob

open Text

/-! ### Patterns -/

/-- A member of a class: the characters of a range, both ends included. -/
structure Range where
  low : Char
  high : Char
  deriving DecidableEq, Repr

/-- The parts of a pattern. -/
inductive Part where
  | char (c : Char)
  | anyChar
  | anyRun
  | directories
  | oneOf (ranges : List Range)
  | noneOf (ranges : List Range)
  deriving DecidableEq, Repr

/-- Is the part a character that stands for itself? -/
def Part.isChar : Part → Bool
  | .char _ => true
  | _ => false

/-- A pattern, as it is written and in parts. -/
structure Pattern where
  source : Text
  parts : List Part
  deriving DecidableEq, Repr

/-! ### Errors -/

/-- What is wrong with a pattern. -/
inductive Fault where
  | longWildcard
  | gluedDirectories
  | invalidClass
  deriving DecidableEq, Repr

/-- The fault in words. -/
def Fault.message : Fault → Text
  | .longWildcard => "wildcards are either regular `*` or recursive `**`".toList
  | .gluedDirectories => "recursive wildcards must form a single path component".toList
  | .invalidClass => "invalid range pattern".toList

/-- A fault and the index of the character it is found at. -/
structure PatternError where
  index : Nat
  fault : Fault
  deriving DecidableEq, Repr

/-- The error in words. -/
def PatternError.message (e : PatternError) : Text :=
  "Pattern syntax error near position ".toList ++ decimal e.index ++ ": ".toList ++ e.fault.message

/-! ### Reading -/

/-- The members between the brackets of a class. -/
def readMembers : Text → List Range
  | a :: '-' :: b :: r => ⟨a, b⟩ :: readMembers r
  | a :: r => ⟨a, a⟩ :: readMembers r
  | [] => []

/-- The members of a class up to its bracket, and the rest. The first member may be a
bracket. -/
def cutMembers : Text → Option (Text × Text)
  | [] => none
  | m :: r =>
    match r.dropWhile (· != ']') with
    | [] => none
    | _ :: rest => some (m :: r.takeWhile (· != ']'), rest)

/-- Reads a class after its opening bracket. -/
def readClass : Text → Option (Part × Text)
  | '!' :: r => (cutMembers r).map fun (members, rest) => (.noneOf (readMembers members), rest)
  | r => (cutMembers r).map fun (members, rest) => (.oneOf (readMembers members), rest)

theorem cutMembers_length {s m r : Text} (h : cutMembers s = some (m, r)) :
    r.length < s.length := by
  unfold cutMembers at h
  split at h
  · simp at h
  · rename_i c t
    have hl : (t.dropWhile (· != ']')).length ≤ t.length := (List.dropWhile_suffix _).length_le
    split at h
    · simp at h
    · rename_i d rest hd
      simp only [Option.some.injEq, Prod.mk.injEq] at h
      rw [hd] at hl
      simp only [← h.2, List.length_cons] at hl ⊢
      omega

theorem readClass_length {s r : Text} {p : Part} (h : readClass s = some (p, r)) :
    r.length < s.length := by
  unfold readClass at h
  split at h
  all_goals
    obtain ⟨⟨m, t⟩, hm, hp⟩ := Option.map_eq_some_iff.1 h
    simp only [Prod.mk.injEq] at hp
    have := cutMembers_length hm
    simp only [← hp.2, List.length_cons]
    omega

/-- Reads the parts of a pattern from the character `index` on. `boundary` tells whether a
component starts there. -/
def readParts (index : Nat) (boundary : Bool) : Text → Except PatternError (List Part)
  | [] => .ok []
  | c :: r =>
    if c = '?' then (readParts (index + 1) false r).map (.anyChar :: ·)
    else if c = '[' then
      match _h : readClass r with
      | none => .error ⟨index, .invalidClass⟩
      | some (part, rest) =>
        (readParts (index + 1 + (r.length - rest.length)) false rest).map (part :: ·)
    else if c = '*' then
      match r with
      | '*' :: '*' :: _ => .error ⟨index + 2, .longWildcard⟩
      | '*' :: rest =>
        if boundary then
          match rest with
          | [] => .ok [.directories]
          | d :: rest =>
            if d = '/' then (readParts (index + 3) true rest).map (.directories :: ·)
            else .error ⟨index + 2, .gluedDirectories⟩
        else .error ⟨index - 1, .gluedDirectories⟩
      | rest => (readParts (index + 1) false rest).map (.anyRun :: ·)
    else (readParts (index + 1) (c == '/') r).map (.char c :: ·)
termination_by s => s.length
decreasing_by
  · simp
  · have := readClass_length _h
    simp only [List.length_cons]
    omega
  · simp only [List.length_cons]
    omega
  · simp
  · simp

/-- Reads a pattern. -/
def Pattern.parse (s : Text) : Except PatternError Pattern := (readParts 0 true s).map (⟨s, ·⟩)

/-! ### Matching -/

/-- Is the character in a range? -/
def Range.contains (r : Range) (c : Char) : Bool := decide (r.low ≤ c ∧ c ≤ r.high)

/-- Does a part stand for the single character `c`? -/
def Part.matchesChar (c : Char) : Part → Bool
  | .char d => c == d
  | .anyChar => true
  | .oneOf ranges => ranges.any (·.contains c)
  | .noneOf ranges => !ranges.any (·.contains c)
  | .anyRun => false
  | .directories => false

/-- Does some suffix of the text pass the test? -/
def anySuffix (test : Text → Bool) : Text → Bool
  | [] => test []
  | c :: r => test (c :: r) || anySuffix test r

/-- Does what follows some separator of the text pass the test? -/
def anyBelow (test : Text → Bool) : Text → Bool
  | [] => false
  | c :: r => (c == '/' && test r) || anyBelow test r

/-- Do the parts stand for the whole text? -/
def matchParts : List Part → Text → Bool
  | [], s => s.isEmpty
  | .anyRun :: ps, s => anySuffix (matchParts ps) s
  | .directories :: ps, s => matchParts ps s || matchParts ps [] || anyBelow (matchParts ps) s
  | _ :: _, [] => false
  | p :: ps, c :: r => p.matchesChar c && matchParts ps r

namespace Pattern

/-- Does the pattern stand for the whole text? -/
def matches? (p : Pattern) (s : Text) : Bool := matchParts p.parts s

/-- Does every character of the pattern stand for itself? -/
def isLiteral (p : Pattern) : Bool := p.parts.all Part.isChar

/-- Is the pattern a component `**`? -/
def isDirectories (p : Pattern) : Bool := p.parts.contains .directories

/-- Does the pattern start with a point? -/
def startsWithPoint (p : Pattern) : Bool := p.parts.head? == some (.char '.')

end Pattern

end Glob

end TemplateCatalog
