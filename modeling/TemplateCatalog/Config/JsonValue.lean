/-
Whole JSON values: passing over them, and telling why one has the wrong type.

`skipValue` takes a value of any kind off the text. It keeps the open brackets on a stack, so
the depth of a value does not matter. `wrongType` reads the value in front of a text only to
find which fault comes first: one inside of the value, or that it is not what was expected
there.
-/
import TemplateCatalog.Config.Json

namespace TemplateCatalog

namespace Json

/-! ### Numbers -/

/-- A number without its sign: the digits, and the power of ten they are multiplied with. -/
structure Number where
  digits : Nat
  exponent : Int
  deriving DecidableEq, Repr

/-- The digits in front of a text. -/
def takeDigits (s : Text) : Text := s.takeWhile Char.isDigit

/-- The text after the digits in front of it. -/
def dropDigits (s : Text) : Text := s.dropWhile Char.isDigit

/-- The number that digits spell. -/
def ofDigits (ds : Text) : Nat := ds.foldl (fun n d => n * 10 + (d.toNat - '0'.toNat)) 0

/-- Reads digits, at least one. -/
def readDigits (s : Text) : Result Text :=
  match takeDigits s, s with
  | [], [] => .error .truncated
  | [], _ => .error .malformed
  | ds, _ => .ok (ds, dropDigits s)

theorem readDigits_length {s r ds : Text} (h : readDigits s = .ok (ds, r)) :
    r.length < s.length := by
  have hl := congrArg List.length (List.takeWhile_append_dropWhile (p := Char.isDigit) (l := s))
  simp only [List.length_append] at hl
  unfold readDigits at h
  split at h
  · simp at h
  · simp at h
  · rename_i hn _
    have := List.length_pos_iff.2 hn
    simp only [Except.ok.injEq, Prod.mk.injEq] at h
    rw [← h.2]
    simp only [takeDigits] at this
    simp only [dropDigits]
    omega

/-- Reads the digits in front of the point; a zero stands alone. -/
def readIntegerDigits (s : Text) : Result Text :=
  match s with
  | '0' :: r => if (takeDigits r).isEmpty then .ok (['0'], r) else .error .malformed
  | s => readDigits s

theorem readIntegerDigits_length {s r ds : Text} (h : readIntegerDigits s = .ok (ds, r)) :
    r.length < s.length := by
  unfold readIntegerDigits at h
  split at h
  · grind
  · exact readDigits_length h

/-- Reads the digits after a point, if there is one. -/
def readFraction (s : Text) : Result Text :=
  match s with
  | '.' :: r => readDigits r
  | s => .ok ([], s)

theorem readFraction_length {s r ds : Text} (h : readFraction s = .ok (ds, r)) :
    r.length ≤ s.length := by
  unfold readFraction at h
  split at h
  · have := readDigits_length h
    simp only [List.length_cons]
    omega
  · grind

/-- Is there a minus in front? And the text after the sign, if there is one. -/
def takeSign : Text → Bool × Text
  | '-' :: r => (true, r)
  | '+' :: r => (false, r)
  | s => (false, s)

theorem takeSign_length_le (s : Text) : (takeSign s).2.length ≤ s.length := by
  fun_cases takeSign s <;> simp

/-- Reads the sign and the digits of an exponent. -/
def readSigned (s : Text) : Result Int :=
  match readDigits (takeSign s).2 with
  | .error e => .error e
  | .ok (ds, r) => .ok (if (takeSign s).1 then -(ofDigits ds : Int) else ofDigits ds, r)

theorem readSigned_length {s r : Text} {n : Int} (h : readSigned s = .ok (n, r)) :
    r.length ≤ s.length := by
  have := takeSign_length_le s
  unfold readSigned at h
  split at h
  · simp at h
  · rename_i hd
    have := readDigits_length hd
    grind

/-- Reads an exponent, if there is one. -/
def readExponent (s : Text) : Result Int :=
  match s with
  | 'e' :: r => readSigned r
  | 'E' :: r => readSigned r
  | s => .ok (0, s)

theorem readExponent_length {s r : Text} {n : Int} (h : readExponent s = .ok (n, r)) :
    r.length ≤ s.length := by
  unfold readExponent at h
  split at h
  · have := readSigned_length h
    simp only [List.length_cons]
    omega
  · have := readSigned_length h
    simp only [List.length_cons]
    omega
  · grind

/-- Reads a number after its sign. -/
def readNumber (s : Text) : Result Number :=
  match readIntegerDigits s with
  | .error e => .error e
  | .ok (whole, r) =>
    match readFraction r with
    | .error e => .error e
    | .ok (fraction, r) =>
      match readExponent r with
      | .error e => .error e
      | .ok (exponent, r) => .ok (⟨ofDigits (whole ++ fraction), exponent - fraction.length⟩, r)

theorem readNumber_length {s r : Text} {n : Number} (h : readNumber s = .ok (n, r)) :
    r.length < s.length := by
  unfold readNumber at h
  split at h
  · simp at h
  · rename_i h1
    have := readIntegerDigits_length h1
    split at h
    · simp at h
    · rename_i h2
      have := readFraction_length h2
      split at h
      · simp at h
      · rename_i h3
        have := readExponent_length h3
        grind

/-- Numbers from half a unit above the largest finite one of 64 bits on cannot be held. A
number with more than 309 digits in front of the point is beyond that, one with less is not. -/
def Number.isInfinite (n : Number) : Bool :=
  let bound := Nat.pow 2 1024 - Nat.pow 2 970
  let places : Int := (Nat.toDigits 10 n.digits).length + n.exponent
  if n.digits = 0 then false
  else if places > 309 then true
  else if places < 309 then false
  else n.digits * Nat.pow 10 n.exponent.toNat ≥ bound * Nat.pow 10 (-n.exponent).toNat

/-! ### Passing over values -/

/-- An open bracket. -/
inductive Bracket where
  | list
  | object
  deriving DecidableEq, Repr

/-- The character that closes a bracket. -/
def Bracket.closer : Bracket → Char
  | .list => ']'
  | .object => '}'

/-- What comes next while a value is passed over. -/
inductive Stage where
  /-- A value. -/
  | value
  /-- The first member of the bracket on top, or its end. -/
  | opened
  /-- A comma and another member of the bracket on top, or its end. -/
  | closed
  deriving DecidableEq, Repr

/-- Passes over a number after its sign; whatever is wrong with it, it is no JSON. -/
def skipNumber (s : Text) : Except Fault Text :=
  match readNumber s with
  | .error _ => .error .malformed
  | .ok (_, r) => .ok r

theorem skipNumber_length {s r : Text} (h : skipNumber s = .ok r) : r.length < s.length := by
  unfold skipNumber at h
  split at h
  · simp at h
  · rename_i hn
    have := readNumber_length hn
    grind

/-- Passes over a value that starts with `c` and is neither a list nor an object. -/
def skipScalar (c : Char) (r : Text) : Except Fault Text :=
  if c = 'n' then expectWord "ull".toList r
  else if c = 't' then expectWord "rue".toList r
  else if c = 'f' then expectWord "alse".toList r
  else if c = '"' then skipString r
  else if c = '-' then skipNumber r
  else if c.isDigit then skipNumber (c :: r)
  else .error .malformed

theorem skipScalar_length {c : Char} {r t : Text} (h : skipScalar c r = .ok t) :
    t.length ≤ r.length := by
  unfold skipScalar at h
  split at h
  · exact expectWord_length h
  split at h
  · exact expectWord_length h
  split at h
  · exact expectWord_length h
  split at h
  · exact Nat.le_of_lt (skipString_length h)
  split at h
  · exact Nat.le_of_lt (skipNumber_length h)
  split at h
  · have := skipNumber_length h
    simp only [List.length_cons] at this
    omega
  · simp at h

/-- Passes over the key of a member, up to the value. -/
def skipKey (s : Text) : Except Fault Text :=
  match expect '"' s with
  | .error e => .error e
  | .ok r =>
    match skipString r with
    | .error e => .error e
    | .ok r => expect ':' r

theorem skipKey_length {s r : Text} (h : skipKey s = .ok r) : r.length < s.length := by
  unfold skipKey at h
  split at h
  · simp at h
  · rename_i h1
    have := expect_length h1
    split at h
    · simp at h
    · rename_i h2
      have := skipString_length h2
      have := expect_length h
      omega

/-- Passes over what stands in front of the value of a member. -/
def Bracket.skipKey : Bracket → Text → Except Fault Text
  | .list, s => .ok s
  | .object, s => Json.skipKey s

theorem Bracket.skipKey_length {b : Bracket} {s r : Text} (h : b.skipKey s = .ok r) :
    r.length ≤ s.length := by
  cases b with
  | list => simp_all [Bracket.skipKey]
  | object => exact Nat.le_of_lt (Json.skipKey_length h)

/-- What stands after the first character that is not a space. -/
theorem rest_length_lt {s r : Text} {c : Char} (h : skipSpaces s = c :: r) :
    r.length < s.length := by
  have hl := skipSpaces_length_le s
  rw [h] at hl
  exact hl

/-- Passes over a value, or over what is left of the open brackets. -/
def skipFrom (stage : Stage) (brackets : List Bracket) (s : Text) : Except Fault Text :=
  match stage, brackets with
  | .value, brackets =>
    match _h : skipSpaces s with
    | [] => .error .truncated
    | c :: r =>
      if c = '[' then skipFrom .opened (.list :: brackets) r
      else if c = '\x7b' then skipFrom .opened (.object :: brackets) r
      else
        match _hs : skipScalar c r with
        | .error e => .error e
        | .ok r => skipFrom .closed brackets r
  | .opened, [] => .ok s
  | .opened, b :: brackets =>
    match _h : skipSpaces s with
    | [] => .error .truncated
    | c :: r =>
      if c = b.closer then skipFrom .closed brackets r
      else
        match _hk : b.skipKey (c :: r) with
        | .error e => .error e
        | .ok r => skipFrom .value (b :: brackets) r
  | .closed, [] => .ok s
  | .closed, b :: brackets =>
    match _h : skipSpaces s with
    | [] => .error .truncated
    | c :: r =>
      if c = b.closer then skipFrom .closed brackets r
      else if c = ',' then
        match _hk : b.skipKey r with
        | .error e => .error e
        | .ok r => skipFrom .value (b :: brackets) r
      else .error .malformed
termination_by (s.length, if stage = .value then 0 else 1)
decreasing_by
  · exact .left _ _ (rest_length_lt _h)
  · exact .left _ _ (rest_length_lt _h)
  · exact .left _ _ (Nat.lt_of_le_of_lt (skipScalar_length _hs) (rest_length_lt _h))
  · exact .left _ _ (rest_length_lt _h)
  -- In a list the value starts where the text did, but the stage comes before.
  · have hk := Bracket.skipKey_length _hk
    have hl := rest_length_lt _h
    simp only [List.length_cons] at hk
    rcases Nat.lt_or_eq_of_le (Nat.le_trans hk hl) with hlt | heq
    · exact .left _ _ hlt
    · rw [heq]
      exact .right _ (by simp)
  · exact .left _ _ (rest_length_lt _h)
  · exact .left _ _ (Nat.lt_of_le_of_lt (Bracket.skipKey_length _hk) (rest_length_lt _h))

/-- Passes over a value. -/
def skipValue (s : Text) : Except Fault Text := skipFrom .value [] s

/-! ### Values of the wrong type -/

/-- The fault of a number that is not expected. -/
def wrongNumber (s : Text) : Fault :=
  match readNumber s with
  | .error e => e
  | .ok (n, _) => if n.isInfinite then .malformed else .mismatch

/-- The fault of a word that is not expected. -/
def wrongWord (w s : Text) : Fault :=
  match expectWord w s with
  | .error e => e
  | .ok _ => .mismatch

/-- The fault of a value that starts with `c` and is not expected. -/
def wrongType (c : Char) (r : Text) : Fault :=
  if c = 'n' then wrongWord "ull".toList r
  else if c = 't' then wrongWord "rue".toList r
  else if c = 'f' then wrongWord "alse".toList r
  else if c = '"' then
    match readString r with
    | .error e => e
    | .ok _ => .mismatch
  else if c = '-' then wrongNumber r
  else if c.isDigit then wrongNumber (c :: r)
  else if c = '[' ∨ c = '\x7b' then .mismatch
  else .malformed

end Json

end TemplateCatalog
