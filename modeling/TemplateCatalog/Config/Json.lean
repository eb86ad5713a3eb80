/-
The lexical parts of JSON texts.

Readers take their part off the front of a text and return the rest. A fault says whether the
text is no JSON, ends too early, or holds a value of another type than the one that is
expected; the first fault in the order of the text counts. `readString` reads a string with its
escapes, `skipValue` takes a value of any kind off the text without keeping it, `quote` writes
a string.
-/
import TemplateCatalog.Text.Basic

namespace TemplateCatalog

namespace Json

/-! ### Faults and blanks -/

/-- Why a text cannot be read. -/
inductive Fault where
  /-- No JSON. -/
  | malformed
  /-- A value of another type, an unknown variant, or a field that is given twice. -/
  | mismatch
  /-- The text ends too early. -/
  | truncated
  deriving DecidableEq, Repr

/-- The word for the kind of fault. -/
def Fault.category : Fault → Text
  | .malformed => "Syntax".toList
  | .mismatch => "Data".toList
  | .truncated => "Eof".toList

/-- What a reader returns: its part of the text, and the rest. -/
abbrev Result (α : Type) := Except Fault (α × Text)

/-- The four blanks of JSON. -/
def isSpace (c : Char) : Bool := c == ' ' || c == '\n' || c == '\t' || c == '\r'

/-- The text without the blanks in front. -/
def skipSpaces (s : Text) : Text := s.dropWhile isSpace

theorem skipSpaces_length_le (s : Text) : (skipSpaces s).length ≤ s.length :=
  (List.dropWhile_suffix _).length_le

/-- The rest of the text after the character `c`, blanks in front of it aside. -/
def expect (c : Char) (s : Text) : Except Fault Text :=
  match skipSpaces s with
  | [] => .error .truncated
  | d :: r => if d = c then .ok r else .error .malformed

theorem expect_length {c : Char} {s r : Text} (h : expect c s = .ok r) : r.length < s.length := by
  have := skipSpaces_length_le s
  unfold expect at h
  grind

/-- The rest of the text after a word. -/
def expectWord : Text → Text → Except Fault Text
  | [], s => .ok s
  | _ :: _, [] => .error .truncated
  | c :: w, d :: s => if c = d then expectWord w s else .error .malformed

theorem expectWord_length {w s r : Text} (h : expectWord w s = .ok r) : r.length ≤ s.length := by
  fun_induction expectWord w s <;> grind

/-! ### Escapes -/

/-- The value of a hexadecimal digit. -/
def hexValue? (c : Char) : Option Nat :=
  if '0' ≤ c ∧ c ≤ '9' then some (c.toNat - '0'.toNat)
  else if 'a' ≤ c ∧ c ≤ 'f' then some (c.toNat - 'a'.toNat + 10)
  else if 'A' ≤ c ∧ c ≤ 'F' then some (c.toNat - 'A'.toNat + 10)
  else none

/-- Reads the four digits of a code unit. The text must have four bytes left for them. -/
def readUnit (s : Text) : Result Nat :=
  if Text.byteSize (s.take 4) < 4 then .error .truncated
  else
    match s with
    | a :: b :: c :: d :: r =>
      match hexValue? a, hexValue? b, hexValue? c, hexValue? d with
      | some a, some b, some c, some d => .ok (((a * 16 + b) * 16 + c) * 16 + d, r)
      | _, _, _, _ => .error .malformed
    | _ => .error .malformed

theorem readUnit_length {s r : Text} {n : Nat} (h : readUnit s = .ok (n, r)) :
    r.length < s.length := by
  unfold readUnit at h
  grind

/-- Is the code unit the first half of a character beyond U+FFFF? -/
def isHighHalf (n : Nat) : Bool := 0xD800 ≤ n && n ≤ 0xDBFF

/-- Is the code unit the second half of a character beyond U+FFFF? -/
def isLowHalf (n : Nat) : Bool := 0xDC00 ≤ n && n ≤ 0xDFFF

/-- Reads the character of a `\u` escape, after the `u`. A half needs its other half. -/
def readUnicode (s : Text) : Result Char :=
  match readUnit s with
  | .error e => .error e
  | .ok (n, r) =>
    if isLowHalf n then .error .malformed
    else if isHighHalf n then
      match r with
      | [] => .error .truncated
      | c :: r =>
        if c ≠ '\\' then .error .malformed
        else
          match r with
          | [] => .error .truncated
          | d :: r =>
            if d ≠ 'u' then .error .malformed
            else
              match readUnit r with
              | .error e => .error e
              | .ok (m, r) =>
                if isLowHalf m then
                  .ok (Char.ofNat ((n - 0xD800) * 0x400 + (m - 0xDC00) + 0x10000), r)
                else .error .malformed
    else .ok (Char.ofNat n, r)

theorem readUnicode_length {s r : Text} {c : Char} (h : readUnicode s = .ok (c, r)) :
    r.length < s.length := by
  unfold readUnicode at h
  split at h
  · simp at h
  · rename_i n t ht
    have h1 := readUnit_length ht
    split at h
    · simp at h
    · split at h
      · split at h
        · simp at h
        · split at h
          · simp at h
          · split at h
            · simp at h
            · split at h
              · simp at h
              · split at h
                · simp at h
                · rename_i m u hu
                  have h2 := readUnit_length hu
                  split at h
                  · simp only [Except.ok.injEq, Prod.mk.injEq] at h
                    simp only [List.length_cons, ← h.2] at h1 h2 ⊢
                    omega
                  · simp at h
      · simp only [Except.ok.injEq, Prod.mk.injEq] at h
        rw [← h.2]
        exact h1

/-- The character of a short escape. -/
def shortEscape? (c : Char) : Option Char :=
  if c = '"' ∨ c = '\\' ∨ c = '/' then some c
  else if c = 'b' then some '\x08'
  else if c = 'f' then some '\x0c'
  else if c = 'n' then some '\n'
  else if c = 'r' then some '\r'
  else if c = 't' then some '\t'
  else none

/-- Reads the character of an escape, after the backslash. -/
def readEscape : Text → Result Char
  | [] => .error .truncated
  | c :: r =>
    if c = 'u' then readUnicode r
    else
      match shortEscape? c with
      | none => .error .malformed
      | some d => .ok (d, r)

theorem readEscape_length {s r : Text} {c : Char} (h : readEscape s = .ok (c, r)) :
    r.length < s.length := by
  unfold readEscape at h
  split at h
  · simp at h
  · split at h
    · have := readUnicode_length h
      simp only [List.length_cons]
      omega
    · grind

/-- Passes over an escape, after the backslash; halves of characters are not looked at. -/
def skipEscape : Text → Except Fault Text
  | [] => .error .truncated
  | c :: r =>
    if c = 'u' then (readUnit r).map Prod.snd
    else if (shortEscape? c).isSome then .ok r
    else .error .malformed

theorem skipEscape_length {s r : Text} (h : skipEscape s = .ok r) : r.length < s.length := by
  unfold skipEscape at h
  split at h
  · simp at h
  · split at h
    · rename_i c t _
      cases hu : readUnit t with
      | error e => simp [hu, Except.map] at h
      | ok x =>
        obtain ⟨n, u⟩ := x
        have := readUnit_length hu
        simp only [hu, Except.map, Except.ok.injEq] at h
        simp only [← h, List.length_cons]
        omega
    · grind

/-! ### Strings -/

/-- The characters that a string holds only in escapes. -/
def isControl (c : Char) : Bool := c.toNat < 0x20

/-- Reads a string after its opening quote. -/
def readString : Text → Result Text
  | [] => .error .truncated
  | c :: r =>
    if c = '"' then .ok ([], r)
    else if c = '\\' then
      match _h : readEscape r with
      | .error e => .error e
      | .ok (d, r') =>
        match readString r' with
        | .error e => .error e
        | .ok (s, rest) => .ok (d :: s, rest)
    else if isControl c then .error .malformed
    else
      match readString r with
      | .error e => .error e
      | .ok (s, rest) => .ok (c :: s, rest)
termination_by s => s.length
decreasing_by
  · have := readEscape_length _h
    simp only [List.length_cons]
    omega
  · simp

theorem readString_length {s r t : Text} (h : readString s = .ok (t, r)) :
    r.length < s.length := by
  fun_induction readString s generalizing t r with
  | case1 => simp at h
  | case2 => grind
  | case3 => simp at h
  | case4 => simp at h
  | case5 _ _ _ hd _ _ hu _ ih =>
    have := readEscape_length hd
    have := ih hu
    grind
  | case6 => simp at h
  | case7 => simp at h
  | case8 _ _ _ _ _ _ _ hu ih =>
    have := ih hu
    grind

/-- Passes over a string, after its opening quote. -/
def skipString : Text → Except Fault Text
  | [] => .error .truncated
  | c :: r =>
    if c = '"' then .ok r
    else if c = '\\' then
      match _h : skipEscape r with
      | .error e => .error e
      | .ok r' => skipString r'
    else if isControl c then .error .malformed
    else skipString r
termination_by s => s.length
decreasing_by
  · have := skipEscape_length _h
    simp only [List.length_cons]
    omega
  · simp

theorem skipString_length {s r : Text} (h : skipString s = .ok r) : r.length < s.length := by
  fun_induction skipString s with
  | case1 => simp at h
  | case2 => grind
  | case3 => simp at h
  | case4 _ _ hs _ ih =>
    have := skipEscape_length hs
    have := ih h
    grind
  | case5 => simp at h
  | case6 _ _ _ _ _ ih =>
    have := ih h
    grind

end Json

end TemplateCatalog
