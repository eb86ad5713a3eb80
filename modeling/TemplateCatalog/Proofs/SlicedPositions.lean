/-
Lines and columns by byte offsets.

The place of a byte, found by offsets into the text: the byte is moved back, one byte at a
time, until it starts a character (`boundary?`), the line starts behind the last line feed in
front of it and ends at the first one from there on. The byte never gets below zero, as every
text can be cut at its front, and the two ends of the line are boundaries on the two sides of
the byte (`Sliced.locate?_eq`).
-/
import TemplateCatalog.Proofs.Slices

namespace TemplateCatalog

open Text

namespace Sliced

/-- The last byte up to byte `n` at which the text can be cut. -/
def boundary? (s : Text) (n : Nat) : Option Nat :=
  if (cutAt? n s).isSome then some n
  else
    match n with
    | 0 => none
    | n + 1 => boundary? s n

/-- The byte at which the last `c` of a text starts. -/
def lastByte? (c : Char) : Text → Option Nat
  | [] => none
  | d :: r =>
    match lastByte? c r with
    | some i => some (d.utf8Size + i)
    | none => if d = c then some 0 else none

/-- The place of a byte of a text. -/
def locate? (s : Text) (n : Nat) : Option Position := do
  let offset ← boundary? s (min n (byteSize s))
  let lineStart := (lastByte? '\n' (← sliceTo? s offset)).elim 0 (· + 1)
  let lineEnd := (← findFrom? s ['\n'] offset).getD (byteSize s)
  return { line := (← sliceTo? s lineStart).count '\n' + 1
           column := (← slice? s lineStart offset).length + 1
           sourceLine := dropReturns (← slice? s lineStart lineEnd) }

/-! ### Boundaries -/

theorem splitAtByte_of_size_le {s : Text} {n : Nat} (h : byteSize s ≤ n) :
    splitAtByte n s = (s, []) := by
  induction s generalizing n with
  | nil => rfl
  | cons c s ih =>
    rw [byteSize_cons] at h
    rw [splitAtByte, if_pos (by omega), ih (by omega)]

theorem splitAtByte_min (s : Text) (n : Nat) :
    splitAtByte (min n (byteSize s)) s = splitAtByte n s := by
  rcases Nat.le_total n (byteSize s) with hle | hle
  · rw [Nat.min_eq_left hle]
  · rw [Nat.min_eq_right hle, splitAtByte_of_size_le hle,
      splitAtByte_of_size_le (Nat.le_refl _)]

theorem splitAtByte_zero (s : Text) : splitAtByte 0 s = ([], s) := splitAtByte_byteSize [] s

/-- One byte further on means the same, if no character starts there. -/
theorem splitAtByte_succ {s : Text} {n : Nat}
    (h : byteSize (splitAtByte (n + 1) s).1 ≠ n + 1) :
    splitAtByte (n + 1) s = splitAtByte n s := by
  induction s generalizing n with
  | nil => rfl
  | cons c s ih =>
    rw [splitAtByte] at h
    rw [splitAtByte, splitAtByte]
    split_ifs at h ⊢ with hfits hfits'
    · rw [Nat.sub_add_comm hfits'] at h ⊢
      rw [byteSize_cons] at h
      rw [ih (by omega)]
    · -- The character ends at byte `n + 1`.
      have hsize : c.utf8Size = n + 1 := by omega
      rw [hsize, Nat.sub_self, splitAtByte_zero] at h
      simp [hsize] at h
    · omega
    · rfl

/-- Moving back ends where the text is cut. -/
theorem boundary?_eq (s : Text) (n : Nat) (h : n ≤ byteSize s) :
    boundary? s n = some (byteSize (splitAtByte n s).1) := by
  induction n with
  | zero =>
    rw [boundary?, splitAtByte_zero, cutAt?, splitAtByte_zero]
    rfl
  | succ n ih =>
    rw [boundary?, cutAt?]
    by_cases hsize : byteSize (splitAtByte (n + 1) s).1 = n + 1
    · rw [if_pos hsize, hsize]
      rfl
    · rw [if_neg hsize, splitAtByte_succ hsize]
      exact ih (by omega)

/-! ### Lines -/

theorem lastByte?_eq_none {c : Char} {s : Text} (h : c ∉ s) : lastByte? c s = none := by
  induction s with
  | nil => rfl
  | cons d s ih =>
    rw [List.mem_cons, not_or] at h
    rw [lastByte?, ih h.2]
    exact if_neg (Ne.symm h.1)

theorem lastByte?_append_cons {c : Char} {front back : Text} (h : c ∉ back) :
    lastByte? c (front ++ c :: back) = some (byteSize front) := by
  induction front with
  | nil =>
    rw [List.nil_append, lastByte?, lastByte?_eq_none h]
    exact if_pos rfl
  | cons d front ih =>
    rw [List.cons_append, lastByte?, ih]
    rfl

/-- The last line starts behind the last line feed. -/
theorem exists_lastLine (s : Text) :
    ∃ front, s = front ++ lastLine s ∧ byteSize front = (lastByte? '\n' s).elim 0 (· + 1) := by
  have hparts : (s.reverse.dropWhile (· != '\n')).reverse ++ lastLine s = s := by
    rw [lastLine, ← List.reverse_append, List.takeWhile_append_dropWhile, List.reverse_reverse]
  have hfeed := List.head?_dropWhile_not (· != '\n') s.reverse
  refine ⟨_, hparts.symm, ?_⟩
  -- Without a line feed the whole text is the last line.
  cases hfront : s.reverse.dropWhile (· != '\n') with
  | nil =>
    rw [hfront] at hparts
    have hnone := not_mem_lastLine s
    rw [show lastLine s = s from hparts] at hnone
    rw [lastByte?_eq_none hnone]
    rfl
  | cons c r =>
    rw [hfront] at hparts hfeed
    obtain rfl : c = '\n' := by simpa using hfeed
    have hlast : lastByte? '\n' s = some (byteSize r.reverse) := by
      rw [← lastByte?_append_cons (not_mem_lastLine s)]
      conv_lhs => rw [← hparts]
      simp
    rw [hlast]
    simp
    rfl

/-- The first line ends in front of the first line feed. -/
theorem exists_firstLine {s r : Text} {i : Nat} (h : At s i r) :
    (∃ back, r = firstLine r ++ back) ∧
      (findFrom? s ['\n'] i).map (·.getD (byteSize s)) =
        some (i + byteSize (firstLine r)) := by
  refine ⟨⟨_, List.takeWhile_append_dropWhile.symm⟩, ?_⟩
  rw [findFrom?_eq h, Option.map_some]
  rcases cut?_char '\n' r with ⟨hcut, hnone⟩ | ⟨before, after, hcut, hbefore, rfl⟩
  · rw [hcut, firstLine_of_not_mem hnone, h.size]
    rfl
  · rw [hcut, firstLine_append_cons hbefore]
    rfl

/-! ### Places -/

/-- The place of a byte is found by slices that are there. -/
theorem locate?_eq (s : Text) (n : Nat) : locate? s n = some (Position.locate s n) := by
  have hboundary := boundary?_eq s (min n (byteSize s)) (Nat.min_le_right _ _)
  have happ := splitAtByte_append n s
  rw [splitAtByte_min] at hboundary
  rw [Position.locate]
  generalize splitAtByte n s = parts at hboundary happ
  obtain ⟨before, after⟩ := parts
  dsimp only at hboundary happ ⊢
  -- The line starts in front of the byte and ends behind it.
  obtain ⟨front, hfront, hstart⟩ := exists_lastLine before
  obtain ⟨⟨back, hback⟩, hend⟩ :=
    exists_firstLine (⟨before, happ.symm, rfl⟩ : At s (byteSize before) after)
  obtain ⟨close, hfind, hclose⟩ := Option.map_eq_some_iff.1 hend
  have hoffset : byteSize before = byteSize front + byteSize (lastLine before) := by
    rw [← byteSize_append, ← hfront]
  have hparts : s = front ++ (lastLine before ++ after) := by
    rw [← List.append_assoc, ← hfront, happ]
  have hline : At s (byteSize front) (lastLine before ++ after) := ⟨front, hparts, rfl⟩
  have hbefore : sliceTo? s (byteSize before) = some before :=
    sliceTo?_eq_some_iff.2 ⟨⟨after, happ⟩, rfl⟩
  have hlines : sliceTo? s (byteSize front) = some front :=
    sliceTo?_eq_some_iff.2 ⟨⟨_, hparts.symm⟩, rfl⟩
  have hcolumn : slice? s (byteSize front) (byteSize before) = some (lastLine before) := by
    rw [hoffset]
    exact hline.slice?_eq
  have hsource : slice? s (byteSize front) (close.getD (byteSize s)) =
      some (lastLine before ++ firstLine after) := by
    rw [hback, ← List.append_assoc] at hline
    rw [hclose, hoffset, Nat.add_assoc, ← byteSize_append]
    exact hline.slice?_eq
  have hcount : before.count '\n' = front.count '\n' := by
    conv_lhs => rw [hfront]
    rw [List.count_append, List.count_eq_zero.2 (not_mem_lastLine before), Nat.add_zero]
  simp only [locate?, hboundary, bind, Option.bind, hbefore, ← hstart, hfind, hlines, hcolumn,
    hsource, hcount]
  rfl

end Sliced

end TemplateCatalog
