/-
Lines and columns as coordinates of a text.

A text can be cut at some of its bytes, in front of each character and at its end
(`Text.IsCut`). The main result, `locate_orders_and_recovers`, says that the places of these
bytes are coordinates:

* they are ordered as the bytes are, by line and then by column (`Position.Before`);
* the byte is found again from its line and its column, and the line that is shown is the line
  of the text without the carriage returns at its end (`Position.Recovers`);
* every other byte has the place of the last byte up to it at which the text can be cut.

The lines of a text are those that it splits into at its line feeds. What stands in front of a
byte are whole lines and the beginning of one more, and that one goes on behind the byte
(`exists_lines_around`).
-/
import TemplateCatalog.Proofs.LineColumn
import Mathlib.Data.List.Induction
import Mathlib.Order.Bounds.Basic

namespace TemplateCatalog

open Text

/-! ### Cuts -/

/-- The text can be cut at byte `i`. -/
def Text.IsCut (s : Text) (i : Nat) : Prop := ∃ r, At s i r

theorem byteSize_splitAtByte_le (n : Nat) (s : Text) : byteSize (splitAtByte n s).1 ≤ n := by
  fun_induction splitAtByte n s with
  | case1 => exact Nat.zero_le _
  | case2 n c r h front back e ih =>
    rw [e] at ih
    rw [byteSize_cons]
    dsimp only at ih
    omega
  | case3 => exact Nat.zero_le _

/-- The text is cut as late as it can be. -/
theorem le_byteSize_splitAtByte {n i : Nat} {s r : Text} (hi : At s i r) (hn : i ≤ n) :
    i ≤ byteSize (splitAtByte n s).1 := by
  obtain ⟨f, rfl, rfl⟩ := hi
  induction f generalizing n with
  | nil => exact Nat.zero_le _
  | cons c f ih =>
    rw [byteSize_cons] at hn ⊢
    rw [List.cons_append, splitAtByte, if_pos (by omega), byteSize_cons]
    have := ih (n := n - c.utf8Size) (by omega)
    omega

/-- The cut is at the greatest byte, up to byte `n` and the end of the text, where there can be
one. -/
theorem isGreatest_cut (s : Text) (n : Nat) :
    IsGreatest {i | s.IsCut i ∧ i ≤ min n (byteSize s)} (byteSize (splitAtByte n s).1) := by
  have hcut : At s (byteSize (splitAtByte n s).1) (splitAtByte n s).2 :=
    ⟨_, (splitAtByte_append n s).symm, rfl⟩
  have hend := hcut.size
  refine ⟨⟨⟨_, hcut⟩, ?_⟩, ?_⟩
  · have := byteSize_splitAtByte_le n s
    omega
  · rintro i ⟨⟨r, hi⟩, hle⟩
    exact le_byteSize_splitAtByte hi (by omega)

/-! ### Lines of a text -/

/-- The byte at which the line with the number `n` starts: behind the lines in front of it and
their line feeds. -/
def Text.lineStart (s : Text) (n : Nat) : Nat :=
  byteSize (((s.splitOn '\n').take (n - 1)).flatMap line)

theorem count_flatMap_line {ls : List Text} (h : ∀ l ∈ ls, '\n' ∉ l) :
    (ls.flatMap line).count '\n' = ls.length := by
  induction ls with
  | nil => rfl
  | cons l ls ih =>
    obtain ⟨hl, hls⟩ := List.forall_mem_cons.1 h
    rw [List.flatMap_cons, List.count_append, ih hls, line, List.count_append,
      List.count_eq_zero_of_not_mem hl, List.length_cons, List.count_singleton_self]
    omega

/-- Whole lines and the beginning of one more make up a text. -/
theorem exists_flatMap_line (s : Text) :
    ∃ ls : List Text, (∀ l ∈ ls, '\n' ∉ l) ∧ s = ls.flatMap line ++ lastLine s := by
  induction s using List.reverseRecOn with
  | nil => exact ⟨[], nofun, rfl⟩
  | append_singleton s c ih =>
    obtain ⟨ls, hls, hs⟩ := ih
    by_cases hc : c = '\n'
    · subst hc
      refine ⟨ls ++ [lastLine s], fun l hl => ?_, ?_⟩
      · rcases List.mem_append.1 hl with hl | hl
        · exact hls l hl
        · exact List.mem_singleton.1 hl ▸ not_mem_lastLine s
      · have hlast : lastLine (s ++ ['\n']) = [] := by simp [lastLine]
        rw [hlast, List.append_nil, List.flatMap_append, List.flatMap_singleton, line,
          ← List.append_assoc, ← hs]
    · refine ⟨ls, hls, ?_⟩
      rw [lastLine_append (by simpa using Ne.symm hc), ← List.append_assoc, ← hs]

theorem exists_splitOn_eq_firstLine (s : Text) :
    ∃ rest, s.splitOn '\n' = firstLine s :: rest := by
  by_cases h : '\n' ∈ s
  · obtain ⟨a, b, rfl, ha⟩ := List.eq_append_cons_of_mem h
    exact ⟨_, by rw [List.splitOn_append_cons_self_of_not_mem ha, firstLine_append_cons ha]⟩
  · exact ⟨[], by rw [firstLine_of_not_mem h, List.splitOn_eq_singleton h]⟩

/-- A cut text has whole lines in front of the cut, and the line that is cut. -/
theorem exists_lines_around (front r : Text) :
    ∃ ls rest : List Text, (∀ l ∈ ls, '\n' ∉ l) ∧ front = ls.flatMap line ++ lastLine front ∧
      ls.length = front.count '\n' ∧
      (front ++ r).splitOn '\n' = ls ++ (lastLine front ++ firstLine r) :: rest := by
  obtain ⟨ls, hls, hfront⟩ := exists_flatMap_line front
  obtain ⟨rest, hrest⟩ := exists_splitOn_eq_firstLine (lastLine front ++ r)
  have hlast := List.count_eq_zero_of_not_mem (not_mem_lastLine front)
  refine ⟨ls, rest, hls, hfront, ?_, ?_⟩
  · conv_rhs => rw [hfront, List.count_append, count_flatMap_line hls, hlast]
    rfl
  · conv_lhs => rw [hfront, List.append_assoc, splitOn_flatMap_line_append hls, hrest,
      firstLine_append (not_mem_lastLine front)]

/-! ### Places -/

namespace Position

/-- The place stands in an earlier line, or further to the left in the same line. -/
def Before (p q : Position) : Prop := p.line < q.line ∨ p.line = q.line ∧ p.column < q.column

theorem Before.asymm {p q : Position} (h : p.Before q) : ¬q.Before p := by
  rw [Before] at h ⊢
  omega

theorem Before.ne {p q : Position} (h : p.Before q) : p ≠ q := by
  rintro rfl
  exact h.asymm h

/-- The place of byte `o` is that of a line `l` of the text and of as many characters of the
line as stand in front of the byte. -/
structure Recovers (s : Text) (o : Nat) (p : Position) (l : Text) : Prop where
  number : ∀ front r, s = front ++ r → byteSize front = o → p.line = front.count '\n' + 1
  text : (s.splitOn '\n')[p.line - 1]? = some l
  column : 1 ≤ p.column ∧ p.column ≤ l.length + 1
  byte : o = lineStart s p.line + byteSize (l.take (p.column - 1))
  shown : ∃ k, l = p.sourceLine ++ List.replicate k '\r'
  trimmed : p.sourceLine.getLast? ≠ some '\r'

theorem locate_cut (front r : Text) :
    locate (front ++ r) (byteSize front) =
      ⟨front.count '\n' + 1, (lastLine front).length + 1,
        dropReturns (lastLine front ++ firstLine r)⟩ := by
  rw [locate, splitAtByte_byteSize]

/-- Carriage returns and nothing else are dropped, all that there are. -/
theorem exists_eq_dropReturns_append (l : Text) :
    (∃ k, l = dropReturns l ++ List.replicate k '\r') ∧
      (dropReturns l).getLast? ≠ some '\r' := by
  have hparts : dropReturns l ++ (l.reverse.takeWhile (· == '\r')).reverse = l := by
    rw [dropReturns, ← List.reverse_append, List.takeWhile_append_dropWhile,
      List.reverse_reverse]
  have hreturns : (l.reverse.takeWhile (· == '\r')).reverse =
      List.replicate (l.reverse.takeWhile (· == '\r')).reverse.length '\r' := by
    refine List.eq_replicate_of_mem fun c hc => ?_
    simpa using List.mem_takeWhile_imp (List.mem_reverse.1 hc)
  refine ⟨⟨_, by rw [← hreturns, hparts]⟩, fun hlast => ?_⟩
  rw [dropReturns, List.getLast?_reverse] at hlast
  have hstop := List.head?_dropWhile_not (· == '\r') l.reverse
  rw [hlast] at hstop
  cases hstop

/-- The line and the column of a cut lead back to its byte. -/
theorem exists_recovers {s : Text} {o : Nat} (h : s.IsCut o) :
    ∃ l, (locate s o).Recovers s o l := by
  obtain ⟨r, front, rfl, rfl⟩ := h
  obtain ⟨ls, rest, hls, hfront, hlength, hsplit⟩ := exists_lines_around front r
  obtain ⟨hshown, htrimmed⟩ := exists_eq_dropReturns_append (lastLine front ++ firstLine r)
  rw [locate_cut]
  refine ⟨lastLine front ++ firstLine r, fun front' r' hs ho => ?_, ?_, ⟨?_, ?_⟩, ?_, hshown,
    htrimmed⟩
  · have hcut : At (front ++ r) (byteSize front) r' := ⟨front', hs, ho⟩
    obtain rfl : r = r' := At.unique ⟨front, rfl, rfl⟩ hcut
    rw [List.append_cancel_right hs]
  · rw [hsplit, Nat.add_sub_cancel, ← hlength, List.getElem?_append_right (Nat.le_refl _),
      Nat.sub_self]
    rfl
  · exact Nat.le_add_left 1 _
  · rw [List.length_append]
    exact Nat.succ_le_succ (Nat.le_add_right _ _)
  · rw [lineStart, hsplit, Nat.add_sub_cancel, Nat.add_sub_cancel, ← hlength, List.take_left,
      List.take_left, ← byteSize_append, ← hfront]

/-- A later cut has a later place: there are more line feeds in front of it, or its line goes
on. -/
theorem before_of_lt {s : Text} {i j : Nat} (hi : s.IsCut i) (hj : s.IsCut j) (h : i < j) :
    (locate s i).Before (locate s j) := by
  obtain ⟨r, f, rfl, rfl⟩ := hi
  obtain ⟨t, g, hs, rfl⟩ := hj
  -- One of the two fronts continues the other, and the second one is the longer.
  rcases List.append_eq_append_iff.1 hs with ⟨m, rfl, rfl⟩ | ⟨m, rfl, rfl⟩
  · rw [locate_cut, ← List.append_assoc, locate_cut]
    by_cases hm : '\n' ∈ m
    · have hpos := List.count_pos_iff.2 hm
      refine Or.inl ?_
      rw [List.count_append]
      exact Nat.succ_lt_succ (Nat.lt_add_of_pos_right hpos)
    · have hne : m ≠ [] := by
        rintro rfl
        rw [List.append_nil] at h
        exact Nat.lt_irrefl _ h
      refine Or.inr ⟨?_, ?_⟩
      · rw [List.count_append, List.count_eq_zero_of_not_mem hm, Nat.add_zero]
      · rw [lastLine_append hm, List.length_append]
        exact Nat.succ_lt_succ (Nat.lt_add_of_pos_right (List.length_pos_of_ne_nil hne))
  · rw [byteSize_append] at h
    exact absurd h (by omega)

theorem before_iff_lt {s : Text} {i j : Nat} (hi : s.IsCut i) (hj : s.IsCut j) :
    (locate s i).Before (locate s j) ↔ i < j := by
  refine ⟨fun h => ?_, before_of_lt hi hj⟩
  rcases Nat.lt_trichotomy i j with hlt | rfl | hlt
  · exact hlt
  · exact absurd rfl h.ne
  · exact absurd (before_of_lt hj hi hlt) h.asymm

/-- A byte has the place of the cut that it is moved back to. -/
theorem locate_splitAtByte (s : Text) (n : Nat) :
    locate s (byteSize (splitAtByte n s).1) = locate s n := by
  have hs := splitAtByte_append n s
  rw [locate, locate]
  generalize splitAtByte n s = parts at hs ⊢
  rw [← hs, splitAtByte_byteSize]

/-- **Lines and columns are coordinates.** The places of the bytes at which a text can be cut
are ordered as these bytes are, and lead back to them; every other byte has the place of the
last one of them up to it. -/
theorem locate_orders_and_recovers (s : Text) :
    (∀ i j, s.IsCut i → s.IsCut j → (i < j ↔ (locate s i).Before (locate s j))) ∧
    (∀ o, s.IsCut o → ∃ l, (locate s o).Recovers s o l) ∧
    ∀ n, ∃ o, IsGreatest {i | s.IsCut i ∧ i ≤ min n (byteSize s)} o ∧
      locate s n = locate s o :=
  ⟨fun _ _ hi hj => (before_iff_lt hi hj).symm, fun _ => exists_recovers,
    fun n => ⟨_, isGreatest_cut s n, (locate_splitAtByte s n).symm⟩⟩

/-- The second byte of a character in the second line has the place of the first one, and that
leads back to it. -/
theorem locate_orders_and_recovers_wideLine :
    let s : Text := "a\r\né".toList
    s.IsCut 2 ∧ s.IsCut 3 ∧ (locate s 2).Before (locate s 3) ∧ locate s 4 = ⟨2, 1, ['é']⟩ ∧
      ∃ l, (locate s 3).Recovers s 3 l := by
  intro s
  have hi : s.IsCut 2 := ⟨['\n', 'é'], ['a', '\r'], rfl, rfl⟩
  have hj : s.IsCut 3 := ⟨['é'], ['a', '\r', '\n'], rfl, rfl⟩
  obtain ⟨horder, hrecovers, -⟩ := locate_orders_and_recovers s
  exact ⟨hi, hj, (horder 2 3 hi hj).1 (by decide), by decide, hrecovers 3 hj⟩

end Position

end TemplateCatalog
