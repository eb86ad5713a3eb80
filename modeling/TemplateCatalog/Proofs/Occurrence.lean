/-
Occurrences of one text in another, and places in a text.

`occurs needle s` and `cut? needle s` search from the left. What they find is told by three
facts:

* `occurs_iff` — `occurs` decides whether the needle is an infix;
* `cut?_eq_some_iff` — a cut is at the first occurrence, `FirstCut`;
* `cut?_eq_none_iff` — without an occurrence there is no cut.

`At s i r` says that `r` is the text `s` from byte `i` on. A byte has at most one such rest
(`At.unique`), and only a byte on a character boundary has one.
-/
import TemplateCatalog.Text.Blank
import Mathlib.Data.List.Basic

namespace TemplateCatalog

namespace Text

/-! ### The first occurrence -/

/-- `before` ends where the first occurrence of `needle` in `s` starts, `after` is the rest. -/
structure FirstCut (needle s before after : Text) : Prop where
  parts : s = before ++ needle ++ after
  first : ∀ b a, s = b ++ needle ++ a → before.length ≤ b.length

theorem occurs_iff {needle s : Text} : occurs needle s = true ↔ needle <:+: s := by
  induction s with
  | nil => simp [occurs]
  | cons c r ih =>
    rw [occurs, Bool.or_eq_true, ih, List.isPrefixOf_iff_prefix, List.infix_cons_iff]

theorem firstCut_of_cut? {needle s before after : Text}
    (h : cut? needle s = some (before, after)) : FirstCut needle s before after := by
  refine ⟨cut?_eq_some h, ?_⟩
  fun_induction cut? needle s generalizing before after with
  | case1 hn =>
    obtain ⟨rfl, rfl⟩ := h
    intro b a _
    exact Nat.zero_le _
  | case2 => simp at h
  | case3 c r hp =>
    obtain ⟨rfl, rfl⟩ := h
    intro b a _
    exact Nat.zero_le _
  | case4 c r hp ih =>
    obtain ⟨⟨b', a'⟩, hb, he⟩ := Option.map_eq_some_iff.1 h
    simp only [Prod.mk.injEq] at he
    obtain ⟨rfl, rfl⟩ := he
    intro b a hs
    cases b with
    | nil =>
      -- An occurrence at the very front would have been taken.
      refine absurd (List.isPrefixOf_iff_prefix.2 ?_) hp
      exact ⟨a, by simpa using hs.symm⟩
    | cons d b =>
      simp only [List.cons_append, List.cons.injEq] at hs
      simpa using ih hb b a hs.2

theorem cut?_eq_none_iff {needle s : Text} : cut? needle s = none ↔ ¬ needle <:+: s := by
  induction s with
  | nil => cases needle <;> simp [cut?]
  | cons c r ih =>
    rw [cut?, List.infix_cons_iff, ← List.isPrefixOf_iff_prefix]
    by_cases hp : needle.isPrefixOf (c :: r)
    · simp [hp]
    · simp [hp, ih]

theorem FirstCut.unique {needle s b a b' a' : Text} (h : FirstCut needle s b a)
    (h' : FirstCut needle s b' a') : b = b' ∧ a = a' := by
  -- Neither occurrence is before the other.
  have hl : b.length = b'.length :=
    Nat.le_antisymm (h.first _ _ h'.parts) (h'.first _ _ h.parts)
  have he : b ++ (needle ++ a) = b' ++ (needle ++ a') := by
    rw [← List.append_assoc, ← List.append_assoc, ← h.parts, ← h'.parts]
  obtain ⟨rfl, hr⟩ := List.append_inj he hl
  exact ⟨rfl, List.append_cancel_left hr⟩

theorem FirstCut.infix {needle s b a : Text} (h : FirstCut needle s b a) : needle <:+: s :=
  ⟨b, a, h.parts.symm⟩

/-- A cut is at the first occurrence. -/
theorem cut?_eq_some_iff {needle s before after : Text} :
    cut? needle s = some (before, after) ↔ FirstCut needle s before after := by
  refine ⟨firstCut_of_cut?, fun h => ?_⟩
  cases hc : cut? needle s with
  | none => exact absurd h.infix (cut?_eq_none_iff.1 hc)
  | some p =>
    obtain ⟨rfl, rfl⟩ := (firstCut_of_cut? (Prod.eta p ▸ hc)).unique h
    rfl

/-! ### Places -/

theorem eq_nil_of_byteSize_eq_zero {s : Text} (h : byteSize s = 0) : s = [] := by
  cases s with
  | nil => rfl
  | cons c r =>
    have := c.utf8Size_pos
    rw [byteSize_cons] at h
    omega

/-- `r` is the text `s` from byte `i` on. -/
def At (s : Text) (i : Nat) (r : Text) : Prop := ∃ front, s = front ++ r ∧ byteSize front = i

theorem At.start (s : Text) : At s 0 s := ⟨[], rfl, rfl⟩

theorem At.add {s r t : Text} {i : Nat} (h : At s i (t ++ r)) : At s (i + byteSize t) r := by
  obtain ⟨front, rfl, rfl⟩ := h
  exact ⟨front ++ t, by simp, by simp⟩

theorem At.trans {s r t : Text} {i j : Nat} (h : At s i r) (h' : At r j t) :
    At s (i + j) t := by
  obtain ⟨front, rfl, rfl⟩ := h'
  exact h.add

theorem At.size {s r : Text} {i : Nat} (h : At s i r) : i + byteSize r = byteSize s := by
  obtain ⟨front, rfl, rfl⟩ := h
  simp

theorem At.append_right {s r : Text} {i : Nat} (h : At s i r) (t : Text) :
    At (s ++ t) i (r ++ t) := by
  obtain ⟨front, rfl, rfl⟩ := h
  exact ⟨front, by simp, rfl⟩

/-- A byte has at most one rest. -/
theorem At.unique {s r r' : Text} {i : Nat} (h : At s i r) (h' : At s i r') : r = r' := by
  obtain ⟨f, rfl, hf⟩ := h
  obtain ⟨f', he, hf'⟩ := h'
  -- One of the two fronts continues the other, by nothing as they have one size.
  rcases List.append_eq_append_iff.1 he with ⟨m, rfl, rfl⟩ | ⟨m, rfl, rfl⟩
  · have hm : m = [] := eq_nil_of_byteSize_eq_zero (by rw [byteSize_append] at hf'; omega)
    simp [hm]
  · have hm : m = [] := eq_nil_of_byteSize_eq_zero (by rw [byteSize_append] at hf; omega)
    simp [hm]

theorem At.eq_nil {s r : Text} (h : At s (byteSize s) r) : r = [] :=
  eq_nil_of_byteSize_eq_zero (by have := h.size; omega)

end Text

end TemplateCatalog
