/-
What stands between two quotes.

`Quoted q s` says that `s` can stand between two quotes `q`: a backslash takes a character
along that is no line feed, and every other character is no `q`. The scanner finds exactly
these texts:

* `untilQuote_eq_some_iff` — the text up to the closing quote is the one that can stand there;
* `Literal.take?_eq_some_iff`, `Literal.parse?_eq_some_iff` — a literal is taken, or read,
  exactly if it is complete, whatever follows it.

`Paired s` says the same without the quote: no backslash is left alone, or in front of a line
feed.
-/
import TemplateCatalog.Template.Literal

namespace TemplateCatalog

open Text

/-- The text can stand between two quotes `q`. -/
inductive Quoted (q : Char) : Text → Prop
  | nil : Quoted q []
  | plain {c r} : c ≠ q → c ≠ '\\' → Quoted q r → Quoted q (c :: r)
  | escape {d r} : d ≠ '\n' → Quoted q r → Quoted q ('\\' :: d :: r)

/-- Every backslash has a character after it that is no line feed. -/
inductive Paired : Text → Prop
  | nil : Paired []
  | plain {c r} : c ≠ '\\' → Paired r → Paired (c :: r)
  | escape {d r} : d ≠ '\n' → Paired r → Paired ('\\' :: d :: r)

theorem Quoted.paired {q : Char} {s : Text} (h : Quoted q s) : Paired s := by
  induction h with
  | nil => exact .nil
  | plain _ hc _ ih => exact .plain hc ih
  | escape hd _ ih => exact .escape hd ih

theorem paired_of_not_mem {s : Text} (h : '\\' ∉ s) : Paired s := by
  induction s with
  | nil => exact .nil
  | cons c r ih =>
    simp only [List.mem_cons, not_or] at h
    exact .plain (Ne.symm h.1) (ih h.2)

theorem Quote.char_ne_backslash (q : Quote) : q.char ≠ '\\' := by
  cases q <;> decide

theorem Quote.isQuote_char (q : Quote) : isQuote q.char = true := by
  cases q <;> rfl

/-! ### The scanner -/

/-- The scanner stops at the first quote that no backslash takes along. -/
theorem untilQuote_append {q : Char} (hq : q ≠ '\\') {s : Text} (h : Quoted q s) (r : Text) :
    untilQuote q (s ++ q :: r) = some (s, r) := by
  induction h with
  | nil => cases r <;> simp [untilQuote]
  | @plain c s hc hb _ ih =>
    cases s with
    | nil =>
      rw [List.nil_append] at ih
      simp [untilQuote, hc, hb, ih]
    | cons d s =>
      rw [List.cons_append] at ih
      simp [untilQuote, hc, hb, ih]
  | @escape d s hd _ ih =>
    simp [untilQuote, hq.symm, hd, ih]

theorem quoted_of_untilQuote {q : Char} {s inner after : Text}
    (h : untilQuote q s = some (inner, after)) : Quoted q inner := by
  -- The scan ends at the quote, goes over an escape, or over another character.
  fun_induction untilQuote q s generalizing inner after with
  | case1 => exact absurd h (by simp)
  | case2 =>
    simp only [Option.some.injEq, Prod.mk.injEq] at h
    rw [← h.1]
    exact .nil
  | case3 => exact absurd h (by simp)
  | case4 =>
    simp only [Option.some.injEq, Prod.mk.injEq] at h
    rw [← h.1]
    exact .nil
  | case5 => exact absurd h (by simp)
  | case6 d r hd _ ih =>
    obtain ⟨⟨i, a⟩, hi, hp⟩ := Option.map_eq_some_iff.1 h
    simp only [Prod.mk.injEq] at hp
    rw [← hp.1]
    exact .escape hd (ih hi)
  | case7 c d r hq hb ih =>
    obtain ⟨⟨i, a⟩, hi, hp⟩ := Option.map_eq_some_iff.1 h
    simp only [Prod.mk.injEq] at hp
    rw [← hp.1]
    exact .plain hq hb (ih hi)

theorem untilQuote_eq_some_iff {q : Char} (hq : q ≠ '\\') {s inner after : Text} :
    untilQuote q s = some (inner, after) ↔ s = inner ++ q :: after ∧ Quoted q inner := by
  constructor
  · exact fun h => ⟨untilQuote_eq_some h, quoted_of_untilQuote h⟩
  · rintro ⟨rfl, h⟩
    exact untilQuote_append hq h after

/-! ### Literals -/

namespace Literal

/-- The text of the literal can stand between its quotes. -/
def Complete (l : Literal) : Prop := Quoted l.quote.char l.inner

/-- A complete literal is taken off whatever follows it, and nothing else is. -/
theorem take?_eq_some_iff {s r : Text} {l : Literal} :
    take? s = some (l, r) ↔ s = l.toText ++ r ∧ l.Complete := by
  constructor
  · intro h
    refine ⟨take?_eq_some h, ?_⟩
    unfold take? at h
    split at h
    · exact absurd h (by simp)
    · split at h
      · exact absurd h (by simp)
      · obtain ⟨⟨i, a⟩, hi, hp⟩ := Option.map_eq_some_iff.1 h
        simp only [Prod.mk.injEq] at hp
        rw [← hp.1]
        exact quoted_of_untilQuote hi
  · rintro ⟨rfl, h⟩
    have hs := untilQuote_append l.quote.char_ne_backslash h r
    simp [take?, toText, Quote.ofChar?_eq_some_iff.2 rfl, hs]

/-- A text is read as a literal exactly if it is the written form of a complete one. -/
theorem parse?_eq_some_iff {s : Text} {l : Literal} :
    parse? s = some l ↔ s = l.toText ∧ l.Complete := by
  -- Nothing may be left behind the literal.
  have ht : parse? s = some l ↔ take? s = some (l, []) := by
    rw [parse?]
    split
    · rename_i hs
      simp [hs]
    · rename_i hs
      constructor
      · intro h
        exact absurd h (by simp)
      · exact fun h => absurd h (hs l)
  rw [ht, take?_eq_some_iff, List.append_nil]

theorem take?_toText_append {l : Literal} (h : l.Complete) (r : Text) :
    take? (l.toText ++ r) = some (l, r) := take?_eq_some_iff.2 ⟨rfl, h⟩

theorem take?_of_not_isQuote {c : Char} {r : Text} (h : isQuote c = false) :
    take? (c :: r) = none := by
  rw [isQuote, Option.isSome_eq_false_iff, Option.isNone_iff_eq_none] at h
  simp [take?, h]

theorem toText_ne_nil (l : Literal) : l.toText ≠ [] := by
  simp [toText]

end Literal

end TemplateCatalog
