/-
String literals, unit by unit.

Read from left to right, a backslash and the character after it are one unit of a text, and
every other character is a unit of its own (`escapeUnits`). Writing a text as a string literal
keeps its units: bare double quotes and line ends become units with a backslash
(`writtenUnit`), and nothing else changes.

* `escapeUnits_literalBody`: the units between the quotes are the written units;
* `wholeUnits_iff`: the texts whose backslashes all take along a character that is no line
  feed;
* `literalBody_idem`: what is written already is written the same again.

`stringLiteral_units` puts these together: a text is written as one complete literal exactly if
its units are whole, as they are in every literal that was read.
-/
import TemplateCatalog.Proofs.Origins

namespace TemplateCatalog

open Text

/-- A literal can be told from what is written. -/
theorem Literal.toText_injective : Function.Injective Literal.toText := by
  rintro ⟨q, i⟩ ⟨q', i'⟩ h
  obtain ⟨hq, hi⟩ := List.cons.inj h
  obtain rfl : q = q' := Option.some.inj ((Quote.ofChar?_eq_some_iff.2 rfl).symm.trans
    (Quote.ofChar?_eq_some_iff.2 hq))
  obtain rfl : i = i' := List.append_cancel_right hi
  rfl

/-! ### Units -/

/-- The units of a text. A backslash is left alone only at the end. -/
def escapeUnits : Text → List Text
  | [] => []
  | [c] => [[c]]
  | c :: d :: r => if c = '\\' then [c, d] :: escapeUnits r else [c] :: escapeUnits (d :: r)

/-- No backslash is left alone, and none takes a line feed along. -/
structure WholeUnits (s : Text) : Prop where
  whole : ['\\'] ∉ escapeUnits s
  lineFeed : ['\\', '\n'] ∉ escapeUnits s

section Units

variable {c d : Char} {r s : Text}

theorem escapeUnits_plain (hc : c ≠ '\\') : escapeUnits (c :: r) = [c] :: escapeUnits r := by
  cases r with
  | nil => rfl
  | cons d r => rw [escapeUnits, if_neg hc]

theorem escapeUnits_escape : escapeUnits ('\\' :: d :: r) = ['\\', d] :: escapeUnits r := by
  rw [escapeUnits, if_pos rfl]

/-- Texts are read off unit by unit. -/
@[elab_as_elim]
theorem escapeUnits_induction {motive : Text → Prop} (nil : motive [])
    (dangling : motive ['\\']) (plain : ∀ c r, c ≠ '\\' → motive r → motive (c :: r))
    (escape : ∀ d r, motive r → motive ('\\' :: d :: r)) (s : Text) : motive s := by
  fun_induction escapeUnits s with
  | case1 => exact nil
  | case2 c =>
    by_cases hc : c = '\\'
    · rw [hc]
      exact dangling
    · exact plain c [] hc nil
  | case3 d r ih => exact escape d r ih
  | case4 c d r hc ih => exact plain c (d :: r) hc ih

/-- The units are the text, cut into pieces. -/
theorem flatten_escapeUnits (s : Text) : (escapeUnits s).flatten = s := by
  induction s using escapeUnits_induction with
  | nil => rfl
  | dangling => rfl
  | plain c r hc ih => rw [escapeUnits_plain hc, List.flatten_cons, ih, List.singleton_append]
  | escape d r ih =>
    rw [escapeUnits_escape, List.flatten_cons, ih, List.cons_append, List.singleton_append]

theorem wholeUnits_plain_iff (hc : c ≠ '\\') : WholeUnits (c :: r) ↔ WholeUnits r := by
  have hmem : ∀ u : Text, u.head? = some '\\' →
      (u ∉ escapeUnits (c :: r) ↔ u ∉ escapeUnits r) := by
    intro u hu
    rw [escapeUnits_plain hc, List.mem_cons, not_or, and_iff_right]
    rintro rfl
    exact hc (Option.some.inj hu)
  constructor
  · exact fun h => ⟨(hmem _ rfl).1 h.whole, (hmem _ rfl).1 h.lineFeed⟩
  · exact fun h => ⟨(hmem _ rfl).2 h.whole, (hmem _ rfl).2 h.lineFeed⟩

theorem wholeUnits_escape_iff : WholeUnits ('\\' :: d :: r) ↔ d ≠ '\n' ∧ WholeUnits r := by
  constructor
  · rintro ⟨hw, hl⟩
    rw [escapeUnits_escape, List.mem_cons, not_or] at hw hl
    refine ⟨?_, hw.2, hl.2⟩
    rintro rfl
    exact hl.1 rfl
  · rintro ⟨hd, h⟩
    constructor
    · rw [escapeUnits_escape, List.mem_cons, not_or]
      exact ⟨by simp, h.whole⟩
    · rw [escapeUnits_escape, List.mem_cons, not_or]
      exact ⟨by simpa using Ne.symm hd, h.lineFeed⟩

/-- The units are whole exactly if every backslash has its character. -/
theorem wholeUnits_iff : WholeUnits s ↔ Paired s := by
  constructor
  · intro h
    induction s using escapeUnits_induction with
    | nil => exact .nil
    | dangling => exact absurd (List.mem_singleton.2 rfl) h.whole
    | plain c r hc ih => exact .plain hc (ih ((wholeUnits_plain_iff hc).1 h))
    | escape d r ih =>
      obtain ⟨hd, hr⟩ := wholeUnits_escape_iff.1 h
      exact .escape hd (ih hr)
  · intro h
    induction h with
    | nil => exact ⟨List.not_mem_nil, List.not_mem_nil⟩
    | plain hc _ ih => exact (wholeUnits_plain_iff hc).2 ih
    | escape hd _ ih => exact wholeUnits_escape_iff.2 ⟨hd, ih⟩

end Units

/-! ### Written units -/

namespace Catalog

/-- How a unit is written in a string literal. -/
def writtenUnit (u : Text) : Text :=
  if u = ['"'] then ['\\', '"']
  else if u = ['\n'] then ['\\', 'n']
  else if u = ['\r'] then ['\\', 'r']
  else u

theorem writtenUnit_singleton (c : Char) : writtenUnit [c] = escapedChar c := by
  simp only [writtenUnit, escapedChar, List.cons.injEq, and_true]

theorem writtenUnit_escape (d : Char) : writtenUnit ['\\', d] = ['\\', d] := by
  simp [writtenUnit]

theorem escapedChar_cases (c : Char) :
    escapedChar c = [c] ∨ ∃ d, escapedChar c = ['\\', d] := by
  rw [escapedChar]
  split_ifs
  · exact Or.inr ⟨_, rfl⟩
  · exact Or.inr ⟨_, rfl⟩
  · exact Or.inr ⟨_, rfl⟩
  · exact Or.inl rfl

/-- A written character is one unit. -/
theorem escapeUnits_escapedChar {c : Char} (hc : c ≠ '\\') (r : Text) :
    escapeUnits (escapedChar c ++ r) = escapedChar c :: escapeUnits r := by
  rcases escapedChar_cases c with h | ⟨d, h⟩
  · rw [h]
    exact escapeUnits_plain hc
  · rw [h]
    exact escapeUnits_escape

theorem literalBody_escapedChar {c : Char} (hc : c ≠ '\\') (r : Text) :
    literalBody (escapedChar c ++ r) = escapedChar c ++ literalBody r := by
  rcases escapedChar_cases c with h | ⟨d, h⟩
  · rw [h, List.singleton_append, literalBody_plain hc, h]
  · rw [h]
    exact literalBody_escape d r

/-- The units between the quotes are the written units of the text. -/
theorem escapeUnits_literalBody (s : Text) :
    escapeUnits (literalBody s) = (escapeUnits s).map writtenUnit := by
  induction s using escapeUnits_induction with
  | nil => rfl
  | dangling => rfl
  | plain c r hc ih =>
    rw [literalBody_plain hc, escapeUnits_escapedChar hc, ih, escapeUnits_plain hc,
      List.map_cons, writtenUnit_singleton]
  | escape d r ih =>
    rw [literalBody_escape, escapeUnits_escape, ih, escapeUnits_escape, List.map_cons,
      writtenUnit_escape]

/-- What is written already is written the same again. -/
theorem literalBody_idem (s : Text) : literalBody (literalBody s) = literalBody s := by
  induction s using escapeUnits_induction with
  | nil => rfl
  | dangling => rfl
  | plain c r hc ih => rw [literalBody_plain hc, literalBody_escapedChar hc, ih]
  | escape d r ih => rw [literalBody_escape, literalBody_escape, ih]

/-- A text is written as a complete literal exactly if its units are whole. -/
theorem parse?_stringLiteral (s : Text) (l : Literal) :
    Literal.parse? (stringLiteral s) = some l ↔ WholeUnits s ∧
      l = ⟨.double, literalBody s⟩ := by
  have ht : stringLiteral s = Literal.toText ⟨.double, literalBody s⟩ := rfl
  rw [Literal.parse?_eq_some_iff, wholeUnits_iff, ht]
  constructor
  · rintro ⟨hl, hc⟩
    obtain rfl := Literal.toText_injective hl
    exact ⟨paired_of_quoted hc, rfl⟩
  · rintro ⟨h, rfl⟩
    exact ⟨rfl, quoted_literalBody h⟩

/-- Every text is written unit by unit, and what stands between the quotes is written the same
again. The result is one complete literal exactly if the units are whole, as they are in every
literal that was read. -/
theorem stringLiteral_units (s : Text) :
    (∃ body, stringLiteral s = '"' :: body ++ ['"'] ∧
      escapeUnits body = (escapeUnits s).map writtenUnit ∧
      (∀ l, Literal.parse? (stringLiteral s) = some l ↔ WholeUnits s ∧ l = ⟨.double, body⟩) ∧
      stringLiteral body = stringLiteral s) ∧
    ∀ raw l, Literal.parse? raw = some l → WholeUnits l.inner := by
  refine ⟨⟨literalBody s, rfl, escapeUnits_literalBody s, parse?_stringLiteral s, ?_⟩, ?_⟩
  · rw [stringLiteral, literalBody_idem, stringLiteral]
  · intro raw l h
    exact wholeUnits_iff.2 (Literal.parse?_eq_some_iff.1 h).2.paired

/-- In single quotes, double quotes may be bare; only these become escapes when the text is
written. -/
theorem stringLiteral_units_singleQuoted :
    Literal.parse? "'it\\'s \"on\"'".toList = some ⟨.single, "it\\'s \"on\"".toList⟩ ∧
      Literal.parse? (stringLiteral "it\\'s \"on\"".toList) =
        some ⟨.double, "it\\'s \\\"on\\\"".toList⟩ := by
  have hraw : Literal.parse? "'it\\'s \"on\"'".toList =
      some ⟨.single, "it\\'s \"on\"".toList⟩ := by
    decide
  have hwritten :
      stringLiteral "it\\'s \"on\"".toList = '"' :: "it\\'s \\\"on\\\"".toList ++ ['"'] := by
    decide
  obtain ⟨⟨body, hbody, -, hparse, -⟩, hwhole⟩ := stringLiteral_units "it\\'s \"on\"".toList
  obtain rfl := List.append_cancel_right (List.cons.inj (hwritten.symm.trans hbody)).2
  exact ⟨hraw, (hparse _).2 ⟨hwhole _ _ hraw, rfl⟩⟩

end Catalog

end TemplateCatalog
