/-
Line ends in catalog literals.

A line end is written as `\n` or `\r`, unless a backslash takes it along (`Takes`); then it is
copied, and the literal goes on in the next line (`mem_literalBody_iff`). In the strings of a
template no backslash takes a line feed along, but one may take a carriage return along. So no
call has a line feed in it, and the calls with a carriage return are those of such strings
(`line_ends_of_extract`).
-/
import TemplateCatalog.Proofs.CatalogReading

namespace TemplateCatalog

open Text

/-! ### What backslashes take along -/

/-- Some backslash takes the character `c` along. -/
inductive Takes (c : Char) : Text → Prop
  | here (r : Text) : Takes c ('\\' :: c :: r)
  | escape {d : Char} {r : Text} (h : Takes c r) : Takes c ('\\' :: d :: r)
  | plain {d : Char} {r : Text} (hd : d ≠ '\\') (h : Takes c r) : Takes c (d :: r)

section Takes

variable {c d : Char} {r s : Text}

theorem not_takes_nil : ¬Takes c [] := nofun

theorem takes_plain_iff (hd : d ≠ '\\') : Takes c (d :: r) ↔ Takes c r := by
  constructor
  · intro h
    cases h with
    | here => exact absurd rfl hd
    | escape => exact absurd rfl hd
    | plain _ h => exact h
  · exact .plain hd

theorem takes_escape_iff : Takes c ('\\' :: d :: r) ↔ c = d ∨ Takes c r := by
  constructor
  · intro h
    cases h with
    | here => exact Or.inl rfl
    | escape h => exact Or.inr h
    | plain hd => exact absurd rfl hd
  · rintro (rfl | h)
    · exact .here r
    · exact .escape h

/-- What is taken along stands behind a backslash. -/
theorem infix_of_takes (h : Takes c s) : ['\\', c] <:+: s := by
  induction h with
  | here r => exact ⟨[], r, rfl⟩
  | escape _ ih =>
    exact (ih.trans (List.suffix_cons _ _).isInfix).trans (List.suffix_cons _ _).isInfix
  | plain _ _ ih => exact ih.trans (List.suffix_cons _ _).isInfix

theorem Paired.not_takes (h : Paired s) : ¬Takes '\n' s := by
  induction h with
  | nil => exact not_takes_nil
  | plain hd _ ih => rwa [takes_plain_iff hd]
  | escape hd _ ih => exact fun h => (takes_escape_iff.1 h).elim (Ne.symm hd) ih

end Takes

namespace Catalog

/-! ### Literals -/

/-- A character that ends a line, in one convention or another. -/
def IsLineEnd (c : Char) : Prop := c = '\n' ∨ c = '\r'

theorem IsLineEnd.not_mem {c : Char} (h : IsLineEnd c) {s : Text} (hn : '\n' ∉ s)
    (hr : '\r' ∉ s) : c ∉ s := by
  rcases h with rfl | rfl
  · exact hn
  · exact hr

theorem IsLineEnd.not_mem_escapedChar {c : Char} (h : IsLineEnd c) (d : Char) :
    c ∉ escapedChar d := by
  refine h.not_mem (TemplateCatalog.Catalog.not_mem_escapedChar d) ?_
  rw [escapedChar]
  split_ifs with hq hn hr
  · decide
  · decide
  · decide
  · simpa using Ne.symm hr

/-- A literal has a line end in it exactly if a backslash of the text takes one along. -/
theorem mem_literalBody_iff {c : Char} (hc : IsLineEnd c) :
    ∀ s : Text, c ∈ literalBody s ↔ Takes c s
  | [] => iff_of_false List.not_mem_nil not_takes_nil
  | d :: r => by
    by_cases hd : d = '\\'
    · subst hd
      have hb : c ≠ '\\' := by
        rintro rfl
        rcases hc with h | h <;> cases h
      cases r with
      | nil =>
        refine iff_of_false (mt List.mem_singleton.1 hb) fun h => ?_
        cases h with
        | plain hd => exact hd rfl
      | cons e r =>
        -- Behind a backslash a line end is copied as it is.
        rw [literalBody_escape, List.mem_cons, or_iff_right hb, List.mem_cons,
          mem_literalBody_iff hc r, takes_escape_iff]
    · rw [literalBody_plain hd, List.mem_append, or_iff_right (hc.not_mem_escapedChar d),
        mem_literalBody_iff hc r, takes_plain_iff hd]

theorem mem_stringLiteral_iff {c : Char} (hc : IsLineEnd c) (s : Text) :
    c ∈ stringLiteral s ↔ Takes c s := by
  have hq : c ∉ ['"'] := hc.not_mem (by decide) (by decide)
  rw [stringLiteral, List.mem_append, or_iff_left hq, List.mem_cons,
    or_iff_right (mt List.mem_singleton.2 hq), mem_literalBody_iff hc]

/-! ### Calls -/

theorem mem_call_iff {c : Char} (hc : IsLineEnd c) {function : Text} (hf : c ∉ function)
    (arguments : List Text) : c ∈ call function arguments ↔ ∃ a ∈ arguments, c ∈ a := by
  have hsep : c ∉ ", ".toList := hc.not_mem (by decide) (by decide)
  have hopen : c ∉ ['('] := hc.not_mem (by decide) (by decide)
  have hclose : c ∉ ");".toList := hc.not_mem (by decide) (by decide)
  rw [call, List.mem_append, or_iff_left hclose, List.mem_append, or_iff_right hf,
    List.mem_cons, or_iff_right (mt List.mem_singleton.2 hopen), mem_intercalate_iff hsep]

/-- The parts of an entry. -/
def parts (e : Entry) : List Text := [e.message, e.context, e.plural]

/-- The literal of a part that may be left out has a line end only if the part is given. -/
theorem given_and_takes_iff {c : Char} {given : Bool} {s : Text} (h : given = false → s = []) :
    (given = true ∧ Takes c s) ↔ Takes c s := by
  cases given with
  | true => exact and_iff_right rfl
  | false => exact iff_of_false (fun h => Bool.false_ne_true h.1) (h rfl ▸ not_takes_nil)

theorem mem_gettextCall_iff {c : Char} (hc : IsLineEnd c) (e : Entry) :
    c ∈ gettextCall e ↔ ∃ s ∈ parts e, Takes c s := by
  have hf : c ∉ gettextFunction e := by
    rw [gettextFunction]
    cases e.hasContext <;> cases e.hasPlural <;> exact hc.not_mem (by decide) (by decide)
  have harguments : (∃ a ∈ gettextArguments e, c ∈ a) ↔
      (e.hasContext = true ∧ Takes c e.context) ∨ Takes c e.message ∨
        (e.hasPlural = true ∧ Takes c e.plural) := by
    rw [gettextArguments]
    cases e.hasContext <;> cases e.hasPlural <;> simp [mem_stringLiteral_iff hc]
  rw [gettextCall, mem_call_iff hc hf, harguments, given_and_takes_iff context_eq_nil,
    given_and_takes_iff plural_eq_nil, or_left_comm]
  simp [parts]

theorem mem_linguistCall_iff {c : Char} (hc : IsLineEnd c) (origin : Text) (e : Entry) :
    c ∈ linguistCall origin e ↔ Takes c origin ∨ Takes c e.message ∨ Takes c e.context := by
  have hf : c ∉ "QCoreApplication::translate".toList := hc.not_mem (by decide) (by decide)
  have hcount : c ∉ "count".toList := hc.not_mem (by decide) (by decide)
  have hcontext : e.hasContext = false → ¬Takes c e.context :=
    fun h => context_eq_nil h ▸ not_takes_nil
  rw [linguistCall, mem_call_iff hc hf, linguistArguments]
  generalize "count".toList = count at hcount ⊢
  cases hx : e.hasContext <;> cases e.hasPlural <;>
    simp [mem_stringLiteral_iff hc, hcount, hcontext, hx]

/-- A Linguist call has its line feeds from the origin. -/
theorem feed_mem_linguistCall_iff {e : Entry} (h : e.Paired) (origin : Text) :
    '\n' ∈ linguistCall origin e ↔ Takes '\n' origin := by
  rw [mem_linguistCall_iff (Or.inl rfl), or_iff_left]
  exact not_or.2 ⟨h.message.not_takes, h.context.not_takes⟩

/-! ### Extracted strings -/

/-- **Line ends in the catalogs of a template.** No literal and no gettext call has a line feed
in it. A carriage return is in a literal if a backslash of the string takes it along, and only
then; it is in a call if it is in one of its literals. A Linguist call may have line ends from
its origin as well. -/
theorem line_ends_of_extract {template : Text} {x : Extraction}
    (hx : extract template = .ok x) : ∀ e ∈ entries x,
      (∀ s ∈ parts e, '\n' ∉ stringLiteral s ∧ ('\r' ∈ stringLiteral s ↔ Takes '\r' s)) ∧
      '\n' ∉ gettextCall e ∧ ('\r' ∈ gettextCall e ↔ ∃ s ∈ parts e, Takes '\r' s) ∧
      ∀ origin,
        ('\n' ∈ linguistCall origin e ↔ Takes '\n' origin) ∧
        ('\r' ∈ linguistCall origin e ↔
          Takes '\r' origin ∨ Takes '\r' e.message ∨ Takes '\r' e.context) := by
  intro e he
  have hpaired := paired_of_mem_entries hx e he
  have hfeed : ∀ s ∈ parts e, ¬Takes '\n' s := by
    simpa [parts] using ⟨hpaired.message.not_takes, hpaired.context.not_takes,
      hpaired.plural.not_takes⟩
  refine ⟨fun s hs => ⟨?_, mem_stringLiteral_iff (Or.inr rfl) s⟩, ?_,
    mem_gettextCall_iff (Or.inr rfl) e,
    fun origin =>
      ⟨feed_mem_linguistCall_iff hpaired origin, mem_linguistCall_iff (Or.inr rfl) origin e⟩⟩
  · rw [mem_stringLiteral_iff (Or.inl rfl)]
    exact hfeed s hs
  · rw [mem_gettextCall_iff (Or.inl rfl)]
    exact fun ⟨s, hs, h⟩ => hfeed s hs h

/-- A line end of two characters in a message: both are written as escapes. -/
theorem line_ends_of_extract_crlf :
    extract "\x7b\x7b _(\"a\r\nb\") \x7d\x7d".toList = .ok ⟨["a\r\nb".toList], [], []⟩ ∧
      '\n' ∉ stringLiteral "a\r\nb".toList ∧ '\r' ∉ stringLiteral "a\r\nb".toList := by
  have hx : extract "\x7b\x7b _(\"a\r\nb\") \x7d\x7d".toList =
      .ok ⟨["a\r\nb".toList], [], []⟩ := by
    decide +kernel
  obtain ⟨hliterals, -⟩ :=
    line_ends_of_extract hx { message := "a\r\nb".toList } (by simp [entries])
  obtain ⟨hn, hr⟩ := hliterals "a\r\nb".toList (by simp [parts])
  refine ⟨hx, hn, fun h => ?_⟩
  exact absurd (infix_of_takes (hr.1 h)) (by decide)

/-- With a backslash in front of it the carriage return is copied. -/
theorem line_ends_of_extract_continuedLine :
    extract "\x7b\x7b _(\"a\\\r\nb\") \x7d\x7d".toList = .ok ⟨["a\\\r\nb".toList], [], []⟩ ∧
      '\r' ∈ stringLiteral "a\\\r\nb".toList ∧
      '\r' ∈ gettextCall { message := "a\\\r\nb".toList } := by
  refine ⟨?_, by decide, by decide⟩
  decide +kernel

end Catalog

end TemplateCatalog
