/-
Extracted strings, and the string literals that they are written as.

Extracted strings stood between quotes, so every backslash in them takes a character along that
is no line feed (`paired_of_extract`). For such texts `stringLiteral` is a complete literal
without a line feed:

* `quoted_literalBody` — no double quote ends the literal early, and no backslash takes the
  last one along;
* `not_mem_literalBody` — the body has no line feed;
* `literalBody_eq_nil_iff` — the body is empty exactly for the empty text, so an absent part is
  told from a given one.
-/
import TemplateCatalog.Catalog.StringLiteral
import TemplateCatalog.Proofs.Capture

namespace TemplateCatalog

open Text

/-! ### The parts of entries -/

/-- All parts of the entry are paired. -/
structure Entry.Paired (e : Entry) : Prop where
  message : TemplateCatalog.Paired e.message
  context : TemplateCatalog.Paired e.context
  plural : TemplateCatalog.Paired e.plural

theorem Entry.Paired.set {e : Entry} (h : e.Paired) {text : Text}
    (ht : TemplateCatalog.Paired text) (s : Slot) : (e.set s text).Paired := by
  cases s with
  | context => exact ⟨h.message, ht, h.plural⟩
  | message => exact ⟨ht, h.context, h.plural⟩
  | plural => exact ⟨h.message, h.context, ht⟩

theorem Literal.Complete.paired {l : Literal} (h : l.Complete) : Paired l.inner :=
  Quoted.paired h

theorem paired_of_fillSlots {size : Nat} {e e' : Entry} {ss : List Slot}
    {fs rest : List Fragment} (h : fillSlots size e ss fs = .ok (e', rest)) (he : e.Paired) :
    e'.Paired := by
  induction ss generalizing e fs with
  | nil =>
    rw [fillSlots, Except.ok.injEq, Prod.mk.injEq] at h
    rwa [← h.1]
  | cons s ss ih =>
    cases fs with
    | nil => exact absurd h (by simp [fillSlots])
    | cons f fs =>
      rw [fillSlots] at h
      split at h
      · exact absurd h (by simp)
      · rename_i l hl
        exact ih h (he.set (Literal.parse?_eq_some_iff.1 hl).2.paired s)

theorem paired_of_ofContents {contents : Text} {e : Entry} {arguments : List Fragment}
    (h : TagMatch.ofContents contents = .i18n e arguments) : e.Paired := by
  unfold TagMatch.ofContents TagMatch.ofFragments at h
  split at h
  · exact absurd h (by simp)
  · split at h
    · exact absurd h (by simp)
    · split at h
      · exact absurd h (by simp)
      · rename_i hfill
        simp only [TagMatch.i18n.injEq] at h
        rw [← h.1]
        exact paired_of_fillSlots hfill ⟨.nil, .nil, .nil⟩

theorem Token.paired_of_entry? {t : Token} {e : Entry} (h : t.entry? = some e) : e.Paired := by
  rw [Token.entry?, Token.tagMatch] at h
  split at h
  · rename_i hm
    obtain rfl := Option.some.inj h
    split at hm
    · exact paired_of_ofContents hm
    · exact absurd hm (by simp)
  · exact absurd h (by simp)

/-! ### Extracted strings -/

/-- A plain string is the text of the literal at its call site. -/
theorem paired_of_gives {sites : List CallSite} {ps : List Text}
    (h : List.Forall₂ CallSite.Gives sites ps) : ∀ s ∈ ps, Paired s := by
  induction h with
  | nil => simp
  | cons hg _ ih =>
    obtain ⟨l, ⟨r, hl⟩, rfl⟩ := hg
    intro s hs
    rcases List.mem_cons.1 hs with rfl | hs
    · exact (Literal.take?_eq_some_iff.1 hl).2.paired
    · exact ih s hs

/-- All strings of an extraction are paired. -/
theorem paired_of_extract {template : Text} {x : Extraction} (h : extract template = .ok x) :
    (∀ s ∈ x.plain, Paired s) ∧ ∀ e ∈ x.contextual, e.Paired := by
  -- Both kinds of strings come from literals that were read as complete.
  obtain ⟨hc, -, hp⟩ := captures_of_extractTokens (extractTokens_of_extract h)
  constructor
  · intro s hs
    exact paired_of_gives hp s hs
  · intro e he
    rw [hc, List.mem_filterMap] at he
    obtain ⟨t, -, ht⟩ := he
    exact t.paired_of_entry? ht

namespace Catalog

/-! ### The bodies of string literals -/

theorem literalBody_escape (d : Char) (s : Text) :
    literalBody ('\\' :: d :: s) = '\\' :: d :: literalBody s := by
  simp [literalBody]

/-- How a character is written that no backslash takes along. -/
def escapedChar (c : Char) : Text :=
  if c = '"' then ['\\', '"']
  else if c = '\n' then ['\\', 'n']
  else if c = '\r' then ['\\', 'r']
  else [c]

theorem literalBody_plain {c : Char} (hc : c ≠ '\\') (s : Text) :
    literalBody (c :: s) = escapedChar c ++ literalBody s := by
  cases s with
  | nil => simp [literalBody, escapedChar, hc]
  | cons d s =>
    rw [literalBody, if_neg hc, escapedChar]
    split
    · rfl
    · split
      · rfl
      · split <;> rfl

theorem escapedChar_ne_nil (c : Char) : escapedChar c ≠ [] := by
  rw [escapedChar]
  repeat' split
  all_goals simp

theorem not_mem_escapedChar (c : Char) : '\n' ∉ escapedChar c := by
  rw [escapedChar]
  split
  · decide
  · split
    · decide
    · split
      · decide
      · rename_i hn _
        simpa using Ne.symm hn

theorem quoted_escapedChar_append {c : Char} (hc : c ≠ '\\') {r : Text} (h : Quoted '"' r) :
    Quoted '"' (escapedChar c ++ r) := by
  rw [escapedChar]
  split
  · exact .escape (by decide) h
  · rename_i hq
    split
    · exact .escape (by decide) h
    · split
      · exact .escape (by decide) h
      · exact .plain hq hc h

/-- No quote ends the literal of a paired text early. -/
theorem quoted_literalBody {s : Text} (h : Paired s) : Quoted '"' (literalBody s) := by
  induction h with
  | nil => exact .nil
  | plain hc _ ih =>
    rw [literalBody_plain hc]
    exact quoted_escapedChar_append hc ih
  | escape hd _ ih =>
    rw [literalBody_escape]
    exact .escape hd ih

theorem not_mem_literalBody {s : Text} (h : Paired s) : '\n' ∉ literalBody s := by
  induction h with
  | nil => simp [literalBody]
  | @plain c s hc _ ih =>
    rw [literalBody_plain hc, List.mem_append, not_or]
    exact ⟨not_mem_escapedChar c, ih⟩
  | @escape d s hd _ ih =>
    rw [literalBody_escape, List.mem_cons, List.mem_cons, not_or, not_or]
    exact ⟨by decide, Ne.symm hd, ih⟩

theorem literalBody_eq_nil_iff {s : Text} (h : Paired s) : literalBody s = [] ↔ s = [] := by
  cases h with
  | nil => simp [literalBody]
  | @plain c s hc _ => simp [literalBody_plain hc, escapedChar_ne_nil]
  | escape => simp [literalBody_escape]

end Catalog

end TemplateCatalog
