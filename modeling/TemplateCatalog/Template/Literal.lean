/-
Quoted literals.

A literal opens with one of the two quotes and closes at the next quote of the same kind. A
backslash takes the character after it along, so an escaped quote does not close; a backslash
in front of a line feed, or at the end, leaves the literal open. The text between the quotes is
kept as it is written: what is taken is the literal as it was written
(`Literal.take?_eq_some`).
-/
import TemplateCatalog.Text.Blank

namespace TemplateCatalog

open Text

/-- The two kinds of quotes. -/
inductive Quote where
  | single
  | double
  deriving DecidableEq, Repr

namespace Quote

/-- The quote itself. -/
def char : Quote → Char
  | .single => '\''
  | .double => '"'

/-- The quote that a character is. -/
def ofChar? (c : Char) : Option Quote :=
  if c = '"' then some .double else if c = '\'' then some .single else none

theorem ofChar?_eq_some_iff {c : Char} {q : Quote} : ofChar? c = some q ↔ c = q.char := by
  constructor
  · intro h
    unfold ofChar? at h
    split at h
    · simp_all [← Option.some.inj h, char]
    · split at h
      · simp_all [← Option.some.inj h, char]
      · simp at h
  · rintro rfl
    cases q <;> rfl

end Quote

/-- Is the character a quote? -/
def isQuote (c : Char) : Bool := (Quote.ofChar? c).isSome

/-- Does the text start with a quote? -/
def startsWithQuote : Text → Bool
  | [] => false
  | c :: _ => isQuote c

/-- The text up to the closing quote `q`, and the text after it. -/
def untilQuote (q : Char) : Text → Option (Text × Text)
  | [] => none
  | [c] => if c = q then some ([], []) else none
  | c :: d :: r =>
    if c = q then some ([], d :: r)
    else if c = '\\' then
      if d = '\n' then none
      else (untilQuote q r).map fun (inner, after) => (c :: d :: inner, after)
    else (untilQuote q (d :: r)).map fun (inner, after) => (c :: inner, after)

theorem untilQuote_eq_some {q : Char} {s inner after : Text}
    (h : untilQuote q s = some (inner, after)) : s = inner ++ q :: after := by
  fun_induction untilQuote q s generalizing inner after with
  | case1 => simp at h
  | case2 =>
    simp only [Option.some.injEq, Prod.mk.injEq] at h
    simp [← h.1, ← h.2]
  | case3 => simp at h
  | case4 =>
    simp only [Option.some.injEq, Prod.mk.injEq] at h
    simp [← h.1, ← h.2]
  | case5 => simp at h
  | case6 d r _ _ ih =>
    obtain ⟨⟨i, a⟩, hi, hp⟩ := Option.map_eq_some_iff.1 h
    simp only [Prod.mk.injEq] at hp
    obtain ⟨rfl, rfl⟩ := hp
    simp [ih hi]
  | case7 c d r _ _ ih =>
    obtain ⟨⟨i, a⟩, hi, hp⟩ := Option.map_eq_some_iff.1 h
    simp only [Prod.mk.injEq] at hp
    obtain ⟨rfl, rfl⟩ := hp
    simp [ih hi]

/-- A quoted literal: its quote, and the text between the quotes with its escapes. -/
structure Literal where
  quote : Quote
  inner : Text
  deriving DecidableEq, Repr

namespace Literal

/-- The literal as it is written. -/
def toText (l : Literal) : Text := l.quote.char :: l.inner ++ [l.quote.char]

/-- Takes a literal off the front of a text. -/
def take? : Text → Option (Literal × Text)
  | [] => none
  | c :: r =>
    match Quote.ofChar? c with
    | none => none
    | some q => (untilQuote q.char r).map fun (inner, after) => (⟨q, inner⟩, after)

theorem take?_eq_some {s r : Text} {l : Literal} (h : take? s = some (l, r)) :
    s = l.toText ++ r := by
  unfold take? at h
  split at h
  · simp at h
  · split at h
    · simp at h
    · rename_i c t q hq
      obtain ⟨⟨i, a⟩, hi, hp⟩ := Option.map_eq_some_iff.1 h
      simp only [Prod.mk.injEq] at hp
      obtain ⟨rfl, rfl⟩ := hp
      simp [toText, Quote.ofChar?_eq_some_iff.1 hq, untilQuote_eq_some hi]

theorem take?_length {s r : Text} {l : Literal} (h : take? s = some (l, r)) :
    r.length < s.length := by
  simp [take?_eq_some h, toText]
  omega

/-- Reads a text that is exactly one literal. -/
def parse? (s : Text) : Option Literal :=
  match take? s with
  | some (l, []) => some l
  | _ => none

end Literal

end TemplateCatalog
