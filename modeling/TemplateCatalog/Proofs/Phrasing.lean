/-
Texts that are one fragment, and fragments joined by blanks.

A text is phrased if it is made of complete literals and of other characters that are neither
blanks nor quotes (`Phrased`). The splitter takes a phrased text off whole, whatever blanks
follow it, so it undoes joining:

* `takeFragment_phrased` — a phrased text in front of a blank is one fragment;
* `splitFragments_joined` — what is split are the texts that were joined;
* `trim_padded` — blanks around a text are trimmed off again.
-/
import TemplateCatalog.Proofs.CharacterClasses
import TemplateCatalog.Proofs.FragmentLayout
import TemplateCatalog.Proofs.Quotation

namespace TemplateCatalog

open Text

/-! ### Phrased texts -/

/-- The text is made of complete literals and of characters with the property `p`. -/
inductive Phrased (p : Char → Prop) : Text → Prop
  | nil : Phrased p []
  | bare {c s} : p c → Phrased p s → Phrased p (c :: s)
  | literal {l s} : Literal.Complete l → Phrased p s → Phrased p (l.toText ++ s)

namespace Phrased

variable {p : Char → Prop} {s t : Text}

theorem append (h : Phrased p s) (ht : Phrased p t) : Phrased p (s ++ t) := by
  induction h with
  | nil => exact ht
  | bare hc _ ih => exact .bare hc ih
  | literal hl _ ih =>
    rw [List.append_assoc]
    exact .literal hl ih

theorem mono {q : Char → Prop} (h : Phrased p s) (hq : ∀ c, p c → q c) : Phrased q s := by
  induction h with
  | nil => exact .nil
  | bare hc _ ih => exact .bare (hq _ hc) ih
  | literal hl _ ih => exact .literal hl ih

theorem of_forall (h : ∀ c ∈ s, p c) : Phrased p s := by
  induction s with
  | nil => exact .nil
  | cons c s ih =>
    exact .bare (h c (List.mem_cons_self ..)) (ih fun d hd => h d (List.mem_cons_of_mem _ hd))

theorem of_literal {l : Literal} (h : l.Complete) : Phrased p l.toText := by
  rw [← List.append_nil l.toText]
  exact .literal h .nil

/-- In front stands a character with the property, or a quote. -/
theorem head? (h : Phrased p s) : ∀ c ∈ s.head?, p c ∨ isQuote c = true := by
  cases h with
  | nil => simp
  | bare hd _ =>
    intro c hc
    obtain rfl := Option.some.inj hc
    exact Or.inl hd
  | @literal l s _ _ =>
    intro c hc
    obtain rfl := Option.some.inj hc
    exact Or.inr l.quote.isQuote_char

theorem getLast? (h : Phrased p s) : ∀ c ∈ s.getLast?, p c ∨ isQuote c = true := by
  induction h with
  | nil => simp
  | @bare d s hd _ ih =>
    intro c hc
    cases s with
    | nil =>
      rw [List.getLast?_singleton] at hc
      obtain rfl := Option.some.inj hc
      exact Or.inl hd
    | cons e s => exact ih c (by simpa [List.getLast?_cons_cons] using hc)
  | @literal l s hl _ ih =>
    intro c hc
    cases s with
    | nil =>
      -- A literal ends in its quote.
      have he : l.toText ++ [] = (l.quote.char :: l.inner) ++ [l.quote.char] := by
        simp [Literal.toText]
      rw [he, List.getLast?_append] at hc
      obtain rfl := Option.some.inj hc
      exact Or.inr l.quote.isQuote_char
    | cons e s =>
      rw [List.getLast?_append, List.getLast?_cons] at hc
      refine ih c ?_
      rw [List.getLast?_cons]
      exact hc

end Phrased

/-! ### Taking a phrased text off -/

theorem isBlank_of_isQuote {c : Char} (h : isQuote c = true) : isBlank c = false := by
  obtain ⟨q, hq⟩ := Option.isSome_iff_exists.1 h
  rw [Quote.ofChar?_eq_some_iff] at hq
  subst hq
  cases q <;> decide

theorem isBare_of_isQuote {c : Char} (h : isQuote c = true) : isBare c = false := by
  simp [isBare, h]

theorem isQuote_of_isBlank {c : Char} (h : isBlank c = true) : isQuote c = false := by
  rw [Bool.eq_false_iff]
  intro hq
  rw [isBlank_of_isQuote hq] at h
  exact absurd h (by simp)

/-- A blank stands in front, or nothing. -/
def StartsBlank (r : Text) : Prop := ∀ c ∈ r.head?, isBlank c = true

theorem StartsBlank.not_isBare {r : Text} (h : StartsBlank r) :
    ∀ c ∈ r.head?, isBare c = false :=
  fun c hc => isBare_of_isBlank (h c hc)

theorem take?_of_startsBlank {r : Text} (h : StartsBlank r) : Literal.take? r = none := by
  cases r with
  | nil => rfl
  | cons c r => exact Literal.take?_of_not_isQuote (isQuote_of_isBlank (h c rfl))

theorem takePhrases_of_none {s : Text} (h : Literal.take? s = none) :
    takePhrases s = ([], s) := by
  rw [takePhrases]
  split
  · rfl
  · rename_i hs
    rw [h] at hs
    exact absurd hs (by simp)

theorem takePhrases_of_some {s r : Text} {l : Literal} (h : Literal.take? s = some (l, r)) :
    takePhrases s = (l.toText ++ r.takeWhile isBare ++ (takePhrases (r.dropWhile isBare)).1,
      (takePhrases (r.dropWhile isBare)).2) := by
  rw [takePhrases]
  split
  · rename_i hs
    rw [h] at hs
    exact absurd hs (by simp)
  · rename_i hs
    rw [h, Option.some.injEq, Prod.mk.injEq] at hs
    rw [← hs.1, ← hs.2]

/-- From its first literal on, a phrased text is a run of phrases. -/
theorem takePhrases_phrased {s r : Text} (h : Phrased (isBare ·) s) (hr : StartsBlank r) :
    takePhrases ((s ++ r).dropWhile isBare) = (s.dropWhile isBare, r) := by
  induction h with
  | nil =>
    have hd : r.dropWhile isBare = r := dropWhile_append_of_stop (s := []) hr.not_isBare
    rw [List.nil_append, hd, takePhrases_of_none (take?_of_startsBlank hr)]
    rfl
  | bare hc _ ih =>
    rw [List.cons_append, List.dropWhile_cons_of_pos hc, List.dropWhile_cons_of_pos hc]
    exact ih
  | @literal l s hl _ ih =>
    -- The literal is taken, and the bare run behind it ends at the blank of `r` at the latest.
    have hq : isBare l.quote.char ≠ true := by
      rw [isBare_of_isQuote l.quote.isQuote_char]
      simp
    have hd (u : Text) : (l.toText ++ u).dropWhile isBare = l.toText ++ u :=
      List.dropWhile_cons_of_neg hq
    rw [List.append_assoc, hd, hd,
      takePhrases_of_some (Literal.take?_toText_append hl (s ++ r)), ih,
      takeWhile_append_of_stop hr.not_isBare, List.append_assoc,
      List.takeWhile_append_dropWhile]

/-- A phrased text in front of a blank is one fragment. -/
theorem takeFragment_phrased {s r : Text} (h : Phrased (isBare ·) s) (hr : StartsBlank r) :
    takeFragment (s ++ r) = (s, r) := by
  have hs := List.takeWhile_append_dropWhile (p := isBare) (l := s)
  rw [takeFragment]
  rw [takePhrases_phrased h hr, takeWhile_append_of_stop hr.not_isBare]
  cases hd : s.dropWhile isBare with
  | nil =>
    -- Without a literal the fragment is the run up to the blank.
    have hbare : ∀ c ∈ s, (!isBlank c) = true := by
      intro c hc
      rw [isBlank_of_isBare (List.dropWhile_eq_nil_iff.1 hd c hc)]
      rfl
    have hstop : ∀ c ∈ r.head?, (!isBlank c) = false := by
      intro c hc
      rw [hr c hc]
      rfl
    show ((s ++ r).takeWhile (!isBlank ·), (s ++ r).dropWhile (!isBlank ·)) = (s, r)
    rw [takeWhile_append_of_stop hstop, dropWhile_append_of_stop hstop,
      List.takeWhile_eq_self_iff.2 hbare, List.dropWhile_eq_nil_iff.2 hbare, List.nil_append]
  | cons c u =>
    show (s.takeWhile isBare ++ (c :: u), r) = (s, r)
    rw [← hd, hs]

/-! ### Joining -/

/-- A run of blanks that is not empty. -/
structure Gap where
  text : Text
  nonempty : text ≠ []
  blank : ∀ c ∈ text, isBlank c = true

/-- One blank. -/
def Gap.single : Gap := ⟨[' '], by decide, List.all_eq_true.1 (by decide)⟩

/-- A phrased text that is not empty. -/
structure Phrase where
  text : Text
  nonempty : text ≠ []
  phrased : Phrased (isBare ·) text

theorem Gap.startsBlank (g : Gap) (r : Text) : StartsBlank (g.text ++ r) := by
  intro c hc
  rw [List.head?_append_of_ne_nil _ g.nonempty] at hc
  exact g.blank c (List.mem_of_mem_head? hc)

theorem isBlank_of_isBare_or_isQuote {c : Char} (h : isBare c = true ∨ isQuote c = true) :
    isBlank c = false := by
  rcases h with h | h
  · exact isBlank_of_isBare h
  · exact isBlank_of_isQuote h

theorem Phrase.head? (w : Phrase) (r : Text) :
    ∀ c ∈ (w.text ++ r).head?, isBlank c = false := by
  intro c hc
  rw [List.head?_append_of_ne_nil _ w.nonempty] at hc
  exact isBlank_of_isBare_or_isQuote (w.phrased.head? c hc)

theorem Phrase.getLast? (w : Phrase) : ∀ c ∈ w.text.getLast?, isBlank c = false :=
  fun c hc => isBlank_of_isBare_or_isQuote (w.phrased.getLast? c hc)

/-- Phrases in a row, each with its gap in front. -/
def joined (ws : List (Gap × Phrase)) : Text := ws.flatMap fun w => w.1.text ++ w.2.text

theorem joined_nil : joined [] = [] := rfl

theorem joined_cons (g : Gap) (w : Phrase) (ws : List (Gap × Phrase)) :
    joined ((g, w) :: ws) = g.text ++ (w.text ++ joined ws) := by
  simp [joined]

theorem startsBlank_joined (ws : List (Gap × Phrase)) : StartsBlank (joined ws) := by
  cases ws with
  | nil => simp [StartsBlank, joined_nil]
  | cons w ws =>
    obtain ⟨g, w⟩ := w
    rw [joined_cons]
    exact g.startsBlank _

/-- The splitter passes over the blanks in front and takes the phrase off. -/
theorem Splitter.next?_phrase {front r : Text} (hf : ∀ c ∈ front, isBlank c = true)
    (w : Phrase) (hr : StartsBlank r) (o : Nat) : ∃ o' o'',
      next? ⟨o, front ++ (w.text ++ r)⟩ = some (⟨o', w.text⟩, ⟨o'', r⟩) := by
  -- The blanks in front end where the phrase starts.
  have hfront : trimStart (front ++ (w.text ++ r)) = w.text ++ r := by
    rw [trimStart, dropWhile_append_of_stop (w.head? r), List.dropWhile_eq_nil_iff.2 hf,
      List.nil_append]
  have htake := takeFragment_phrased w.phrased hr
  cases hw : w.text ++ r with
  | nil => exact absurd (List.append_eq_nil_iff.1 hw).1 w.nonempty
  | cons c u =>
    rw [hw] at hfront htake
    rw [next?]
    simp only [hfront, htake]
    exact ⟨_, _, rfl⟩

theorem Splitter.fragments_joined (ws : List (Gap × Phrase)) (o : Nat) :
    (fragments ⟨o, joined ws⟩).map Fragment.text = ws.map (·.2.text) := by
  induction ws generalizing o with
  | nil =>
    rw [fragments_of_none (next?_eq_none_iff.2 (by simp [joined_nil]))]
    rfl
  | cons w ws ih =>
    obtain ⟨g, w⟩ := w
    obtain ⟨o', o'', h⟩ := next?_phrase g.blank w (startsBlank_joined ws) o
    rw [joined_cons, fragments_of_some h, List.map_cons, List.map_cons, ih]

/-- Splitting a name with phrases after it gives the name and the phrases. -/
theorem splitFragments_joined (name : Phrase) (ws : List (Gap × Phrase)) :
    (splitFragments (name.text ++ joined ws)).map Fragment.text =
      name.text :: ws.map (·.2.text) := by
  have hnil : ∀ c ∈ ([] : Text), isBlank c = true := by simp
  obtain ⟨o', o'', h⟩ := Splitter.next?_phrase hnil name (startsBlank_joined ws) 0
  rw [List.nil_append] at h
  rw [splitFragments, Splitter.start, Splitter.fragments_of_some h, List.map_cons,
    Splitter.fragments_joined]

/-! ### Trimming -/

theorem trim_padded {front u back : Text} (hf : ∀ c ∈ front, isBlank c = true)
    (hb : ∀ c ∈ back, isBlank c = true) (hu : u ≠ [])
    (hhead : ∀ c ∈ u.head?, isBlank c = false)
    (hlast : ∀ c ∈ u.getLast?, isBlank c = false) :
    trim (front ++ (u ++ back)) = u := by
  have hh : ∀ c ∈ (u ++ back).head?, isBlank c = false := by
    rwa [List.head?_append_of_ne_nil _ hu]
  have hl : ∀ c ∈ u.reverse.head?, isBlank c = false := by
    rwa [List.head?_reverse]
  rw [trim, trimStart, dropWhile_append_of_stop hh, List.dropWhile_eq_nil_iff.2 hf,
    List.nil_append, trimEnd, List.reverse_append, dropWhile_append_of_stop hl,
    List.dropWhile_eq_nil_iff.2, List.nil_append, List.reverse_reverse]
  simpa using hb

theorem joined_getLast? {s : Text} (hs : ∀ c ∈ s.getLast?, isBlank c = false)
    (ws : List (Gap × Phrase)) : ∀ c ∈ (s ++ joined ws).getLast?, isBlank c = false := by
  induction ws generalizing s with
  | nil => simpa [joined_nil] using hs
  | cons w ws ih =>
    obtain ⟨g, w⟩ := w
    rw [joined_cons, ← List.append_assoc, ← List.append_assoc]
    refine ih ?_
    intro c hc
    rw [List.getLast?_append_of_ne_nil _ w.nonempty] at hc
    exact w.getLast? c hc

end TemplateCatalog
