/-
Fragments with blanks between them.

Texts are spaced out if they stand one after another with blanks between each two of them, and
perhaps around them (`IsSpacedOut`). Phrased texts are cut apart again where they were spaced
out, and nowhere else (`map_splitFragments_eq_iff`): a phrased text ends at the blank behind
it, whatever its literals hold, and two of them without a blank between them would be one
fragment.

What is written in tags is phrased (`IsTagText.phrased`). The main result,
`fragments_and_values_recovered`, says that splitting gives back any list of such texts, that
no keyword is split off an accepted expression, and that the expression behind a keyword is
given back as it is.
-/
import TemplateCatalog.Proofs.Printing

namespace TemplateCatalog

open Text

/-! ### Spaced texts -/

/-- The texts stand one after another, each with the blanks behind it; only the last may have
none. -/
inductive Spaced : List Text → Text → Prop
  | nil : Spaced [] []
  | cons {f gap s fs} : (∀ c ∈ gap, isBlank c = true) → (fs ≠ [] → gap ≠ []) → Spaced fs s →
      Spaced (f :: fs) (f ++ (gap ++ s))

/-- The texts are spaced out to a text: there may be blanks in front of them, too. -/
def IsSpacedOut (fs : List Text) (s : Text) : Prop :=
  ∃ front r, (∀ c ∈ front, isBlank c = true) ∧ s = front ++ r ∧ Spaced fs r

/-- Behind each text a blank stands, or nothing. -/
theorem Spaced.startsBlank {f r : Text} {fs : List Text} (h : Spaced (f :: fs) r) :
    ∃ rest, r = f ++ rest ∧ StartsBlank rest := by
  cases h with
  | @cons _ gap s _ hgap hne hs =>
    refine ⟨gap ++ s, rfl, ?_⟩
    cases gap with
    | nil =>
      have hfs : fs = [] := by
        by_contra hfs
        exact hne hfs rfl
      subst hfs
      cases hs
      exact fun c hc => nomatch hc
    | cons c gap => exact Gap.startsBlank ⟨c :: gap, List.cons_ne_nil c gap, hgap⟩ s

/-! ### Splitting spaced texts -/

namespace Splitter

/-- The splitter passes over the blanks in front, and takes each text off up to the blanks
behind it. -/
theorem fragments_of_spaced {fs : List Text} {r front : Text} (h : Spaced fs r)
    (hfs : ∀ f ∈ fs, f ≠ [] ∧ Phrased (isBare ·) f) (hfront : ∀ c ∈ front, isBlank c = true)
    (o : Nat) : (fragments ⟨o, front ++ r⟩).map Fragment.text = fs := by
  induction h generalizing front o with
  | nil =>
    rw [List.append_nil, fragments_of_none (next?_eq_none_iff.2 hfront)]
    rfl
  | @cons f gap s fs hgap hne hs ih =>
    obtain ⟨⟨hf, hphrased⟩, hfs⟩ := List.forall_mem_cons.1 hfs
    obtain ⟨rest, hrest, hblank⟩ := (Spaced.cons (f := f) hgap hne hs).startsBlank
    obtain rfl := List.append_cancel_left hrest
    obtain ⟨o', o'', hnext⟩ := next?_phrase hfront ⟨f, hf, hphrased⟩ hblank o
    rw [fragments_of_some hnext, List.map_cons, ih hfs hgap]

/-- Fragments that are phrased are spaced out in the text that they were taken off. -/
theorem isSpacedOut_fragments (p : Splitter)
    (hfs : ∀ f ∈ p.fragments.map Fragment.text, f ≠ [] ∧ Phrased (isBare ·) f) :
    IsSpacedOut (p.fragments.map Fragment.text) p.rest := by
  fun_induction fragments p with
  | case1 p hn => exact ⟨p.rest, [], next?_eq_none_iff.1 hn, (List.append_nil _).symm, .nil⟩
  | case2 p f p' hn ih =>
    obtain ⟨⟨hf, hphrased⟩, hfs⟩ := List.forall_mem_cons.1 hfs
    obtain ⟨gap, s, hgap, hrest, hs⟩ := ih hfs
    obtain ⟨front, hfront, hblank, -, -, -⟩ := next?_spec hn
    rw [hrest] at hfront
    refine ⟨front, f.text ++ (gap ++ s), hblank, hfront, .cons hgap ?_ hs⟩
    rintro hmore rfl
    -- Two phrased texts that touch are phrased together, and would have been taken off as one.
    obtain ⟨g, gs, hg⟩ := List.exists_cons_of_ne_nil hmore
    rw [hg] at hfs hs
    obtain ⟨hgne, hgphrased⟩ := hfs g List.mem_cons_self
    obtain ⟨rest, rfl, hstarts⟩ := hs.startsBlank
    obtain ⟨o', o'', hnext⟩ :=
      next?_phrase hblank ⟨f.text ++ g, by simp [hf], hphrased.append hgphrased⟩ hstarts
      p.offset
    rw [List.append_assoc, ← List.nil_append (g ++ rest), ← hfront, hn] at hnext
    have htext : f.text = f.text ++ g := congrArg (·.1.text) (Option.some.inj hnext)
    exact hgne (List.self_eq_append_right.1 htext)

end Splitter

/-- Phrased texts are what a text splits into exactly if they are spaced out to it. -/
theorem map_splitFragments_eq_iff {fs : List Text} {s : Text}
    (hfs : ∀ f ∈ fs, f ≠ [] ∧ Phrased (isBare ·) f) :
    (splitFragments s).map Fragment.text = fs ↔ IsSpacedOut fs s := by
  constructor
  · rintro rfl
    exact (Splitter.start s).isSpacedOut_fragments hfs
  · rintro ⟨front, r, hfront, rfl, hr⟩
    exact Splitter.fragments_of_spaced hr hfs hfront 0

/-! ### What is written in tags -/

/-- The texts that tags are made of: expressions, expressions behind a keyword, and words. -/
inductive IsTagText : Text → Prop
  | expression (e : Formula) : IsTagText e.text
  | keyword {name : Text} (isName : IsName name) (value : Formula) :
      IsTagText (name ++ '=' :: value.text)
  | word (w : Word) : IsTagText w.text

theorem IsTagText.phrased {f : Text} (h : IsTagText f) : f ≠ [] ∧ Phrased (isBare ·) f := by
  cases h with
  | expression e => exact ⟨e.nonempty, e.phrase.phrased⟩
  | @keyword name isName value =>
    exact ⟨List.append_ne_nil_of_left_ne_nil isName.nonempty _,
      .keyword isName value.phrase.phrased⟩
  | word w => exact ⟨w.nonempty, w.phrase.phrased⟩

/-- **Fragments and values are recovered.** Expressions, expressions behind a keyword, and
words are what a text splits into exactly if it is these texts with blanks between them, and
perhaps around them. No keyword is split off an expression, and from behind a keyword the
expression is given back as it is. -/
theorem fragments_and_values_recovered :
    (∀ (fs : List Text) (s : Text), (∀ f ∈ fs, IsTagText f) →
      ((splitFragments s).map Fragment.text = fs ↔ IsSpacedOut fs s)) ∧
    (∀ (s : Text) (e : FilterExpression), FilterExpression.parse s = .ok e →
      splitKeyword s = ([], s)) ∧
    ∀ (name s : Text) (e : FilterExpression), IsName name → FilterExpression.parse s = .ok e →
      splitKeyword (name ++ '=' :: s) = (name ++ ['='], s) :=
  ⟨fun _ _ hfs => map_splitFragments_eq_iff fun f hf => (hfs f hf).phrased,
    fun _ _ h => splitKeyword_phrased (phrased_of_parse h),
    fun _ _ _ hn h => splitKeyword_keyword hn (phrased_of_parse h)⟩

/-- A translation with a blank in it, and a filter whose argument holds a quote and `=`. -/
def quotedBlanks : Formula where
  text := "_(\"a b\")|default:'c=\"d'".toList
  expression := ⟨some (.translation ⟨.double, "a b".toList⟩),
    [⟨"default".toList, some (.literal ⟨.single, "c=\"d".toList⟩)⟩]⟩
  accepted := by decide +kernel
  nonempty := by decide

/-- Literals keep their blanks, quotes and `=`, between line breaks and behind a keyword. -/
theorem fragments_and_values_recovered_quotedBlanks :
    (splitFragments
        "\t cycle \r\n_(\"a b\")|default:'c=\"d'\nk=_(\"a b\")|default:'c=\"d'".toList).map
        Fragment.text = ["cycle".toList, quotedBlanks.text, 'k' :: '=' :: quotedBlanks.text] ∧
      splitKeyword quotedBlanks.text = ([], quotedBlanks.text) ∧
      splitKeyword ('k' :: '=' :: quotedBlanks.text) = (['k', '='], quotedBlanks.text) := by
  obtain ⟨hfragments, hvalue, hkeyword⟩ := fragments_and_values_recovered
  have hk : IsName ['k'] := ⟨by decide, List.all_eq_true.1 (by decide)⟩
  have htag : ∀ f ∈ ["cycle".toList, quotedBlanks.text, 'k' :: '=' :: quotedBlanks.text],
      IsTagText f := by
    intro f hf
    simp only [List.mem_cons, List.not_mem_nil, or_false] at hf
    rcases hf with rfl | rfl | rfl
    · exact .word ⟨"cycle".toList, by decide, List.all_eq_true.1 (by decide)⟩
    · exact .expression quotedBlanks
    · exact .keyword hk quotedBlanks
  have hfront : ∀ c ∈ "\t ".toList, isBlank c = true := List.all_eq_true.1 (by decide)
  have hcycle : ∀ c ∈ " \r\n".toList, isBlank c = true := List.all_eq_true.1 (by decide)
  have hbreak : ∀ c ∈ "\n".toList, isBlank c = true := List.all_eq_true.1 (by decide)
  refine ⟨(hfragments _ _ htag).2 ⟨_, _, hfront, rfl, ?_⟩, hvalue _ _ quotedBlanks.accepted,
    hkeyword ['k'] _ _ hk quotedBlanks.accepted⟩
  exact .cons hcycle (fun _ => by decide) <| .cons hbreak (fun _ => by decide) <|
    .cons (List.forall_mem_nil _) (absurd rfl) .nil

end TemplateCatalog
