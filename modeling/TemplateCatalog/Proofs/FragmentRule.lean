/-
The rule that fragments are cut by.

Let a phrase be a complete literal and a bare run a maximal run without blanks and quotes. The
rule of a fragment is a regular expression: an optional bare run, and then one or more times a
phrase with an optional bare run behind it (`PhraseRun`). A fragment is the longest match of
it, or the longest run without blanks if there is no match (`FragmentRule`); fragments follow
one another with blanks between them (`Splits`). The main result, `splits_iff_and_gapped`, says
that the splitter cuts every text by this rule, that only blanks are left out, that two
fragments touch only where a quote is never closed, and that a fragment is not split again.

The end of a run does not change along the run (`PhraseRun.afterPhrases_eq`): from each of its
places the splitter goes on to the same place. So this place is behind all matches.
-/
import TemplateCatalog.Proofs.Phrasing
import Mathlib.Data.List.Chain
import Mathlib.Logic.Relation

namespace TemplateCatalog

open Text

/-! ### The rule -/

/-- A phrase leads from place `s` of a text to place `r`. -/
def PhraseStep (s r : Text) : Prop := ∃ l : Literal, l.Complete ∧ s = l.toText ++ r

/-- A maximal run without blanks and quotes leads from `s` to `r`. -/
def BareStep (s r : Text) : Prop :=
  ∃ b, b ≠ [] ∧ (∀ c ∈ b, isBare c = true) ∧ s = b ++ r ∧ ∀ c ∈ r.head?, isBare c = false

/-- A phrase with an optional bare run behind it. -/
def PhraseUnit : Text → Text → Prop := Relation.Comp PhraseStep (Relation.ReflGen BareStep)

/-- An optional bare run, and one or more phrases with optional bare runs. -/
def PhraseRun : Text → Text → Prop :=
  Relation.Comp (Relation.ReflGen BareStep) (Relation.TransGen PhraseUnit)

/-- One or more characters that are no blanks. -/
def SolidRun (s r : Text) : Prop := ∃ w, w ≠ [] ∧ (∀ c ∈ w, isBlank c = false) ∧ s = w ++ r

/-- No match from `s` goes farther than to `r`. -/
def Longest (R : Text → Text → Prop) (s r : Text) : Prop :=
  R s r ∧ ∀ r', R s r' → r.length ≤ r'.length

/-- The fragment at `s` ends at `r`. -/
def FragmentRule (s r : Text) : Prop :=
  Longest PhraseRun s r ∨ (¬ ∃ r', PhraseRun s r') ∧ Longest SolidRun s r

/-- `Splits o s fs`: cut by the rule from left to right, the text `s` that starts at byte `o`
has the fragments `fs`. -/
inductive Splits : Nat → Text → List Fragment → Prop
  | done {o s} : (∀ c ∈ s, isBlank c = true) → Splits o s []
  | fragment {o gap m r fs} : (∀ c ∈ gap, isBlank c = true) →
      (∀ c ∈ (m ++ r).head?, isBlank c = false) → FragmentRule (m ++ r) r →
      Splits (o + byteSize gap + byteSize m) r fs →
      Splits o (gap ++ (m ++ r)) (⟨o + byteSize gap, m⟩ :: fs)

/-! ### Phrases -/

variable {s t r : Text}

theorem phraseStep_iff : PhraseStep s r ↔ ∃ l, Literal.take? s = some (l, r) := by
  simp only [PhraseStep, Literal.take?_eq_some_iff, and_comm]

theorem isBare_head_of_take? {l : Literal} (h : Literal.take? s = some (l, r)) :
    ∀ c ∈ s.head?, isBare c = false := by
  intro c hc
  rw [Literal.take?_eq_some h] at hc
  obtain rfl := Option.some.inj hc
  exact isBare_of_isQuote l.quote.isQuote_char

/-- A literal in front of a text is in front of every longer one. -/
theorem Literal.take?_append {l : Literal} (h : take? s = some (l, r)) (u : Text) :
    take? (s ++ u) = some (l, r ++ u) := by
  obtain ⟨rfl, hl⟩ := take?_eq_some_iff.1 h
  exact take?_eq_some_iff.2 ⟨List.append_assoc .., hl⟩

/-- No literal stands behind a run of phrases. -/
theorem take?_takePhrases (s : Text) : Literal.take? (takePhrases s).2 = none := by
  fun_induction takePhrases s with
  | case1 s h => exact h
  | case2 s l r h more rest e ih =>
    rw [e] at ih
    exact ih

/-- No bare character stands behind a run of phrases. -/
theorem head?_takePhrases (h : ∀ c ∈ s.head?, isBare c = false) :
    ∀ c ∈ (takePhrases s).2.head?, isBare c = false := by
  fun_induction takePhrases s with
  | case1 s _ => exact h
  | case2 s l r _ more rest e ih =>
    have hrest := ih (head?_dropWhile isBare r)
    rw [e] at hrest
    exact hrest

theorem phrased_takePhrases (s : Text) : Phrased (isBare ·) (takePhrases s).1 := by
  fun_induction takePhrases s with
  | case1 => exact .nil
  | case2 s l r h more rest e ih =>
    rw [e] at ih
    refine (Phrased.append (.of_literal (Literal.take?_eq_some_iff.1 h).2) ?_).append ih
    exact .of_forall fun c hc => List.mem_takeWhile_imp hc

/-! ### Runs of phrases -/

/-- Where the splitter stands when it has passed a bare run and all phrases behind it. -/
def afterPhrases (s : Text) : Text := (takePhrases (s.dropWhile isBare)).2

theorem ReflGen.dropWhile_isBare (h : Relation.ReflGen BareStep s t) :
    t.dropWhile isBare = s.dropWhile isBare := by
  cases h with
  | refl => rfl
  | single h =>
    obtain ⟨b, -, hb, rfl, hstop⟩ := h
    rw [dropWhile_append_of_stop hstop, List.dropWhile_eq_nil_iff.2 hb, List.nil_append,
      dropWhile_of_head? hstop]

theorem reflGen_bareStep (s : Text) : Relation.ReflGen BareStep s (s.dropWhile isBare) := by
  by_cases hb : s.takeWhile isBare = []
  · have hs := List.takeWhile_append_dropWhile (p := isBare) (l := s)
    rw [hb, List.nil_append] at hs
    rw [hs]
  · exact .single ⟨_, hb, fun c hc => List.mem_takeWhile_imp hc,
      List.takeWhile_append_dropWhile.symm, head?_dropWhile isBare s⟩

theorem PhraseUnit.take?_isSome (h : PhraseUnit s t) :
    ∃ l r, Literal.take? s = some (l, r) ∧ r.dropWhile isBare = t.dropWhile isBare := by
  obtain ⟨r, hq, hb⟩ := h
  obtain ⟨l, hl⟩ := phraseStep_iff.1 hq
  exact ⟨l, r, hl, (ReflGen.dropWhile_isBare hb).symm⟩

theorem PhraseUnit.afterPhrases_eq (h : PhraseUnit s t) : afterPhrases t = afterPhrases s := by
  obtain ⟨l, r, hl, hr⟩ := h.take?_isSome
  rw [afterPhrases, afterPhrases, dropWhile_of_head? (isBare_head_of_take? hl),
    takePhrases_of_some hl, hr]

/-- The end of a run does not change along the run. -/
theorem PhraseRun.afterPhrases_eq (h : PhraseRun s r) : afterPhrases r = afterPhrases s := by
  obtain ⟨t, hb, hq⟩ := h
  have ht : afterPhrases t = afterPhrases s := by
    rw [afterPhrases, ReflGen.dropWhile_isBare hb, afterPhrases]
  rw [← ht]
  induction hq with
  | single h => exact h.afterPhrases_eq
  | tail _ h ih => rw [h.afterPhrases_eq, ih]

theorem afterPhrases_suffix (s : Text) : afterPhrases s <:+ s := by
  have hphrases : afterPhrases s <:+ s.dropWhile isBare := ⟨_, takePhrases_append _⟩
  exact hphrases.trans (List.dropWhile_suffix _)

/-- A run needs a literal behind the bare run in front. -/
theorem PhraseRun.take?_isSome (h : PhraseRun s r) :
    ∃ l t, Literal.take? (s.dropWhile isBare) = some (l, t) := by
  obtain ⟨t, hb, hq⟩ := h
  obtain ⟨u, hu⟩ : ∃ u, PhraseUnit t u := by
    cases hq using Relation.TransGen.head_induction_on with
    | single h => exact ⟨_, h⟩
    | head h _ => exact ⟨_, h⟩
  obtain ⟨l, v, hl, -⟩ := hu.take?_isSome
  rw [← ReflGen.dropWhile_isBare hb, dropWhile_of_head? (isBare_head_of_take? hl)]
  exact ⟨l, v, hl⟩

theorem transGen_takePhrases {l : Literal} (h : Literal.take? s = some (l, r)) :
    Relation.TransGen PhraseUnit s (takePhrases s).2 := by
  induction hn : s.length using Nat.strong_induction_on generalizing s l r with
  | _ n ih =>
    have hunit : PhraseUnit s (r.dropWhile isBare) :=
      ⟨r, phraseStep_iff.2 ⟨l, h⟩, reflGen_bareStep r⟩
    have hlen := Literal.take?_length h
    have hdrop := (List.dropWhile_suffix isBare (l := r)).length_le
    rw [takePhrases_of_some h]
    -- The next literal follows at once, or the run ends here.
    cases hnext : Literal.take? (r.dropWhile isBare) with
    | none =>
      rw [takePhrases_of_none hnext]
      exact .single hunit
    | some p => exact .head hunit (ih _ (by omega) hnext rfl)

theorem phraseRun_afterPhrases {l : Literal}
    (h : Literal.take? (s.dropWhile isBare) = some (l, r)) : PhraseRun s (afterPhrases s) :=
  ⟨s.dropWhile isBare, reflGen_bareStep s, transGen_takePhrases h⟩

theorem longest_afterPhrases {l : Literal}
    (h : Literal.take? (s.dropWhile isBare) = some (l, r)) :
    Longest PhraseRun s (afterPhrases s) := by
  refine ⟨phraseRun_afterPhrases h, fun r' hr' => ?_⟩
  rw [← hr'.afterPhrases_eq]
  exact (afterPhrases_suffix r').length_le

/-! ### Solid runs -/

theorem head?_dropWhile_solid (s : Text) :
    ∀ c ∈ (s.dropWhile (!isBlank ·)).head?, isBlank c = true := by
  intro c hc
  simpa using head?_dropWhile (!isBlank ·) s c hc

theorem longest_solidRun {c : Char} (hc : isBlank c = false) (s : Text) :
    Longest SolidRun (c :: s) ((c :: s).dropWhile (!isBlank ·)) := by
  refine ⟨⟨(c :: s).takeWhile (!isBlank ·), by simp [hc], ?_,
    List.takeWhile_append_dropWhile.symm⟩, ?_⟩
  · intro d hd
    simpa using List.mem_takeWhile_imp hd
  · rintro r' ⟨w, -, hw, hs⟩
    -- All of `w` is dropped with the run.
    have hdrop : (c :: s).dropWhile (!isBlank ·) = r'.dropWhile (!isBlank ·) := by
      rw [hs, List.dropWhile_append_of_pos]
      intro d hd
      rw [hw d hd]
      rfl
    rw [hdrop]
    exact (List.dropWhile_suffix _).length_le

/-! ### One fragment -/

/-- The two ways in which a fragment is taken. -/
theorem takeFragment_cases (s : Text) :
    Literal.take? (s.dropWhile isBare) = none ∧
        takeFragment s = (s.takeWhile (!isBlank ·), s.dropWhile (!isBlank ·)) ∨
      ∃ l r, Literal.take? (s.dropWhile isBare) = some (l, r) ∧
        takeFragment s =
          (s.takeWhile isBare ++ (takePhrases (s.dropWhile isBare)).1, afterPhrases s) := by
  rw [takeFragment, afterPhrases]
  cases h : Literal.take? (s.dropWhile isBare) with
  | none =>
    refine Or.inl ⟨rfl, ?_⟩
    rw [takePhrases_of_none h]
  | some p =>
    obtain ⟨l, r⟩ := p
    refine Or.inr ⟨l, r, rfl, ?_⟩
    -- A phrase that is read is not empty, so the definition takes the same branch.
    have hne : (takePhrases (s.dropWhile isBare)).1 ≠ [] := by
      rw [takePhrases_of_some h]
      simp [Literal.toText]
    split
    · rename_i e
      rw [e] at hne
      exact absurd rfl hne
    · rename_i e
      rw [e]

theorem fragmentRule_takeFragment {c : Char} (hc : isBlank c = false) (s : Text) :
    FragmentRule (c :: s) (takeFragment (c :: s)).2 := by
  rcases takeFragment_cases (c :: s) with ⟨hn, he⟩ | ⟨l, r, hl, he⟩
  · refine Or.inr ⟨?_, ?_⟩
    · rintro ⟨r', hr'⟩
      obtain ⟨l, t, hl⟩ := hr'.take?_isSome
      rw [hn] at hl
      exact absurd hl (by simp)
    · rw [he]
      exact longest_solidRun hc s
  · refine Or.inl ?_
    rw [he]
    exact longest_afterPhrases hl

theorem PhraseRun.suffix (h : PhraseRun s r) : r <:+ s := by
  obtain ⟨t, hb, hq⟩ := h
  have hbare : ∀ {u v : Text}, Relation.ReflGen BareStep u v → v <:+ u := by
    rintro u v (_ | ⟨b, -, -, rfl, -⟩)
    · exact List.suffix_rfl
    · exact List.suffix_append b v
  have hunit : ∀ {u v : Text}, PhraseUnit u v → v <:+ u := by
    rintro u v ⟨w, ⟨l, -, rfl⟩, hw⟩
    exact (hbare hw).trans (List.suffix_append _ _)
  refine List.IsSuffix.trans ?_ (hbare hb)
  induction hq with
  | single h => exact hunit h
  | tail _ h ih => exact (hunit h).trans ih

theorem Longest.unique {R : Text → Text → Prop} (hR : ∀ {u v}, R u v → v <:+ u) {r' : Text}
    (h : Longest R s r) (h' : Longest R s r') : r = r' := by
  have hle := h.2 r' h'.1
  have hle' := h'.2 r h.1
  exact (List.suffix_of_suffix_length_le (hR h.1) (hR h'.1) hle).eq_of_length (by omega)

theorem FragmentRule.unique {r' : Text} (h : FragmentRule s r) (h' : FragmentRule s r') :
    r = r' := by
  rcases h with h | ⟨hn, h⟩
  · rcases h' with h' | ⟨hn', -⟩
    · exact h.unique PhraseRun.suffix h'
    · exact absurd ⟨r, h.1⟩ hn'
  · rcases h' with h' | ⟨-, h'⟩
    · exact absurd ⟨r', h'.1⟩ hn
    · refine h.unique ?_ h'
      rintro u v ⟨w, -, -, rfl⟩
      exact List.suffix_append w v

/-! ### All fragments -/

/-- One step of the splitter takes the fragment at the first character that is no blank. -/
theorem Splitter.next?_takes {p p' : Splitter} {f : Fragment} (h : p.next? = some (f, p')) :
    (∀ c ∈ (f.text ++ p'.rest).head?, isBlank c = false) ∧
      takeFragment (f.text ++ p'.rest) = (f.text, p'.rest) := by
  rw [next?] at h
  split at h
  · exact absurd h (by simp)
  · rename_i c r hs
    simp only [Option.some.injEq, Prod.mk.injEq] at h
    rw [← h.1, ← h.2, takeFragment_append]
    refine ⟨fun d hd => ?_, rfl⟩
    rw [← hs] at hd
    have hb := List.head?_dropWhile_not isBlank p.rest
    rw [trimStart, Option.mem_def] at hd
    simpa [hd] using hb

theorem Splitter.fragmentRule_next? {p p' : Splitter} {f : Fragment}
    (h : p.next? = some (f, p')) : FragmentRule (f.text ++ p'.rest) p'.rest := by
  obtain ⟨hhead, htake⟩ := next?_takes h
  obtain ⟨-, -, -, hne, -, -⟩ := next?_spec h
  cases hs : f.text ++ p'.rest with
  | nil => exact absurd (List.append_eq_nil_iff.1 hs).1 hne
  | cons c u =>
    rw [hs] at hhead htake
    have hrule := fragmentRule_takeFragment (hhead c rfl) u
    rwa [htake] at hrule

theorem Splitter.splits_fragments (p : Splitter) : Splits p.offset p.rest p.fragments := by
  fun_induction fragments p with
  | case1 p hn => exact .done (next?_eq_none_iff.1 hn)
  | case2 p f p' hn ih =>
    obtain ⟨blanks, hrest, hblank, -, ho, ho'⟩ := next?_spec hn
    rw [ho', ho] at ih
    have hsplits := Splits.fragment hblank (next?_takes hn).1 (fragmentRule_next? hn) ih
    rw [← ho] at hsplits
    rwa [hrest]

/-- Blanks in front of a text end where its first character stands that is none. -/
theorem blanks_unique {gap gap' u u' : Text} (hg : ∀ c ∈ gap, isBlank c = true)
    (hg' : ∀ c ∈ gap', isBlank c = true) (hu : ∀ c ∈ u.head?, isBlank c = false)
    (hu' : ∀ c ∈ u'.head?, isBlank c = false) (h : gap ++ u = gap' ++ u') : gap = gap' ∧
      u = u' := by
  have hgap : gap = gap' := by
    rw [← List.takeWhile_eq_self_iff.2 hg, ← takeWhile_append_of_stop hu, h,
      takeWhile_append_of_stop hu', List.takeWhile_eq_self_iff.2 hg']
  subst hgap
  exact ⟨rfl, List.append_cancel_left h⟩

theorem FragmentRule.ne_nil (h : FragmentRule s r) : s ≠ [] := by
  rintro rfl
  rcases h with h | ⟨-, ⟨w, hw, -, hs⟩, -⟩
  · obtain ⟨l, t, hl⟩ := h.1.take?_isSome
    exact absurd hl (by simp [Literal.take?])
  · exact hw (List.append_eq_nil_iff.1 hs.symm).1

theorem not_blank_of_fragmentRule {gap : Text} (h : FragmentRule s r)
    (hs : ∀ c ∈ s.head?, isBlank c = false) : ¬ ∀ c ∈ gap ++ s, isBlank c = true := by
  intro hb
  cases s with
  | nil => exact h.ne_nil rfl
  | cons c s =>
    have hc := hb c (by simp)
    rw [hs c rfl] at hc
    exact absurd hc (by simp)

/-- The rule cuts a text in one way only. -/
theorem Splits.unique {o : Nat} {fs fs' : List Fragment} (h : Splits o s fs)
    (h' : Splits o s fs') : fs = fs' := by
  induction h generalizing fs' with
  | done hb =>
    cases h' with
    | done => rfl
    | fragment _ hhead hrule => exact absurd hb (not_blank_of_fragmentRule hrule hhead)
  | @fragment o gap m r fs hg hhead hrule _ ih =>
    generalize hu : gap ++ (m ++ r) = u at h'
    cases h' with
    | done hb =>
      rw [← hu] at hb
      exact absurd hb (not_blank_of_fragmentRule hrule hhead)
    | @fragment _ gap' m' r' fs' hg' hhead' hrule' hfs' =>
      obtain ⟨rfl, hm⟩ := blanks_unique hg hg' hhead hhead' hu
      rw [← hm] at hrule'
      obtain rfl := hrule.unique hrule'
      obtain rfl := List.append_cancel_right hm
      rw [ih hfs']

theorem splits_iff {fs : List Fragment} : Splits 0 s fs ↔ fs = splitFragments s := by
  have h := (Splitter.start s).splits_fragments
  exact ⟨fun hfs => hfs.unique h, fun he => he ▸ h⟩

/-! ### What is between fragments -/

/-- The fragments stand one after another in the text `s` that starts at byte `o`; none is
empty, and all other characters of the text are blanks. -/
def Gapped : Nat → Text → List Fragment → Prop
  | _, s, [] => ∀ c ∈ s, isBlank c = true
  | o, s, f :: fs => ∃ gap r, s = gap ++ (f.text ++ r) ∧ (∀ c ∈ gap, isBlank c = true) ∧
      f.offset = o + byteSize gap ∧ f.text ≠ [] ∧ Gapped f.stop r fs

theorem Splitter.gapped_fragments (p : Splitter) : Gapped p.offset p.rest p.fragments := by
  fun_induction fragments p with
  | case1 p hn => exact next?_eq_none_iff.1 hn
  | case2 p f p' hn ih =>
    obtain ⟨blanks, hrest, hblank, hne, ho, ho'⟩ := next?_spec hn
    rw [ho'] at ih
    exact ⟨blanks, p'.rest, hrest, hblank, ho, hne, ih⟩

/-- A phrase is part of the text. -/
def HoldsPhrase (s : Text) : Prop := ∃ l : Literal, l.Complete ∧ l.toText <:+: s

/-- A quote stands in front that is never closed. -/
def OpensQuote (s : Text) : Prop :=
  ∃ q : Quote, s.head? = some q.char ∧ ∀ l : Literal, l.Complete → ¬ l.toText <+: s

theorem opensQuote_of_take? (hq : startsWithQuote s = true) (h : Literal.take? s = none) :
    OpensQuote s := by
  cases s with
  | nil => exact absurd hq (by simp [startsWithQuote])
  | cons c u =>
    obtain ⟨q, hc⟩ := Option.isSome_iff_exists.1 hq
    refine ⟨q, by rw [Quote.ofChar?_eq_some_iff.1 hc]; rfl, ?_⟩
    rintro l hl ⟨v, hv⟩
    rw [← hv, Literal.take?_toText_append hl] at h
    exact absurd h (by simp)

/-- Behind a fragment stands a blank, or the end, or a quote that is never closed; the last
only behind a fragment with a phrase. -/
theorem takeFragment_stop (s : Text) : StartsBlank (takeFragment s).2 ∨
    HoldsPhrase (takeFragment s).1 ∧ OpensQuote (takeFragment s).2 := by
  rcases takeFragment_cases s with ⟨-, he⟩ | ⟨l, r, hl, he⟩
  · rw [he]
    exact Or.inl (head?_dropWhile_solid s)
  · rw [he]
    have hnone : Literal.take? (afterPhrases s) = none := take?_takePhrases _
    have hstop : ∀ c ∈ (afterPhrases s).head?, isBare c = false :=
      head?_takePhrases (head?_dropWhile isBare s)
    cases ha : afterPhrases s with
    | nil => exact Or.inl (by simp [StartsBlank])
    | cons c u =>
      rw [ha] at hnone hstop
      by_cases hc : isBlank c = true
      · refine Or.inl fun d hd => ?_
        rwa [← Option.some.inj hd]
      · refine Or.inr ⟨⟨l, (Literal.take?_eq_some_iff.1 hl).2, ?_⟩, ?_⟩
        · rw [takePhrases_of_some hl]
          exact ⟨s.takeWhile isBare,
            r.takeWhile isBare ++
              (takePhrases (r.dropWhile isBare)).1, by simp only [List.append_assoc]⟩
        · -- What is neither bare nor blank is a quote.
          refine opensQuote_of_take? ?_ hnone
          have hbare := hstop c rfl
          rw [Bool.not_eq_true] at hc
          rw [isBare, hc] at hbare
          simpa [startsWithQuote] using hbare

/-- Two fragments touch only where a quote is never closed. -/
theorem Splitter.isChain_fragments {p : Splitter} (h : At s p.offset p.rest) :
    p.fragments.IsChain fun f g => f.stop = g.offset →
      HoldsPhrase f.text ∧ ∃ r, At s g.offset r ∧ OpensQuote r := by
  fun_induction fragments p with
  | case1 => exact .nil
  | case2 p f p' hn ih =>
    obtain ⟨blanks, hrest, -, -, ho, ho'⟩ := next?_spec hn
    have hf : At s f.offset (f.text ++ p'.rest) := by
      rw [ho]
      exact (hrest ▸ h).add
    have hp' : At s p'.offset p'.rest := by
      rw [ho']
      exact hf.add
    refine List.isChain_cons.2 ⟨fun g hg => ?_, ih hp'⟩
    -- The next fragment is what the next step takes.
    cases hn' : p'.next? with
    | none =>
      rw [fragments_of_none hn'] at hg
      exact absurd hg (by simp)
    | some q =>
      obtain ⟨g', p''⟩ := q
      rw [fragments_of_some hn'] at hg
      obtain rfl := Option.some.inj hg
      obtain ⟨blanks', hrest', hblank', hne', hg', -⟩ := next?_spec hn'
      obtain ⟨hhead, -⟩ := next?_takes hn'
      intro htouch
      have hgap : blanks' = [] := by
        refine eq_nil_of_byteSize_eq_zero ?_
        rw [Fragment.stop] at htouch
        omega
      rw [hgap, List.nil_append] at hrest'
      rw [← hrest'] at hhead
      have hstop := takeFragment_stop (f.text ++ p'.rest)
      rw [(next?_takes hn).2] at hstop
      rcases hstop with hb | ⟨hphrase, hquote⟩
      · cases hr : p'.rest with
        | nil =>
          rw [hr] at hrest'
          exact absurd (List.append_eq_nil_iff.1 hrest'.symm).1 hne'
        | cons c u =>
          rw [hr] at hb hhead
          have hc := hb c rfl
          rw [hhead c rfl] at hc
          exact absurd hc (by simp)
      · refine ⟨hphrase, p'.rest, ?_, hquote⟩
        rw [← htouch, Fragment.stop, ← ho']
        exact hp'

/-! ### Splitting a fragment -/

/-- A fragment that stands alone is taken whole. -/
theorem takeFragment_takeFragment (s : Text) :
    takeFragment (takeFragment s).1 = ((takeFragment s).1, []) := by
  rcases takeFragment_cases s with ⟨hn, he⟩ | ⟨l, r, hl, he⟩
  · rw [he]
    have hparts := List.takeWhile_append_dropWhile (p := (!isBlank ·)) (l := s)
    have hstop : StartsBlank (s.dropWhile (!isBlank ·)) := head?_dropWhile_solid s
    have hsolid : ∀ c ∈ s.takeWhile (!isBlank ·), (!isBlank c) = true :=
      fun c hc => List.mem_takeWhile_imp (p := (!isBlank ·)) hc
    generalize s.takeWhile (!isBlank ·) = w at hparts hsolid ⊢
    -- A literal in `w` would be one in the whole text.
    have hnone : Literal.take? (w.dropWhile isBare) = none := by
      rw [← hparts, dropWhile_append_of_stop hstop.not_isBare] at hn
      cases hw : Literal.take? (w.dropWhile isBare) with
      | none => rfl
      | some p =>
        rw [Literal.take?_append hw] at hn
        exact absurd hn (by simp)
    rcases takeFragment_cases w with ⟨-, hw⟩ | ⟨l, r, hl, -⟩
    · show takeFragment w = (w, [])
      rw [hw, List.takeWhile_eq_self_iff.2 hsolid, List.dropWhile_eq_nil_iff.2 hsolid]
    · rw [hnone] at hl
      exact absurd hl (by simp)
  · rw [he]
    have hphrased : Phrased (isBare ·)
        (s.takeWhile isBare ++ (takePhrases (s.dropWhile isBare)).1) :=
      (Phrased.of_forall fun c hc => List.mem_takeWhile_imp hc).append (phrased_takePhrases _)
    have htake := takeFragment_phrased hphrased (r := []) (by simp [StartsBlank])
    rwa [List.append_nil] at htake

theorem splitFragments_of_takeFragment {m : Text} (hne : m ≠ [])
    (hhead : ∀ c ∈ m.head?, isBlank c = false) (h : takeFragment m = (m, [])) :
    splitFragments m = [⟨0, m⟩] := by
  have hnext : (Splitter.start m).next? = some (⟨0, m⟩, ⟨byteSize m, []⟩) := by
    have htrim : trimStart m = m := dropWhile_of_head? hhead
    have hblanks : leadingBlanks m = [] := by
      cases m with
      | nil => rfl
      | cons c u => simp [leadingBlanks, hhead c rfl]
    rw [Splitter.next?, Splitter.start]
    simp only [htrim, hblanks]
    cases m with
    | nil => exact absurd rfl hne
    | cons c u =>
      simp only [h]
      simp
  rw [splitFragments, Splitter.fragments_of_some hnext, Splitter.fragments_of_none]
  exact Splitter.next?_eq_none_iff.2 (by simp)

theorem Splitter.splitFragments_of_mem {p : Splitter} {f : Fragment} (hf : f ∈ p.fragments) :
    splitFragments f.text = [⟨0, f.text⟩] := by
  fun_induction fragments p with
  | case1 => exact absurd hf (by simp)
  | case2 p g p' hn ih =>
    rcases List.mem_cons.1 hf with rfl | hf
    · obtain ⟨-, -, -, hne, -, -⟩ := next?_spec hn
      obtain ⟨hhead, htake⟩ := next?_takes hn
      have hagain := takeFragment_takeFragment (f.text ++ p'.rest)
      rw [htake] at hagain
      rw [List.head?_append_of_ne_nil _ hne] at hhead
      exact splitFragments_of_takeFragment hne hhead hagain
    · exact ih hf

/-! ### The main result -/

/-- **Fragments are what the rule cuts a text into.** They are not empty and only blanks are
left out; two of them touch only if the first has a phrase and the second starts with a quote
that is never closed; and splitting a fragment gives the fragment. -/
theorem splits_iff_and_gapped (s : Text) :
    (∀ fs, Splits 0 s fs ↔ fs = splitFragments s) ∧
      Gapped 0 s (splitFragments s) ∧
      (splitFragments s).IsChain (fun f g => f.stop = g.offset →
        HoldsPhrase f.text ∧ ∃ r, At s g.offset r ∧ OpensQuote r) ∧
      ∀ f ∈ splitFragments s, splitFragments f.text = [⟨0, f.text⟩] := by
  refine ⟨fun fs => splits_iff, (Splitter.start s).gapped_fragments, ?_, ?_⟩
  · exact Splitter.isChain_fragments (At.start s)
  · exact fun f hf => Splitter.splitFragments_of_mem hf

/-- A phrase, and a quote behind it that is never closed. -/
def touchingQuote : Text := "'a b'\"c d".toList

theorem splitFragments_touchingQuote : splitFragments touchingQuote =
    [⟨0, "'a b'".toList⟩, ⟨5, "\"c".toList⟩, ⟨8, "d".toList⟩] := by decide +kernel

/-- The first two fragments touch, and the second is one fragment by itself. -/
theorem splits_iff_and_gapped_touchingQuote :
    Splits 0 touchingQuote [⟨0, "'a b'".toList⟩, ⟨5, "\"c".toList⟩, ⟨8, "d".toList⟩] ∧
      (HoldsPhrase "'a b'".toList ∧ ∃ r, At touchingQuote 5 r ∧ OpensQuote r) ∧
      splitFragments "\"c".toList = [⟨0, "\"c".toList⟩] := by
  obtain ⟨hsplits, -, hchain, hagain⟩ := splits_iff_and_gapped touchingQuote
  rw [splitFragments_touchingQuote] at hsplits hchain hagain
  refine ⟨(hsplits _).2 rfl, ?_, hagain ⟨5, "\"c".toList⟩ (by simp)⟩
  exact (List.isChain_cons_cons.1 hchain).1 (by decide)

end TemplateCatalog
