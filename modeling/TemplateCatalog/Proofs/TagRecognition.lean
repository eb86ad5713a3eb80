/-
What a tag is, told from its fragments.

`Recognizes contents m` describes without a scan what the contents of a block are: the first
fragment names a family or none, the next fragments are the literals of its slots, and the
arguments end at the keyword. If one of the literals is not there, the first slot without one
is named, with the place of the fragment that stands there instead, or with the end of the
contents.

* `fillSlots_quoted`: filling slots passes over the fragments that are literals;
* `Entry.fill_eq_iff`: the entry has the inner texts of the literals in its slots and nothing
  else;
* `standsBehind_fragments`: a fragment is told from equal ones by the fragments in front of it.

The main result, `ofContents_eq_iff`, says that this gives every contents exactly one meaning,
the one that is recognized.
-/
import TemplateCatalog.Proofs.Capture
import TemplateCatalog.Proofs.FragmentRule
import TemplateCatalog.Proofs.RoundTrip

namespace TemplateCatalog

open Text

/-! ### The description -/

/-- The part of the entry in a slot. -/
def Entry.part (e : Entry) : Slot → Text
  | .context => e.context
  | .message => e.message
  | .plural => e.plural

/-- The fragment is exactly one complete literal. -/
def Fragment.IsLiteral (f : Fragment) (l : Literal) : Prop := l.Complete ∧ f.text = l.toText

/-- In front of the fragment stand the fragments `fs`, with blanks between them, and nothing
else. -/
def Fragment.StandsBehind (f : Fragment) (fs : List Fragment) (s : Text) : Prop :=
  ∃ front back, s = front ++ (f.text ++ back) ∧ f.offset = byteSize front ∧ Gapped 0 front fs

/-- What the contents of a block are. -/
inductive Recognizes (contents : Text) : TagMatch → Prop
  /-- There is no tag name. -/
  | notI18n : (∀ name ∈ (splitFragments contents).head?, ∀ family binds,
        name.text ≠ I18nFamily.tagName family binds) →
      Recognizes contents .notI18n
  /-- All slots have their literals. -/
  | i18n {family binds name quoted literals arguments binding entry} :
      splitFragments contents = name :: (quoted ++ (arguments ++ binding)) →
      name.text = I18nFamily.tagName family binds →
      List.Forall₂ Fragment.IsLiteral quoted literals →
      List.Forall₂ (fun slot l => entry.part slot = l.inner) family.slots literals →
      (∀ slot, slot ∉ family.slots → entry.part slot = []) →
      (∀ f ∈ arguments, f.text ≠ bindingKeyword) →
      (∀ f ∈ binding.head?, f.text = bindingKeyword) →
      Recognizes contents (.i18n entry arguments)
  /-- The fragment in the place of the slot is no literal. -/
  | notQuoted {family binds name quoted literals slot f rest} :
      splitFragments contents = name :: (quoted ++ f :: rest) →
      name.text = I18nFamily.tagName family binds →
      List.Forall₂ Fragment.IsLiteral quoted literals →
      family.slots[quoted.length]? = some slot →
      (∀ l, ¬f.IsLiteral l) →
      f.StandsBehind (name :: quoted) contents →
      Recognizes contents (.malformed ⟨name.text, .notQuoted slot f.text, f.offset⟩)
  /-- The contents end before the slot. -/
  | missingArgument {family binds name quoted literals slot} :
      splitFragments contents = name :: quoted →
      name.text = I18nFamily.tagName family binds →
      List.Forall₂ Fragment.IsLiteral quoted literals →
      family.slots[quoted.length]? = some slot →
      Recognizes contents (.malformed ⟨name.text, .missingArgument slot, byteSize contents⟩)

/-! ### Names and literals -/

/-- The tag names of a family are its name with and without one suffix. -/
theorem I18nFamily.ofTagName?_eq_some_iff {s : Text} {family : I18nFamily} :
    ofTagName? s = some family ↔ ∃ binds, s = family.tagName binds := by
  constructor
  · intro h
    by_contra hn
    refine absurd (ofTagName?_eq_none (s := s) ?_) (by simp [h])
    rintro family' binds rfl
    rw [ofTagName?_tagName, Option.some.injEq] at h
    exact hn ⟨binds, h ▸ rfl⟩
  · rintro ⟨binds, rfl⟩
    exact ofTagName?_tagName family binds

theorem I18nFamily.nodup_slots (family : I18nFamily) : family.slots.Nodup := by
  cases family <;> simp [slots]

theorem Fragment.isLiteral_iff {f : Fragment} {l : Literal} :
    f.IsLiteral l ↔ Literal.parse? f.text = some l := by
  rw [IsLiteral, Literal.parse?_eq_some_iff, and_comm]

theorem Fragment.parse?_eq_none_iff {f : Fragment} :
    Literal.parse? f.text = none ↔ ∀ l, ¬f.IsLiteral l := by
  simp only [isLiteral_iff, Option.eq_none_iff_forall_ne_some, ne_eq]

/-! ### Filled slots -/

namespace Entry

theorem ext_part {e e' : Entry} (h : ∀ slot, e.part slot = e'.part slot) : e = e' := by
  obtain ⟨m, c, p⟩ := e
  obtain ⟨m', c', p'⟩ := e'
  obtain rfl : m = m' := h .message
  obtain rfl : c = c' := h .context
  obtain rfl : p = p' := h .plural
  rfl

theorem part_set_self (e : Entry) (s : Slot) (text : Text) : (e.set s text).part s = text := by
  cases s <;> rfl

theorem part_set_of_ne (e : Entry) {s s' : Slot} (h : s' ≠ s) (text : Text) :
    (e.set s text).part s' = e.part s' := by
  cases s <;> cases s' <;> first | rfl | exact absurd rfl h

/-- The entry with the inner texts of literals in slots. -/
def fill (e : Entry) (ss : List Slot) (ls : List Literal) : Entry :=
  (ss.zip ls).foldl (fun e (s, l) => e.set s l.inner) e

/-- The literals go to their slots, and all other parts stay. -/
theorem fill_eq_iff {e e' : Entry} {ss : List Slot} {ls : List Literal} (hs : ss.Nodup)
    (hlen : ss.length = ls.length) :
    e.fill ss ls = e' ↔ List.Forall₂ (fun slot l => e'.part slot = Literal.inner l) ss ls ∧
      ∀ slot, slot ∉ ss → e'.part slot = e.part slot := by
  induction ss generalizing e ls with
  | nil =>
    obtain rfl := List.length_eq_zero_iff.1 hlen.symm
    constructor
    · rintro rfl
      exact ⟨.nil, fun _ _ => rfl⟩
    · rintro ⟨-, h⟩
      exact ext_part fun slot => (h slot List.not_mem_nil).symm
  | cons s ss ih =>
    cases ls with
    | nil => exact absurd hlen (by simp)
    | cons l ls =>
      obtain ⟨hmem, hs⟩ := List.nodup_cons.1 hs
      have hfill : e.fill (s :: ss) (l :: ls) = (e.set s l.inner).fill ss ls := rfl
      rw [hfill, ih hs (Nat.succ.inj hlen), List.forall₂_cons, and_assoc, and_left_comm]
      refine and_congr_right fun _ => ?_
      -- The first slot is filled for good, since it does not come again.
      constructor
      · intro h
        refine ⟨(h s hmem).trans (e.part_set_self s _), fun slot hslot => ?_⟩
        rw [List.mem_cons, not_or] at hslot
        rw [h slot hslot.2, e.part_set_of_ne hslot.1]
      · rintro ⟨hpart, h⟩ slot hslot
        by_cases heq : slot = s
        · rw [heq, hpart, part_set_self]
        · rw [e.part_set_of_ne heq]
          exact h slot (List.not_mem_cons_of_ne_of_not_mem heq hslot)

end Entry

/-- Filling slots passes over the fragments that are literals. -/
theorem fillSlots_quoted {size : Nat} {e : Entry} {ss : List Slot} {quoted fs : List Fragment}
    {literals : List Literal} (h : List.Forall₂ Fragment.IsLiteral quoted literals)
    (hlen : quoted.length ≤ ss.length) :
    fillSlots size e ss (quoted ++ fs) =
      fillSlots size (e.fill ss literals) (ss.drop quoted.length) fs := by
  induction h generalizing e ss with
  | nil => cases ss <;> rfl
  | cons hl _ ih =>
    cases ss with
    | nil => exact absurd hlen (by simp)
    | cons s ss =>
      rw [List.cons_append, fillSlots, Fragment.isLiteral_iff.1 hl]
      exact ih (Nat.le_of_succ_le_succ hlen)

/-- The literals in front, as many as there are slots at most. -/
theorem exists_quoted (ss : List Slot) (fs : List Fragment) :
    ∃ quoted literals rest, fs = quoted ++ rest ∧
      List.Forall₂ Fragment.IsLiteral quoted literals ∧
      quoted.length ≤ ss.length ∧
      (quoted.length < ss.length → ∀ f ∈ rest.head?, ∀ l, ¬f.IsLiteral l) := by
  induction ss generalizing fs with
  | nil => exact ⟨[], [], fs, rfl, .nil, Nat.le_refl _, fun h => absurd h (Nat.lt_irrefl _)⟩
  | cons s ss ih =>
    by_cases hf : ∀ f ∈ fs.head?, ∀ l, ¬f.IsLiteral l
    · exact ⟨[], [], fs, rfl, .nil, Nat.zero_le _, fun _ => hf⟩
    · push Not at hf
      obtain ⟨f, hf, l, hl⟩ := hf
      obtain ⟨fs', rfl⟩ := List.head?_eq_some_iff.1 hf
      obtain ⟨quoted, literals, rest, rfl, hq, hlen, hstop⟩ := ih fs'
      refine ⟨f :: quoted, l :: literals, rest, rfl, .cons hl hq, Nat.succ_le_succ hlen, ?_⟩
      exact fun h => hstop (Nat.lt_of_succ_lt_succ h)

/-! ### The place of a fragment -/

/-- What stands in front of a fragment are the fragments before it and blanks. -/
theorem Gapped.split {o : Nat} {s : Text} {fs gs : List Fragment} {f : Fragment}
    (h : Gapped o s (fs ++ f :: gs)) : ∃ front back, s = front ++ (f.text ++ back) ∧
      f.offset = o + byteSize front ∧ Gapped o front fs := by
  induction fs generalizing o s with
  | nil =>
    obtain ⟨gap, r, hs, hgap, ho, -, -⟩ := h
    exact ⟨gap, r, hs, ho, hgap⟩
  | cons g fs ih =>
    obtain ⟨gap, r, rfl, hgap, hg, hne, hr⟩ := h
    obtain ⟨front, back, rfl, ho, hfront⟩ := ih hr
    refine ⟨gap ++ (g.text ++ front), back, ?_, ?_, gap, front, rfl, hgap, hg, hne, hfront⟩
    · simp only [List.append_assoc]
    · rw [ho, Fragment.stop, hg, byteSize_append, byteSize_append]
      omega

theorem standsBehind_fragments {s : Text} {name f : Fragment} {fs gs : List Fragment}
    (h : splitFragments s = name :: (fs ++ f :: gs)) : f.StandsBehind (name :: fs) s := by
  have hgapped : Gapped 0 s (splitFragments s) := (Splitter.start s).gapped_fragments
  rw [h, ← List.cons_append] at hgapped
  obtain ⟨front, back, hs, ho, hfront⟩ := hgapped.split
  exact ⟨front, back, hs, by rw [ho, Nat.zero_add], hfront⟩

/-! ### The main result -/

section Recognition

variable {contents : Text} {m : TagMatch} {name : Fragment} {fs : List Fragment}

/-- What a tag of a family is, by how its slots are filled. -/
def TagMatch.ofFilled (name : Text) : Except (MalformedReason × Nat) (Entry × List Fragment) →
    TagMatch
  | .error (reason, offset) => .malformed ⟨name, reason, offset⟩
  | .ok (entry, rest) => .i18n entry (rest.takeWhile (·.text != bindingKeyword))

/-- The literals in front go to their slots; the rest decides. -/
theorem ofContents_of_quoted {family : I18nFamily} {binds : Bool} {quoted : List Fragment}
    {literals : List Literal} (hs : splitFragments contents = name :: (quoted ++ fs))
    (hname : name.text = family.tagName binds)
    (hq : List.Forall₂ Fragment.IsLiteral quoted literals)
    (hlen : quoted.length ≤ family.slots.length) :
    TagMatch.ofContents contents =
      TagMatch.ofFilled name.text
        (fillSlots (byteSize contents) (Entry.fill {} family.slots literals)
          (family.slots.drop quoted.length) fs) := by
  have hf := I18nFamily.ofTagName?_eq_some_iff.2 ⟨binds, hname⟩
  rw [← fillSlots_quoted hq hlen, TagMatch.ofContents, hs, TagMatch.ofFragments, hf]
  rfl

theorem drop_of_getElem? {ss : List Slot} {n : Nat} {slot : Slot} (h : ss[n]? = some slot) :
    n ≤ ss.length ∧ ss.drop n = slot :: ss.drop (n + 1) := by
  obtain ⟨hn, rfl⟩ := List.getElem?_eq_some_iff.1 h
  exact ⟨hn.le, List.drop_eq_getElem_cons hn⟩

theorem takeWhile_arguments {arguments binding : List Fragment}
    (hargs : ∀ f ∈ arguments, f.text ≠ bindingKeyword)
    (hbind : ∀ f ∈ binding.head?, f.text = bindingKeyword) :
    (arguments ++ binding).takeWhile (·.text != bindingKeyword) = arguments := by
  rw [List.takeWhile_append_of_pos fun f hf => bne_iff_ne.2 (hargs f hf)]
  cases binding with
  | nil => rw [List.takeWhile_nil, List.append_nil]
  | cons f fs => rw [List.takeWhile_cons_of_neg (by simp [hbind f rfl]), List.append_nil]

/-- What is described is recognized. -/
theorem Recognizes.ofContents_eq (h : Recognizes contents m) :
    TagMatch.ofContents contents = m := by
  -- What is recognized says how the slots are filled; the reader fills them the same way.
  cases h with
  | notI18n hn =>
    rw [TagMatch.ofContents]
    cases hs : splitFragments contents with
    | nil => rfl
    | cons name fs =>
      rw [hs] at hn
      rw [TagMatch.ofFragments, I18nFamily.ofTagName?_eq_none (hn name rfl)]
  | i18n hs hname hq hparts hother hargs hbind =>
    rename_i family binds name quoted literals arguments binding entry
    have hlen : quoted.length = family.slots.length := hq.length_eq.trans hparts.length_eq.symm
    have hfill : Entry.fill {} family.slots literals = entry :=
      (Entry.fill_eq_iff family.nodup_slots hparts.length_eq).2
        ⟨hparts, fun slot hslot => (hother slot hslot).trans (by cases slot <;> rfl)⟩
    rw [ofContents_of_quoted hs hname hq hlen.le, hfill, hlen, List.drop_length, fillSlots]
    exact congrArg _ (takeWhile_arguments hargs hbind)
  | notQuoted hs hname hq hslot hf =>
    obtain ⟨hlen, hdrop⟩ := drop_of_getElem? hslot
    rw [ofContents_of_quoted hs hname hq hlen, hdrop, fillSlots,
      Fragment.parse?_eq_none_iff.2 hf]
    rfl
  | missingArgument hs hname hq hslot =>
    rename_i family binds name quoted literals slot
    obtain ⟨hlen, hdrop⟩ := drop_of_getElem? hslot
    rw [← List.append_nil quoted] at hs
    rw [ofContents_of_quoted hs hname hq hlen, hdrop, fillSlots]
    rfl

/-- Every contents are described. -/
theorem recognizes_ofContents (contents : Text) :
    Recognizes contents (TagMatch.ofContents contents) := by
  cases hs : splitFragments contents with
  | nil =>
    rw [TagMatch.ofContents, hs, TagMatch.ofFragments]
    exact .notI18n (by simp [hs])
  | cons name fs =>
    cases hf : I18nFamily.ofTagName? name.text with
    | none =>
      rw [TagMatch.ofContents, hs, TagMatch.ofFragments, hf]
      refine .notI18n fun f hmem family binds hname => ?_
      rw [hs, List.head?_cons, Option.mem_some_iff] at hmem
      rw [hmem, hname, I18nFamily.ofTagName?_tagName] at hf
      exact absurd hf (by simp)
    | some family =>
      obtain ⟨binds, hname⟩ := I18nFamily.ofTagName?_eq_some_iff.1 hf
      obtain ⟨quoted, literals, rest, rfl, hq, hlen, hstop⟩ := exists_quoted family.slots fs
      rw [ofContents_of_quoted hs hname hq hlen]
      rcases hlen.eq_or_lt with hall | hless
      · -- All slots are filled, and the rest is parted at the keyword.
        have hlit : family.slots.length = literals.length := hall.symm.trans hq.length_eq
        obtain ⟨hparts, hother⟩ := (Entry.fill_eq_iff (e := {}) family.nodup_slots hlit).1 rfl
        have hrest :=
          List.takeWhile_append_dropWhile (p := (·.text != bindingKeyword)) (l := rest)
        rw [← hrest] at hs
        rw [hall, List.drop_length, fillSlots]
        refine .i18n hs hname hq hparts ?_ ?_ ?_
        · exact fun slot hslot => (hother slot hslot).trans (by cases slot <;> rfl)
        · intro f hmem
          have hp := List.mem_takeWhile_imp (p := fun f : Fragment => f.text != bindingKeyword)
            hmem
          exact bne_iff_ne.1 hp
        · exact fun f hmem => by simpa using head?_dropWhile _ rest f hmem
      · -- The first slot without a literal is named.
        have hslot := List.getElem?_eq_getElem hless
        rw [(drop_of_getElem? hslot).2]
        cases rest with
        | nil =>
          rw [fillSlots]
          rw [List.append_nil] at hs
          exact .missingArgument hs hname hq hslot
        | cons f rest =>
          have hnone := hstop hless f rfl
          rw [fillSlots, Fragment.parse?_eq_none_iff.2 hnone]
          exact .notQuoted hs hname hq hslot hnone (standsBehind_fragments hs)

/-- Contents are recognized as what their fragments say, and as nothing else. -/
theorem ofContents_eq_iff (contents : Text) (m : TagMatch) :
    TagMatch.ofContents contents = m ↔ Recognizes contents m := by
  constructor
  · rintro rfl
    exact recognizes_ofContents contents
  · exact Recognizes.ofContents_eq

end Recognition

/-- The fragment that is no literal equals the tag name, and its own place is reported. -/
example : TagMatch.ofContents "i18n i18n".toList =
    .malformed ⟨"i18n".toList, .notQuoted .message "i18n".toList, 5⟩ := by
  have hs : splitFragments "i18n i18n".toList = [⟨0, "i18n".toList⟩, ⟨5, "i18n".toList⟩] := by
    decide +kernel
  rw [TagMatch.ofContents, hs]
  decide

end TemplateCatalog
