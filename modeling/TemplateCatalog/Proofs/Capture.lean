/-
Every translation is captured exactly once.

The tokens of a template hold the fragments that are scanned (`Token.scanned`), and a call site
is a place in one of them at which `_(` stands outside of every quoted literal (`IsCallSite`).
The main result, `extract_captures_once`, says of every template whose extraction succeeds:

* the entries are those of the translation tags, and the notes those of the malformed ones, one
  for each such tag and in their order;
* the plain strings are, one for each call site and in their order, the texts between the
  quotes of the literals that follow the call sites directly;
* nothing else is a call site: not in text and comments, not in tag names and positional
  literals, not inside of literals, not from the keyword `as` on (`IsSilent`).
-/
import TemplateCatalog.Proofs.CallSite
import TemplateCatalog.Proofs.FragmentLayout
import TemplateCatalog.Proofs.Tokenization
import TemplateCatalog.Template.Extraction

namespace TemplateCatalog

open Text

/-! ### What is scanned -/

namespace Token

/-- What a token is as a tag; only blocks are translation tags. -/
def tagMatch (t : Token) : TagMatch :=
  match t.kind with
  | .tag .block => .ofContents t.contents
  | _ => .notI18n

/-- The entry of a translation tag. -/
def entry? (t : Token) : Option Entry :=
  match t.tagMatch with
  | .i18n entry _ => some entry
  | _ => none

/-- The note on a malformed tag. -/
def skipped? (t : Token) : Option SkippedTag :=
  match t.tagMatch with
  | .malformed tag => some ⟨tag, t.contentsOffset + tag.offset⟩
  | _ => none

/-- The fragments of the contents, at their bytes in the template. -/
def fragments (t : Token) : List Fragment :=
  (splitFragments t.contents).map (Fragment.shift t.contentsOffset)

/-- How many positional literals the family of the tag name has. -/
def slotCount (t : Token) : Nat :=
  match splitFragments t.contents with
  | [] => 0
  | name :: _ => ((I18nFamily.ofTagName? name.text).map (·.slots.length)).getD 0

/-- What follows the name and the positional literals. -/
def afterLiterals (t : Token) : List Fragment := t.fragments.drop (1 + t.slotCount)

/-- The fragments that are scanned for translations: a variable as a whole, the arguments of a
translation tag up to the keyword, and all that follows the name of any other block. -/
def scanned (t : Token) : List Fragment :=
  match t.kind with
  | .text => []
  | .tag .comment => []
  | .tag .variable => [⟨t.contentsOffset, t.contents⟩]
  | .tag .block =>
    if t.entry?.isSome then t.afterLiterals.takeWhile (·.text != bindingKeyword)
    else t.fragments.drop 1

/-- The call sites of the scanned fragments. -/
def callSites (t : Token) : List CallSite :=
  t.scanned.flatMap fun f => TemplateCatalog.callSites f.offset f.text

end Token

/-- At byte `i` a translation is called: `_(` stands there in a scanned fragment, outside of
every quoted literal. -/
def IsCallSite (template : Text) (i : Nat) : Prop :=
  ∃ t ∈ (tokenize template).tokens, ∃ f ∈ t.scanned, ∃ a r,
    f.text = a ++ (translationOpener ++ r) ∧ Outside f.text (translationOpener ++ r) ∧
      i = f.offset + byteSize a

/-- Where `_(` has no meaning. -/
inductive IsSilent (template : Text) (i : Nat) : Prop
  | text {t} : t ∈ (tokenize template).tokens → t.kind = .text → t.start ≤ i → i < t.stop →
      IsSilent template i
  | comment {t} : t ∈ (tokenize template).tokens → t.kind = .tag .comment → t.start ≤ i →
      i < t.stop → IsSilent template i
  /-- The name of a block. -/
  | name {t f} : t ∈ (tokenize template).tokens → t.kind = .tag .block →
      f ∈ t.fragments.take 1 →
      f.Covers i → IsSilent template i
  /-- A positional literal of a translation tag. -/
  | positional {t f} : t ∈ (tokenize template).tokens → t.entry?.isSome →
      f ∈ (t.fragments.drop 1).take t.slotCount → f.Covers i → IsSilent template i
  /-- The keyword `as`, or what follows it. -/
  | binding {t f} : t ∈ (tokenize template).tokens → t.entry?.isSome →
      f ∈ t.afterLiterals.dropWhile (·.text != bindingKeyword) → f.Covers i →
        IsSilent template i
  /-- The inside of a quoted literal, its quotes included. -/
  | literal {t f a l r} : t ∈ (tokenize template).tokens → f ∈ t.scanned →
      f.text = a ++ (Literal.toText l ++ r) → Outside f.text (Literal.toText l ++ r) →
        l.Complete →
      f.offset + byteSize a ≤ i → i < f.offset + byteSize a + byteSize l.toText →
      IsSilent template i

/-! ### The strings of a token -/

/-- The string is the text of the literal that follows the call site directly. -/
def CallSite.Gives (x : CallSite) (p : Text) : Prop := ∃ l, x.Calls l ∧ p = l.inner

/-- An expression that is accepted gives the strings of its call sites. -/
theorem gives_of_extractExpression {s : Text} {o : Nat} {x : Extraction}
    (h : extractExpression s o = .ok x) (base : Nat) :
    List.Forall₂ CallSite.Gives (callSites base s) x.plain ∧ x.contextual = [] ∧
      x.skipped = [] := by
  rw [extractExpression] at h
  split at h
  · rename_i e he
    rw [Except.ok.injEq] at h
    subst h
    refine ⟨?_, rfl, rfl⟩
    rw [← FilterExpression.toText_of_parse he]
    refine List.forall₂_map_right_iff.2 ?_
    exact (callSites_expression (FilterExpression.wellFormed_of_parse he) base).imp
      fun site l hl => ⟨l, hl, rfl⟩
  · exact absurd h (by simp)

/-- The keyword in front of a value has no call site. -/
theorem callSites_splitKeyword (base : Nat) (s : Text) :
    callSites base s = callSites (base + byteSize (splitKeyword s).1) (splitKeyword s).2 := by
  rw [splitKeyword]
  split
  · rename_i value hv
    split
    · rfl
    · have hs := List.takeWhile_append_dropWhile (p := isWordChar) (l := s)
      rw [hv] at hs
      conv => lhs; rw [← hs]
      -- The keyword is a run of word characters, and `=` is a sign: neither starts a call.
      rw [callSites_plain (fun c hc => plain_of_isWordChar (List.mem_takeWhile_imp hc))
        (by simp), callSites_sign (by decide) (by decide), byteSize_append, byteSize_cons,
        byteSize_nil]
      rw [Nat.add_zero, Nat.add_assoc]
  · rfl

theorem gives_of_extractFragment {base : Nat} {f : Fragment} {x : Extraction}
    (h : extractFragment base f = .ok x) :
    List.Forall₂ CallSite.Gives (callSites (base + f.offset) f.text) x.plain ∧
      x.contextual = [] ∧ x.skipped = [] := by
  rw [extractFragment] at h
  split at h
  · rw [callSites_splitKeyword]
    exact gives_of_extractExpression h _
  · rename_i hn
    rw [Except.ok.injEq] at h
    subst h
    rw [callSites_eq_nil (by simpa using hn)]
    exact ⟨.nil, rfl, rfl⟩

theorem gives_of_extractFragments {base : Nat} {fs : List Fragment} {x : Extraction}
    (h : extractFragments base fs = .ok x) :
    List.Forall₂ CallSite.Gives
        ((fs.map (Fragment.shift base)).flatMap fun f => callSites f.offset f.text) x.plain ∧
      x.contextual = [] ∧ x.skipped = [] := by
  induction fs generalizing x with
  | nil =>
    rw [extractFragments, Except.ok.injEq] at h
    subst h
    exact ⟨.nil, rfl, rfl⟩
  | cons f fs ih =>
    rw [extractFragments] at h
    split at h
    · exact absurd h (by simp)
    · rename_i y hy
      obtain ⟨z, hz, rfl⟩ := eq_ok_of_map h
      obtain ⟨hp, hc, hs⟩ := gives_of_extractFragment hy
      obtain ⟨hp', hc', hs'⟩ := ih hz
      refine ⟨?_, by simp [hc, hc'], by simp [hs, hs']⟩
      rw [List.map_cons, List.flatMap_cons, Extraction.plain_append]
      exact List.rel_append hp hp'

/-- The slots are filled from as many fragments in front. -/
theorem fillSlots_rest {size : Nat} {e e' : Entry} {ss : List Slot} {fs rest : List Fragment}
    (h : fillSlots size e ss fs = .ok (e', rest)) : rest = fs.drop ss.length := by
  induction ss generalizing e fs with
  | nil =>
    rw [fillSlots, Except.ok.injEq, Prod.mk.injEq] at h
    exact h.2.symm
  | cons s ss ih =>
    cases fs with
    | nil => exact absurd h (by simp [fillSlots])
    | cons f fs =>
      rw [fillSlots] at h
      split at h
      · exact absurd h (by simp)
      · simpa using ih h

/-- The arguments of a translation tag: what follows its literals, up to the keyword. -/
theorem arguments_of_ofContents {contents : Text} {e : Entry} {arguments : List Fragment}
    (h : TagMatch.ofContents contents = .i18n e arguments) :
    ∃ name fs family, splitFragments contents = name :: fs ∧
      I18nFamily.ofTagName? name.text = some family ∧
      arguments = (fs.drop family.slots.length).takeWhile (·.text != bindingKeyword) := by
  unfold TagMatch.ofContents TagMatch.ofFragments at h
  split at h
  · exact absurd h (by simp)
  · rename_i name fs hs
    split at h
    · exact absurd h (by simp)
    · rename_i family hf
      split at h
      · exact absurd h (by simp)
      · rename_i entry rest hr
        simp only [TagMatch.i18n.injEq] at h
        refine ⟨name, fs, family, hs, hf, ?_⟩
        rw [← h.2, fillSlots_rest hr]

/-- What a token gives: its entry, its note, and the strings of its call sites. -/
structure Captures (t : Token) (x : Extraction) : Prop where
  contextual : x.contextual = t.entry?.toList
  skipped : x.skipped = t.skipped?.toList
  plain : List.Forall₂ CallSite.Gives t.callSites x.plain

theorem scanned_block {t : Token} (hk : t.kind = .tag .block) (he : t.entry? = none) :
    t.scanned =
      ((splitFragments t.contents).drop 1).map (Fragment.shift t.contentsOffset) := by
  rw [Token.scanned, hk]
  simp [he, Token.fragments]

theorem scanned_i18n {t : Token} (hk : t.kind = .tag .block) {e : Entry}
    {arguments : List Fragment} (h : TagMatch.ofContents t.contents = .i18n e arguments) :
    t.scanned = arguments.map (Fragment.shift t.contentsOffset) := by
  -- The tag knows its family by the name, and with it the number of its literals.
  obtain ⟨name, fs, family, hs, hf, rfl⟩ := arguments_of_ofContents h
  have he : t.entry?.isSome = true := by
    rw [Token.entry?, Token.tagMatch, hk, h]
    rfl
  have hc : t.slotCount = family.slots.length := by
    rw [Token.slotCount, hs]
    simp [hf]
  rw [Token.scanned, hk]
  simp only [he, if_true]
  rw [Token.afterLiterals, Token.fragments, hs, hc, Nat.add_comm, List.map_cons,
    List.drop_succ_cons, ← List.map_drop, List.takeWhile_map]
  rfl

theorem captures_block {t : Token} (hk : t.kind = .tag .block) {x : Extraction}
    (h : extractBlock t.contents t.contentsOffset = .ok x) : Captures t x := by
  have hm : t.tagMatch = .ofContents t.contents := by rw [Token.tagMatch, hk]
  unfold extractBlock at h
  dsimp only at h
  -- The three matches of a tag differ in what stands in front of the fragments: nothing, an
  -- entry, or a note.
  split at h
  · rename_i hn
    have he : t.entry? = none := by rw [Token.entry?, hm, hn]
    obtain ⟨hp, hc, hs⟩ := gives_of_extractFragments h
    refine ⟨by rw [hc, he]; rfl, by rw [hs, Token.skipped?, hm, hn]; rfl, ?_⟩
    rw [Token.callSites, scanned_block hk he]
    exact hp
  · rename_i entry arguments hn
    have he : t.entry? = some entry := by rw [Token.entry?, hm, hn]
    obtain ⟨y, hy, rfl⟩ := eq_ok_of_map h
    obtain ⟨hp, hc, hs⟩ := gives_of_extractFragments hy
    refine ⟨by simp [hc, he], by simp [hs, Token.skipped?, hm, hn], ?_⟩
    rw [Token.callSites, scanned_i18n hk hn]
    simpa using hp
  · rename_i tag hn
    have he : t.entry? = none := by rw [Token.entry?, hm, hn]
    obtain ⟨y, hy, rfl⟩ := eq_ok_of_map h
    obtain ⟨hp, hc, hs⟩ := gives_of_extractFragments hy
    refine ⟨by simp [hc, he], by simp [hs, Token.skipped?, hm, hn], ?_⟩
    rw [Token.callSites, scanned_block hk he]
    simpa using hp

theorem captures_of_extractToken {t : Token} {x : Extraction} (h : extractToken t = .ok x) :
    Captures t x := by
  rw [extractToken] at h
  -- Texts and comments give nothing; a variable is one expression.
  split at h
  · rename_i hk
    rw [Except.ok.injEq] at h
    subst h
    refine ⟨by simp [Token.entry?, Token.tagMatch, hk],
      by simp [Token.skipped?, Token.tagMatch, hk], ?_⟩
    rw [Token.callSites, Token.scanned, hk]
    exact .nil
  · rename_i hk
    rw [Except.ok.injEq] at h
    subst h
    refine ⟨by simp [Token.entry?, Token.tagMatch, hk],
      by simp [Token.skipped?, Token.tagMatch, hk], ?_⟩
    rw [Token.callSites, Token.scanned, hk]
    exact .nil
  · rename_i hk
    obtain ⟨hp, hc, hs⟩ := gives_of_extractExpression h t.contentsOffset
    refine ⟨by simp [hc, Token.entry?, Token.tagMatch, hk],
      by simp [hs, Token.skipped?, Token.tagMatch, hk], ?_⟩
    rw [Token.callSites, Token.scanned, hk]
    simpa using hp
  · rename_i hk
    exact captures_block hk h

/-- What is extracted from tokens is what each of them gives, in order. -/
theorem captures_of_extractTokens {ts : List Token} {x : Extraction}
    (h : extractTokens ts = .ok x) :
    x.contextual = ts.filterMap Token.entry? ∧ x.skipped = ts.filterMap Token.skipped? ∧
      List.Forall₂ CallSite.Gives (ts.flatMap Token.callSites) x.plain := by
  induction ts generalizing x with
  | nil =>
    rw [extractTokens, Except.ok.injEq] at h
    subst h
    exact ⟨rfl, rfl, .nil⟩
  | cons t ts ih =>
    rw [extractTokens] at h
    split at h
    · exact absurd h (by simp)
    · rename_i y hy
      obtain ⟨z, hz, rfl⟩ := eq_ok_of_map h
      have ht := captures_of_extractToken hy
      obtain ⟨hc, hs, hp⟩ := ih hz
      -- What a token gives stands in front of what the later tokens give.
      refine ⟨?_, ?_, ?_⟩
      · rw [Extraction.contextual_append, ht.contextual, hc, List.filterMap_cons]
        cases t.entry? <;> rfl
      · rw [Extraction.skipped_append, ht.skipped, hs, List.filterMap_cons]
        cases t.skipped? <;> rfl
      · rw [List.flatMap_cons, Extraction.plain_append]
        exact List.rel_append ht.plain hp

theorem extractTokens_of_extract {template : Text} {x : Extraction}
    (h : extract template = .ok x) : extractTokens (tokenize template).tokens = .ok x := by
  unfold extract at h
  dsimp only at h
  split at h
  · exact absurd h (by simp)
  · exact absurd h (by simp)
  · rename_i hx _
    rw [hx, h]

/-! ### Where call sites lie -/

namespace Token

/-- The contents of a variable or a block lie inside of the token. -/
theorem contents_bounds {t : Token} (hk : t.kind = .tag .variable ∨ t.kind = .tag .block) :
    t.start ≤ t.contentsOffset ∧ t.contentsOffset + byteSize t.contents ≤ t.stop ∧
      ∀ {template r : Text}, At template t.start (t.source ++ r) →
        ∃ r', At template t.contentsOffset (t.contents ++ r') := by
  obtain ⟨k, hkind, hcontents⟩ : ∃ k, t.kind = .tag k ∧ t.contents = trim t.body := by
    rcases hk with h | h
    · exact ⟨_, h, by rw [contents, h]⟩
    · exact ⟨_, h, by rw [contents, h]⟩
  have hsource : t.source = k.opener ++ t.body ++ k.closer := by
    rw [source, hkind]
    rfl
  -- In front of the contents stand the opener and blanks, behind them blanks and the closer.
  obtain ⟨back, hbody, -⟩ := leadingBlanks_append_trim t.body
  rw [← hcontents] at hbody
  cases hc : t.contents with
  | nil =>
    -- Empty contents are placed at the start of the token.
    have ho : t.contentsOffset = t.start := by simp [contentsOffset, hc]
    rw [ho, stop]
    exact ⟨Nat.le_refl _, by simp, fun {_ r} h => ⟨t.source ++ r, by simpa using h⟩⟩
  | cons c s =>
    have ho : t.contentsOffset = t.start + byteSize k.opener +
        byteSize (leadingBlanks t.body) := by
      simp [contentsOffset, hc, hkind]
    have hsize : byteSize t.body = byteSize (leadingBlanks t.body) +
        (byteSize t.contents + byteSize back) := by
      conv => lhs; rw [hbody]
      rw [byteSize_append, byteSize_append]
    rw [← hc, ho]
    refine ⟨by omega, ?_, fun {template r} h => ⟨back ++ k.closer ++ r, ?_⟩⟩
    · rw [stop, hsource, byteSize_append, byteSize_append]
      omega
    · rw [hsource, hbody] at h
      refine At.add (At.add (t := k.opener) ?_)
      simpa only [List.append_assoc] using h

theorem kind_of_entry? {t : Token} (h : t.entry?.isSome) : t.kind = .tag .block := by
  rw [Token.entry?, Token.tagMatch] at h
  split at h
  · rename_i hm
    split at hm
    · assumption
    · exact absurd hm (by simp)
  · exact absurd h (by simp)

/-- The fragments of a block lie one after another inside of the token. -/
theorem fragments_spread {t : Token} (hk : t.kind = .tag .block) :
    Spread t.start t.fragments t.stop := by
  obtain ⟨hlo, hhi, -⟩ := contents_bounds (Or.inr hk)
  have hs := (splitFragments_spread t.contents).shift t.contentsOffset
  rw [Nat.add_zero] at hs
  exact hs.widen hlo hhi

/-- What is scanned of a block stands behind its name. -/
theorem scanned_sublist {t : Token} (hk : t.kind = .tag .block) :
    t.scanned.Sublist (t.fragments.drop 1) := by
  rw [scanned, hk]
  simp only
  split
  · refine (List.takeWhile_sublist _).trans ?_
    rw [afterLiterals, ← List.drop_drop]
    exact List.drop_sublist _ _
  · exact List.Sublist.refl _

theorem scanned_spread {t : Token} (ht : t.start ≤ t.stop) :
    Spread t.start t.scanned t.stop := by
  cases hk : t.kind with
  | text =>
    rw [scanned, hk]
    exact ht
  | tag k =>
    cases k with
    | comment =>
      rw [scanned, hk]
      exact ht
    | block =>
      exact (fragments_spread hk).sublist ((scanned_sublist hk).trans (List.drop_sublist _ _))
    | «variable» =>
      obtain ⟨hlo, hhi, -⟩ := contents_bounds (Or.inl hk)
      rw [scanned, hk]
      exact ⟨hlo, hhi⟩

/-- A scanned fragment stands in the template at its byte. -/
theorem scanned_at {template r : Text} {t : Token} (h : At template t.start (t.source ++ r))
    {f : Fragment} (hf : f ∈ t.scanned) : ∃ r, At template f.offset (f.text ++ r) := by
  cases hk : t.kind with
  | text =>
    rw [scanned, hk] at hf
    exact absurd hf (by simp)
  | tag k =>
    cases k with
    | comment =>
      rw [scanned, hk] at hf
      exact absurd hf (by simp)
    | block =>
      obtain ⟨-, -, hat⟩ := contents_bounds (Or.inr hk)
      obtain ⟨r', hr'⟩ := hat h
      -- A fragment of the contents, moved to where the contents start.
      have hf' := ((scanned_sublist hk).trans (List.drop_sublist _ _)).subset hf
      obtain ⟨g, hg, rfl⟩ := List.mem_map.1 hf'
      obtain ⟨u, hu⟩ := splitFragments_at hg
      refine ⟨u ++ r', hr'.trans ?_⟩
      rw [← List.append_assoc]
      exact hu.append_right r'
    | «variable» =>
      obtain ⟨-, -, hat⟩ := contents_bounds (Or.inl hk)
      rw [scanned, hk, List.mem_singleton] at hf
      subst hf
      exact hat h

end Token

theorem Spread.ascending {i j : Nat} {fs : List Fragment} (h : Spread i fs j) :
    Ascending i (offsets (fs.flatMap fun f => callSites f.offset f.text)) j := by
  induction fs generalizing i with
  | nil => exact ascending_nil _ _
  | cons f fs ih =>
    rw [List.flatMap_cons, offsets, List.map_append]
    refine Ascending.append ((callSites_ascending f.offset f.text).widen h.1 (Nat.le_refl _))
      (ih h.2) ?_ (Nat.le_refl _) h.2.le
    exact Nat.le_trans h.1 (Nat.le_add_right _ _)

theorem Tiles.ascending {i j : Nat} {ts : List Token} (h : Tiles i ts j) :
    Ascending i (offsets (ts.flatMap Token.callSites)) j := by
  induction ts generalizing i with
  | nil => exact ascending_nil _ _
  | cons t ts ih =>
    obtain ⟨rfl, hlt, hts⟩ := h
    rw [List.flatMap_cons, offsets, List.map_append]
    exact Ascending.append (Token.scanned_spread (Nat.le_of_lt hlt)).ascending (ih hts)
      (Nat.le_of_lt hlt) (Nat.le_refl _) hts.spread.le

theorem mem_offsets_iff {template : Text} {i : Nat} :
    i ∈ offsets ((tokenize template).tokens.flatMap Token.callSites) ↔
      IsCallSite template i := by
  simp only [offsets, List.mem_map, List.mem_flatMap, Token.callSites, mem_callSites_iff]
  constructor
  · rintro ⟨x, ⟨t, ht, f, hf, ho, a, ha, hx⟩, rfl⟩
    exact ⟨t, ht, f, hf, a, x.after, ha, ho, hx⟩
  · rintro ⟨t, ht, f, hf, a, r, ha, ho, rfl⟩
    exact ⟨⟨_, r⟩, ⟨t, ht, f, hf, ho, a, ha, rfl⟩, rfl⟩

/-- A call site stands in the template, its literal directly after it. -/
theorem at_of_calls {template : Text} {x : CallSite} {l : Literal}
    (hx : x ∈ (tokenize template).tokens.flatMap Token.callSites) (hl : x.Calls l) :
    l.Complete ∧ ∃ r, At template x.offset (translationOpener ++ (l.toText ++ r)) := by
  obtain ⟨t, ht, hx⟩ := List.mem_flatMap.1 hx
  obtain ⟨f, hf, hx⟩ := List.mem_flatMap.1 hx
  obtain ⟨-, a, ha, ho⟩ := mem_callSites_iff.1 hx
  have hz := (isTokenization_tokenize template).token_at ht
  obtain ⟨r, hr⟩ := hz
  obtain ⟨u, hu⟩ := Token.scanned_at hr hf
  obtain ⟨v, hv⟩ := hl
  obtain ⟨hafter, hcomplete⟩ := Literal.take?_eq_some_iff.1 hv
  refine ⟨hcomplete, v ++ u, ?_⟩
  rw [ho]
  refine At.add (t := a) ?_
  rw [ha, hafter] at hu
  simpa only [List.append_assoc] using hu

/-! ### Where no call site lies -/

theorem token_unique {template : Text} {t u : Token} (ht : t ∈ (tokenize template).tokens)
    (hu : u ∈ (tokenize template).tokens) {i : Nat} (hti : t.start ≤ i ∧ i < t.stop)
    (hui : u.start ≤ i ∧ i < u.stop) : t = u := by
  rcases pairwise_cases (isTokenization_tokenize template).tiles.pairwise ht hu with h | h | h
  · exact h
  · omega
  · omega

/-- A call site is covered by the token and the fragment that it is a call site of. -/
theorem IsCallSite.covers {template : Text} {i : Nat} (h : IsCallSite template i) :
    ∃ t ∈ (tokenize template).tokens, (t.start ≤ i ∧ i < t.stop) ∧ ∃ f ∈ t.scanned,
      f.Covers i ∧
      ∃ a r, f.text = a ++ (translationOpener ++ r) ∧ Outside f.text (translationOpener ++ r) ∧
        i = f.offset + byteSize a := by
  obtain ⟨t, ht, f, hf, a, r, ha, ho, rfl⟩ := h
  have hb := (Token.scanned_spread (Nat.le_add_right _ _)).bounds hf
  have hc : f.Covers (f.offset + byteSize a) := by
    refine ⟨Nat.le_add_right _ _, ?_⟩
    have hpos : 0 < byteSize translationOpener := by decide
    rw [Fragment.stop, ha, byteSize_append, byteSize_append]
    omega
  refine ⟨t, ht, ⟨?_, ?_⟩, f, hf, hc, a, r, ha, ho, rfl⟩
  · exact Nat.le_trans hb.1 hc.1
  · exact Nat.lt_of_lt_of_le hc.2 hb.2

/-- A call site is not covered by what stands in front of or behind what is scanned. -/
theorem IsCallSite.not_covers {template : Text} {i : Nat} (h : IsCallSite template i)
    {t : Token} (ht : t ∈ (tokenize template).tokens) (hk : t.kind = .tag .block)
    {g : Fragment} (hg : g ∈ t.fragments) (hi : g.Covers i)
    (hapart : ∀ f ∈ t.scanned, f.stop ≤ g.offset ∨ g.stop ≤ f.offset) : False := by
  obtain ⟨u, hu, hui, f, hf, hfi, -⟩ := h.covers
  -- The byte is in one token only, and there in `g` and in a scanned fragment.
  have hb := (Token.fragments_spread hk).bounds hg
  have hti : t.start ≤ i ∧ i < t.stop := by
    rw [Fragment.Covers] at hi
    omega
  obtain rfl := token_unique hu ht hui hti
  rw [Fragment.Covers] at hi hfi
  rcases hapart f hf with h | h <;> omega

/-- No call site is inside of a literal at a place outside of literals. -/
theorem not_call_in_literal {s a r b v : Text} {l : Literal} (ha : s = a ++ (l.toText ++ r))
    (hr : Outside s (l.toText ++ r)) (hl : l.Complete) (hb : s = b ++ (translationOpener ++ v))
    (hv : Outside s (translationOpener ++ v)) (h1 : byteSize a ≤ byteSize b)
    (h2 : byteSize b < byteSize a + byteSize l.toText) : False := by
  obtain ⟨m, n, hmn, hn, he⟩ := At.split (t := s) ⟨a, ha, rfl⟩ ⟨b, hb, rfl⟩ h1 h2
  have hlen := List.length_pos_iff.2 hn
  -- Of two places outside of literals, neither is inside of the literal at the other.
  rcases hr.not_inside (Literal.take?_toText_append hl r) hv with hle | hle
  · rw [he, hmn, List.length_append, List.length_append, List.length_append] at hle
    have hm : m = [] := List.length_eq_zero_iff.1 (by omega)
    rw [hm, List.nil_append] at hmn
    rw [← hmn] at he
    -- A literal starts with a quote, a call does not.
    have ht := take?_opener v
    rw [he, Literal.take?_toText_append hl r] at ht
    exact absurd ht (by simp)
  · rw [he, List.length_append] at hle
    omega

/-- Where `_(` has no meaning, no call site is. -/
theorem IsSilent.not_isCallSite {template : Text} {i : Nat} (hs : IsSilent template i) :
    ¬ IsCallSite template i := by
  intro h
  cases hs with
  | text ht hk h1 h2 =>
    obtain ⟨u, hu, hui, f, hf, -⟩ := h.covers
    obtain rfl := token_unique hu ht hui ⟨h1, h2⟩
    rw [Token.scanned, hk] at hf
    exact absurd hf (by simp)
  | comment ht hk h1 h2 =>
    obtain ⟨u, hu, hui, f, hf, -⟩ := h.covers
    obtain rfl := token_unique hu ht hui ⟨h1, h2⟩
    rw [Token.scanned, hk] at hf
    exact absurd hf (by simp)
  | @name t f ht hk hf hi =>
    -- The name is the first fragment, and what is scanned comes after it.
    refine h.not_covers ht hk (List.mem_of_mem_take hf) hi fun g hg => Or.inr ?_
    have hspread := Token.fragments_spread hk
    rw [← List.take_append_drop 1 t.fragments] at hspread
    exact hspread.before f hf g ((Token.scanned_sublist hk).subset hg)
  | @positional t f ht he hf hi =>
    have hk := Token.kind_of_entry? he
    refine h.not_covers ht hk (List.mem_of_mem_drop (List.mem_of_mem_take hf)) hi
      fun g hg => Or.inr ?_
    have hspread := (Token.fragments_spread hk).sublist (List.drop_sublist 1 t.fragments)
    rw [← List.take_append_drop t.slotCount (t.fragments.drop 1), List.drop_drop] at hspread
    rw [Token.scanned, hk] at hg
    simp only [he, if_true] at hg
    exact hspread.before f hf g ((List.takeWhile_sublist _).subset hg)
  | @binding t f ht he hf hi =>
    have hk := Token.kind_of_entry? he
    refine h.not_covers ht hk
      (List.mem_of_mem_drop ((List.dropWhile_sublist _).subset hf)) hi fun g hg => Or.inl ?_
    have hspread := (Token.fragments_spread hk).sublist (List.drop_sublist (1 + t.slotCount) _)
    rw [← Token.afterLiterals,
      ← List.takeWhile_append_dropWhile (l := t.afterLiterals)] at hspread
    rw [Token.scanned, hk] at hg
    simp only [he, if_true] at hg
    exact hspread.before g hg f hf
  | @literal t f a l r ht hf ha ho hl h1 h2 =>
    obtain ⟨u, hu, hui, g, hg, hgi, b, v, hb, hv, hi⟩ := h.covers
    have hspread := Token.scanned_spread (t := t) (Nat.le_add_right _ _)
    -- The call site lies in the same scanned fragment as the literal.
    have hfi : f.Covers i := by
      refine ⟨by omega, ?_⟩
      rw [Fragment.stop, ha, byteSize_append, byteSize_append]
      omega
    have hbounds := hspread.bounds hf
    rw [Fragment.Covers] at hfi
    obtain rfl := token_unique hu ht hui ⟨by omega, by omega⟩
    obtain rfl := hspread.unique hf hg hfi hgi
    exact not_call_in_literal ha ho hl hb hv (by omega) (by omega)

/-! ### The main result -/

/-- **Every translation is captured exactly once.** The entries and the notes are those of the
tags, and the plain strings are the texts of the literals at the call sites, each in the order
of the template. -/
theorem extract_captures_once {template : Text} {x : Extraction}
    (h : extract template = .ok x) :
    x.contextual = (tokenize template).tokens.filterMap Token.entry? ∧
    x.skipped = (tokenize template).tokens.filterMap Token.skipped? ∧
    (∃ sites : List Nat, sites.Pairwise (· < ·) ∧ (∀ i, i ∈ sites ↔ IsCallSite template i) ∧
      List.Forall₂ (fun i p => ∃ l : Literal, l.Complete ∧ p = l.inner ∧
        ∃ r, At template i (translationOpener ++ (l.toText ++ r))) sites x.plain) ∧
    ∀ i, IsSilent template i → ¬ IsCallSite template i := by
  obtain ⟨hc, hs, hp⟩ := captures_of_extractTokens (extractTokens_of_extract h)
  refine ⟨hc, hs, ⟨offsets ((tokenize template).tokens.flatMap Token.callSites), ?_,
    fun i => mem_offsets_iff, ?_⟩, fun i hi => hi.not_isCallSite⟩
  · exact (isTokenization_tokenize template).tiles.ascending.sorted
  · refine List.forall₂_map_left_iff.2 ?_
    -- Each string belongs to a call site of the list, which stands in the template.
    have hall := (List.forall₂_and_left _ _).2 ⟨fun site hsite => hsite, hp⟩
    refine hall.imp fun site p hsite => ?_
    obtain ⟨hmem, l, hl, rfl⟩ := hsite
    obtain ⟨hcomplete, hat⟩ := at_of_calls hmem hl
    exact ⟨l, hcomplete, rfl, hat⟩

/-! ### One call of three -/

/-- A tag with `_(` in its positional literal, in an argument, and behind the keyword. -/
def threeCalls : Text := "\x7b% i18n '_(' k=_('b') as _('c') %\x7d".toList

theorem tagMatch_threeCalls : TagMatch.ofContents "i18n '_(' k=_('b') as _('c')".toList =
    .i18n ⟨['_', '('], [], []⟩ [⟨10, "k=_('b')".toList⟩] := by
  have hs : splitFragments "i18n '_(' k=_('b') as _('c')".toList =
      [⟨0, "i18n".toList⟩, ⟨5, "'_('".toList⟩, ⟨10, "k=_('b')".toList⟩, ⟨19, "as".toList⟩,
        ⟨22, "_('c')".toList⟩] := by decide +kernel
  rw [TagMatch.ofContents, hs]
  decide

theorem extractFragment_threeCalls (base : Nat) :
    extractFragment base ⟨10, "k=_('b')".toList⟩ = .ok ⟨[['b']], [], []⟩ := by
  have ho : occurs translationOpener "k=_('b')".toList = true := by decide
  have hk : splitKeyword "k=_('b')".toList = ("k=".toList, "_('b')".toList) := by decide
  have hp : FilterExpression.parse "_('b')".toList =
      .ok ⟨some (.translation ⟨.single, ['b']⟩), []⟩ := by decide +kernel
  simp only [extractFragment, ho, if_true, hk, extractExpression, hp]
  rfl

theorem extract_threeCalls :
    extract threeCalls = .ok ⟨[['b']], [⟨['_', '('], [], []⟩], []⟩ := by
  have hz : tokenize threeCalls =
      ⟨[⟨.tag .block, " i18n '_(' k=_('b') as _('c') ".toList, 0⟩], none⟩ := by decide +kernel
  have ht : trim " i18n '_(' k=_('b') as _('c') ".toList =
      "i18n '_(' k=_('b') as _('c')".toList := by decide
  simp only [extract, hz, extractTokens, extractToken, extractBlock, Token.contents, ht,
    tagMatch_threeCalls, extractFragments, extractFragment_threeCalls]
  rfl

/-- Of the three, only the call in the argument is a call site. -/
theorem extract_captures_once_threeCalls :
    extract threeCalls = .ok ⟨[['b']], [⟨['_', '('], [], []⟩], []⟩ ∧
      ∃ i, (∀ j, IsCallSite threeCalls j ↔ j = i) ∧
        ∃ (l : Literal) (r : Text), l.inner = ['b'] ∧
          At threeCalls i (translationOpener ++ (l.toText ++ r)) := by
  refine ⟨extract_threeCalls, ?_⟩
  obtain ⟨-, -, ⟨sites, -, hsites, hall⟩, -⟩ := extract_captures_once extract_threeCalls
  obtain ⟨i, rest, ⟨l, -, hl, r, hr⟩, hrest, rfl⟩ := List.forall₂_cons_right_iff.1 hall
  obtain rfl := List.forall₂_nil_right_iff.1 hrest
  exact ⟨i, fun j => by rw [← hsites, List.mem_singleton], l, r, hl.symm, hr⟩

end TemplateCatalog
