/-
The bytes that errors and notes name.

An expression that cannot be read is reported with its text and a byte of the template, and a
translation tag that is skipped with a byte as well. The main result,
`reported_offsets_faithful`, says that both are places of what they are about:

* the expression stands in the contents of the token that ends the extraction, reading it alone
  stops at the reported byte with the reported fault, and the input that a fault quotes stands
  there (`ExpressionFault`);
* the bytes of the notes grow, each lies inside of its own block, and there stands the fragment
  that is no literal, or the contents end (`SkippedTag.PointsInto`).

The byte of an error is the sum of four: where the contents of the token start, where the
fragment stands in them, how long the keyword in front of the value is, and how far the value
was read. The last is the place where a reader stops, `FilterStop.IsIn`; the others are places
in texts, `At`, and add up by `At.trans`.
-/
import TemplateCatalog.Proofs.Faults

namespace TemplateCatalog

open Text

/-! ### Where reading stops -/

/-- Reading stopped at a place in `s`, and a fault that quotes its input quotes the text from
there on. -/
structure FilterStop.IsIn (stop : FilterStop) (s : Text) : Prop where
  suffix : stop.rest <:+ s
  input : ∀ input, stop.fault = .unexpectedInput input → stop.rest = input

theorem FilterStop.IsIn.of_suffix {stop : FilterStop} {s t : Text} (h : stop.IsIn s)
    (hs : s <:+ t) : stop.IsIn t := ⟨h.suffix.trans hs, h.input⟩

/-- A fault other than unexpected input quotes nothing. -/
theorem FilterStop.IsIn.of_ne {fault : FilterFault} {r s : Text} (hr : r <:+ s)
    (hf : ∀ input, fault ≠ .unexpectedInput input) : FilterStop.IsIn ⟨fault, r⟩ s :=
  ⟨hr, fun input h => absurd h (hf input)⟩

theorem isIn_of_readTranslation {s : Text} {stop : FilterStop}
    (h : readTranslation s = .error stop) : stop.IsIn s := by
  rw [readTranslation] at h
  split at h
  · split at h
    · obtain rfl := Except.error.inj h
      exact .of_ne List.suffix_rfl (by simp)
    · exact absurd h (by simp)
    · rename_i l r hl _
      obtain rfl := Except.error.inj h
      exact .of_ne ⟨_, (Literal.take?_eq_some ‹_›).symm⟩ (by simp)
  · obtain rfl := Except.error.inj h
    exact .of_ne List.suffix_rfl (by simp)

theorem isIn_of_readPlainOperand {s : Text} {stop : FilterStop}
    (h : readPlainOperand s = .error stop) : stop.IsIn s := by
  rw [readPlainOperand] at h
  split at h
  · split at h
    · obtain rfl := Except.error.inj h
      exact .of_ne List.suffix_rfl (by simp)
    · exact absurd h (by simp)
  · have hv := takeVariable_append s
    split at h
    · obtain rfl := Except.error.inj h
      exact .of_ne List.nil_suffix (by simp)
    · rename_i r _ hr
      rw [hr] at hv
      obtain rfl := Except.error.inj h
      exact ⟨⟨[], hv⟩, fun input hi => FilterFault.unexpectedInput.inj hi⟩
    · exact absurd h (by simp)

theorem isIn_of_readOperand {s : Text} {stop : FilterStop} (h : readOperand s = .error stop) :
    stop.IsIn s := by
  unfold readOperand at h
  split at h
  · exact (isIn_of_readTranslation h).of_suffix (List.suffix_append translationOpener _)
  · exact isIn_of_readPlainOperand h

theorem error_of_map_eq_error {α β : Type} {f : α → β} {r : Except FilterStop α}
    {stop : FilterStop} (h : r.map f = .error stop) : r = .error stop := by
  cases r with
  | error e => simpa [Except.map] using h
  | ok a => exact absurd h (by simp [Except.map])

theorem isIn_of_readFilters {s : Text} {stop : FilterStop} (h : readFilters s = .error stop) :
    stop.IsIn s := by
  -- Each filter is taken off the front, so what is left for the next one is a rest of the
  -- whole.
  fun_induction readFilters s with
  | case1 => exact absurd h (by simp)
  | case2 r hn =>
    obtain rfl := Except.error.inj h
    exact .of_ne (List.suffix_cons _ _) (by simp)
  | case3 r t hr e he _ =>
    obtain rfl := Except.error.inj h
    have hs : ':' :: t <:+ r := hr ▸ List.dropWhile_suffix isWordChar
    exact (isIn_of_readOperand he).of_suffix
      (((List.suffix_cons _ _).trans hs).trans (List.suffix_cons _ _))
  | case4 r t hr a u he _ ih =>
    have hs : ':' :: t <:+ r := hr ▸ List.dropWhile_suffix isWordChar
    have hu : u <:+ t := ⟨a.toText, (readOperand_append he).symm⟩
    exact (ih (error_of_map_eq_error h)).of_suffix
      ((hu.trans ((List.suffix_cons _ _).trans hs)).trans (List.suffix_cons _ _))
  | case5 r _ _ ih =>
    exact (ih (error_of_map_eq_error h)).of_suffix
      ((List.dropWhile_suffix isWordChar).trans (List.suffix_cons _ _))
  | case6 c r hc =>
    obtain rfl := Except.error.inj h
    exact ⟨List.suffix_rfl, fun input hi => FilterFault.unexpectedInput.inj hi⟩

theorem isIn_of_read {s : Text} {stop : FilterStop}
    (h : FilterExpression.read s = .error stop) : stop.IsIn s := by
  rw [FilterExpression.read] at h
  split at h
  · exact isIn_of_readFilters (error_of_map_eq_error h)
  · split at h
    · rename_i e he
      obtain rfl := Except.error.inj h
      exact isIn_of_readOperand he
    · rename_i o r ho
      exact (isIn_of_readFilters (error_of_map_eq_error h)).of_suffix
        ⟨o.toText, (readOperand_append ho).symm⟩

/-- The position of an error is a place in the text, and the input that it quotes stands
there. -/
theorem at_position {s : Text} {e : FilterError} (h : FilterExpression.parse s = .error e) :
    ∃ r, At s e.position r ∧ ∀ input, e.fault = .unexpectedInput input → r = input := by
  rw [FilterExpression.parse] at h
  split at h
  · exact absurd h (by simp)
  · rename_i stop hstop
    obtain rfl := Except.error.inj h
    obtain ⟨⟨front, hfront⟩, hinput⟩ := isIn_of_read hstop
    refine ⟨stop.rest, ⟨front, hfront.symm, ?_⟩, hinput⟩
    show byteSize front = byteSize s - byteSize stop.rest
    rw [← hfront, byteSize_append]
    omega

/-! ### Where fragments stand -/

/-- A scanned fragment stands in the contents of its token. -/
theorem Token.scanned_in_contents {t : Token} {f : Fragment} (hf : f ∈ t.scanned) :
    ∃ n r, At t.contents n (f.text ++ r) ∧ f.offset = t.contentsOffset + n := by
  cases hk : t.kind with
  | text =>
    rw [scanned, hk] at hf
    exact absurd hf (by simp)
  | tag k =>
    cases k with
    | comment =>
      rw [scanned, hk] at hf
      exact absurd hf (by simp)
    | «variable» =>
      rw [scanned, hk, List.mem_singleton] at hf
      subst hf
      exact ⟨0, [], by simpa using At.start t.contents, rfl⟩
    | block =>
      have hmem := ((scanned_sublist hk).trans (List.drop_sublist _ _)).subset hf
      obtain ⟨g, hg, rfl⟩ := List.mem_map.1 hmem
      obtain ⟨r, hr⟩ := splitFragments_at hg
      exact ⟨g.offset, r, hr, rfl⟩

/-- Contents that are not empty stand inside of the delimiters. -/
theorem Token.contents_inside {t : Token} (hk : t.kind = .tag .variable ∨ t.kind = .tag .block)
    (hne : t.contents ≠ []) :
    t.start < t.contentsOffset ∧ t.contentsOffset + byteSize t.contents < t.stop := by
  obtain ⟨k, hkind, hcontents⟩ : ∃ k, t.kind = .tag k ∧ t.contents = trim t.body := by
    rcases hk with h | h
    · exact ⟨_, h, by rw [contents, h]⟩
    · exact ⟨_, h, by rw [contents, h]⟩
  have ho : t.contentsOffset = t.start + byteSize k.opener +
      byteSize (leadingBlanks t.body) := by
    obtain ⟨c, s, hc⟩ := List.exists_cons_of_ne_nil hne
    simp [contentsOffset, hc, hkind]
  obtain ⟨back, hbody, -⟩ := leadingBlanks_append_trim t.body
  have hsize := congrArg byteSize hbody
  rw [← hcontents, byteSize_append, byteSize_append] at hsize
  have hstop :
      t.stop = t.start + (byteSize k.opener + byteSize t.body + byteSize k.closer) := by
    rw [stop, source, hkind, byteSize_append, byteSize_append]
    rfl
  have hopener : byteSize k.opener = 2 := by cases k <;> decide
  have hcloser : byteSize k.closer = 2 := by cases k <;> decide
  omega

/-! ### Expressions that cannot be read -/

/-- The token ends the extraction of the template with the error: what stands in front of it is
extracted. -/
def Token.Fails (template : Text) (t : Token) (e : SyntaxError) : Prop :=
  ∃ front back x, (tokenize template).tokens = front ++ t :: back ∧
    extractTokens front = .ok x ∧
    extractToken t = .error e

/-- The expression stands at byte `i` in the contents of the token, and reading it alone stops
at byte `offset` of the template with the fault. -/
structure ExpressionFault (template : Text) (t : Token) (i : Nat) (expression : Text)
    (offset : Nat) (fault : FilterFault) : Prop where
  kind : t.kind = .tag .variable ∨ t.kind = .tag .block
  stands : ∃ r, At template i (expression ++ r)
  inside : ∃ n r, At t.contents n (expression ++ r) ∧ i = t.contentsOffset + n
  range : i ≤ offset ∧ offset ≤ i + byteSize expression
  read : FilterExpression.parse expression = .error ⟨offset - i, fault⟩
  /-- The input that the fault quotes stands at the byte of the error. -/
  input : ∀ input, fault = .unexpectedInput input → ∃ r, At template offset (input ++ r)

variable {template : Text} {t : Token}

/-- An expression in the contents of a token of the template is reported where it stands. -/
theorem expressionFault_of_at (ht : t ∈ (tokenize template).tokens)
    (hk : t.kind = .tag .variable ∨ t.kind = .tag .block) {s r : Text} {n : Nat}
    (hs : At t.contents n (s ++ r)) {e : FilterError}
    (he : FilterExpression.parse s = .error e) :
    ExpressionFault template t (t.contentsOffset + n) s (t.contentsOffset + n + e.position)
    e.fault := by
  obtain ⟨u, hu⟩ := (isTokenization_tokenize template).token_at ht
  obtain ⟨-, -, hcontents⟩ := Token.contents_bounds hk
  obtain ⟨v, hv⟩ := hcontents hu
  have hstands : At template (t.contentsOffset + n) (s ++ (r ++ v)) := by
    rw [← List.append_assoc]
    exact hv.trans (hs.append_right v)
  obtain ⟨w, hw, hinput⟩ := at_position he
  refine ⟨hk, ⟨_, hstands⟩, ⟨n, r, hs, rfl⟩, ⟨Nat.le_add_right _ _, ?_⟩, ?_, fun input hi =>
    ?_⟩
  · exact Nat.add_le_add_left (position_le_byteSize he) _
  · rw [Nat.add_sub_cancel_left]
    exact he
  · rw [← hinput input hi]
    exact ⟨_, hstands.trans (hw.append_right _)⟩

/-- What a token of the template offends with is reported where it stands. -/
theorem Token.Offends.expressionFault (ht : t ∈ (tokenize template).tokens) {s : Text}
    {o : Nat} {fault : FilterFault} (h : t.Offends (.unparsableExpression s o fault)) :
    ∃ i, ExpressionFault template t i s o fault := by
  generalize he : SyntaxError.unparsableExpression s o fault = e at h
  cases h with
  | @«variable» e hk hp =>
    rw [SyntaxError.unparsableExpression.injEq] at he
    obtain ⟨rfl, rfl, rfl⟩ := he
    have hs : At t.contents 0 (t.contents ++ []) := by
      rw [List.append_nil]
      exact At.start _
    exact ⟨_, expressionFault_of_at ht (Or.inl hk) hs hp⟩
  | @block f e hk hf hr =>
    rw [Fragment.fault, SyntaxError.unparsableExpression.injEq] at he
    obtain ⟨rfl, rfl, rfl⟩ := he
    -- The value stands behind the keyword, and the fragment in the contents of the token.
    obtain ⟨n, r, hn, ho⟩ := Token.scanned_in_contents hf
    rw [← splitKeyword_append f.text, List.append_assoc] at hn
    have hfault := expressionFault_of_at ht (Or.inr hk) hn.add hr.2
    rw [ho, Nat.add_assoc t.contentsOffset n]
    exact ⟨_, hfault⟩

/-- An expression is reported only by a token. -/
theorem fails_of_extract {s : Text} {o : Nat} {fault : FilterFault}
    (h : extract template = .error (.unparsableExpression s o fault)) :
    ∃ t, Token.Fails template t (.unparsableExpression s o fault) := by
  rw [extract] at h
  split at h
  · rename_i e _ he
    obtain rfl := Except.error.inj h
    rw [extractTokens_eq_collect] at he
    obtain ⟨front, t, back, x, htokens, hfront, ht⟩ := collect_eq_error_iff.1 he
    rw [← extractTokens_eq_collect] at hfront
    exact ⟨t, front, back, x, htokens, hfront, ht⟩
  · rename_i u _ _
    rw [Except.error.injEq, UnterminatedTag.toSyntaxError] at h
    exact absurd h (by simp)
  · exact absurd h (by simp)

theorem Token.Fails.mem {e : SyntaxError} (h : Token.Fails template t e) :
    t ∈ (tokenize template).tokens := by
  obtain ⟨front, back, x, htokens, -⟩ := h
  simp [htokens]

/-! ### Tags that are skipped -/

/-- A slot that cannot be filled is reported at the fragment in its place, or at the end. -/
theorem fillSlots_eq_error {size : Nat} {e : Entry} {ss : List Slot} {fs : List Fragment}
    {reason : MalformedReason} {o : Nat} (h : fillSlots size e ss fs = .error (reason, o)) :
    (∃ slot, reason = .missingArgument slot ∧ o = size) ∨
      ∃ f ∈ fs, ∃ slot, reason = .notQuoted slot f.text ∧ o = f.offset := by
  fun_induction fillSlots size e ss fs with
  | case1 => exact absurd h (by simp)
  | case2 e s ss =>
    rw [Except.error.injEq, Prod.mk.injEq] at h
    exact Or.inl ⟨s, h.1.symm, h.2.symm⟩
  | case3 e s ss f fs hl =>
    rw [Except.error.injEq, Prod.mk.injEq] at h
    exact Or.inr ⟨f, List.mem_cons_self .., s, h.1.symm, h.2.symm⟩
  | case4 e s ss f fs l hl ih =>
    rcases ih h with hmissing | ⟨g, hg, hreason⟩
    · exact Or.inl hmissing
    · exact Or.inr ⟨g, List.mem_cons_of_mem _ hg, hreason⟩

/-- A malformed tag names a place in its contents. -/
theorem malformed_at {contents : Text} {tag : MalformedTag}
    (h : TagMatch.ofContents contents = .malformed tag) :
    contents ≠ [] ∧
      ((∃ slot, tag.reason = .missingArgument slot ∧ tag.offset = byteSize contents) ∨
        ∃ slot f r, tag.reason = .notQuoted slot f ∧ At contents tag.offset (f ++ r)) := by
  unfold TagMatch.ofContents TagMatch.ofFragments at h
  split at h
  · exact absurd h (by simp)
  · rename_i name fs hs
    have hne : contents ≠ [] := by
      rintro rfl
      exact absurd hs (by rw [splitFragments, Splitter.fragments_of_none rfl]; simp)
    split at h
    · exact absurd h (by simp)
    · split at h
      · rename_i reason o ho
        rw [TagMatch.malformed.injEq] at h
        subst h
        refine ⟨hne, (fillSlots_eq_error ho).imp id ?_⟩
        rintro ⟨f, hf, slot, hreason, rfl⟩
        -- The fragment that is not quoted is one of the contents, so it stands where it was
        -- found.
        have hmem : f ∈ splitFragments contents := hs ▸ List.mem_cons_of_mem _ hf
        obtain ⟨r, hr⟩ := splitFragments_at hmem
        exact ⟨slot, f.text, r, hreason, hr⟩
      · exact absurd h (by simp)

/-- The note is that of the token, its byte lies inside of the token, and there stands what the
note is about. -/
structure SkippedTag.PointsInto (template : Text) (s : SkippedTag) (t : Token) : Prop where
  kind : t.kind = .tag .block
  note : t.skipped? = some s
  inside : t.start < s.offset ∧ s.offset < t.stop
  boundary : ∃ r, At template s.offset r
  /-- The fragment that is no literal stands at the byte of the note. -/
  notQuoted : ∀ slot f, s.tag.reason = .notQuoted slot f → ∃ r, At template s.offset (f ++ r)
  /-- Where a literal is missing, the contents end at the byte of the note. -/
  missingArgument : ∀ slot, s.tag.reason = .missingArgument slot →
    s.offset = t.contentsOffset + byteSize t.contents

theorem pointsInto_of_skipped? (ht : t ∈ (tokenize template).tokens) {s : SkippedTag}
    (h : t.skipped? = some s) : s.PointsInto template t := by
  have hk : t.kind = .tag .block := by
    rw [Token.skipped?, Token.tagMatch] at h
    split at h
    · split at *
      · assumption
      · exact absurd ‹_› (by simp)
    · exact absurd h (by simp)
  obtain ⟨tag, htag, rfl⟩ : ∃ tag, TagMatch.ofContents t.contents = .malformed tag ∧
      s = ⟨tag, t.contentsOffset + tag.offset⟩ := by
    rw [Token.skipped?, Token.tagMatch, hk] at h
    dsimp only at h
    split at h
    · exact ⟨_, ‹_›, (Option.some.inj h).symm⟩
    · exact absurd h (by simp)
  obtain ⟨hne, hplace⟩ := malformed_at htag
  obtain ⟨hlo, hhi⟩ := Token.contents_inside (Or.inr hk) hne
  -- The contents stand in the template from their offset on, and the place is inside of them.
  obtain ⟨u, hu⟩ := (isTokenization_tokenize template).token_at ht
  obtain ⟨-, -, hcontents⟩ := Token.contents_bounds (Or.inr hk)
  obtain ⟨v, hv⟩ := hcontents hu
  rcases hplace with ⟨slot, hreason, ho⟩ | ⟨slot, f, r, hreason, hr⟩
  · -- A missing argument is reported at the end of the contents.
    have hend : At template (t.contentsOffset + tag.offset) v := ho ▸ hv.add
    refine ⟨hk, h, ⟨by show _ < _ + _; omega, by show _ + _ < _; omega⟩, ⟨v, hend⟩, ?_, ?_⟩
    · intro slot' f hf
      exact absurd (hreason.symm.trans hf) (by simp)
    · exact fun _ _ => congrArg (t.contentsOffset + ·) ho
  · have hf : At template (t.contentsOffset + tag.offset) (f ++ (r ++ v)) := by
      rw [← List.append_assoc]
      exact hv.trans (hr.append_right v)
    have hsize := hr.size
    rw [byteSize_append] at hsize
    refine ⟨hk, h, ⟨by show _ < _ + _; omega, by show _ + _ < _; omega⟩, ⟨_, hf⟩, ?_, ?_⟩
    · intro slot' f' hf'
      obtain ⟨-, rfl⟩ := MalformedReason.notQuoted.inj (hreason.symm.trans hf')
      exact ⟨_, hf⟩
    · intro slot' hs
      exact absurd (hreason.symm.trans hs) (by simp)

/-- The bytes of the notes grow: each lies inside of its token, and the tokens lie side by
side. -/
theorem skipped_pairwise (template : Text) :
    ((tokenize template).tokens.filterMap Token.skipped?).Pairwise (·.offset < ·.offset) := by
  refine List.pairwise_filterMap.2 ?_
  refine (isTokenization_tokenize template).tiles.pairwise.imp_of_mem ?_
  intro t u ht hu htu s hs s' hs'
  have h := (pointsInto_of_skipped? ht hs).inside
  have h' := (pointsInto_of_skipped? hu hs').inside
  omega

/-! ### The main result -/

/-- An expression that ends the extraction is reported where it stands in the token that
fails. -/
theorem exists_expressionFault {s : Text} {o : Nat} {fault : FilterFault}
    (h : extract template = .error (.unparsableExpression s o fault)) :
    ∃ t i, Token.Fails template t (.unparsableExpression s o fault) ∧
      ExpressionFault template t i s o fault := by
  obtain ⟨t, ht⟩ := fails_of_extract h
  obtain ⟨-, -, -, -, -, hfails⟩ := id ht
  obtain ⟨i, hi⟩ := (Token.offends_of_extractToken hfails).expressionFault ht.mem
  exact ⟨t, i, ht, hi⟩

/-- Every note is that of a token of the template. -/
theorem exists_pointsInto {x : Extraction} (h : extract template = .ok x) {s : SkippedTag}
    (hs : s ∈ x.skipped) : ∃ t ∈ (tokenize template).tokens, s.PointsInto template t := by
  obtain ⟨-, hskipped, -⟩ := captures_of_extractTokens (extractTokens_of_extract h)
  rw [hskipped] at hs
  obtain ⟨t, ht, hts⟩ := List.mem_filterMap.1 hs
  exact ⟨t, ht, pointsInto_of_skipped? ht hts⟩

/-- **Reported offsets are faithful.** The byte of an error is the place in its expression at
which reading stops, and the byte of a note is the place in its tag at which a literal is wrong
or missing. -/
theorem reported_offsets_faithful (template : Text) :
    (∀ expression offset fault,
      extract template = .error (.unparsableExpression expression offset fault) →
      ∃ t i, Token.Fails template t (.unparsableExpression expression offset fault) ∧
        ExpressionFault template t i expression offset fault) ∧
    ∀ x, extract template = .ok x → x.skipped.Pairwise (·.offset < ·.offset) ∧
      ∀ s ∈ x.skipped, ∃ t ∈ (tokenize template).tokens, s.PointsInto template t := by
  refine ⟨fun _ _ _ h => exists_expressionFault h,
    fun x h => ⟨?_, fun s hs => exists_pointsInto h hs⟩⟩
  obtain ⟨-, hskipped, -⟩ := captures_of_extractTokens (extractTokens_of_extract h)
  rw [hskipped]
  exact skipped_pairwise template

/-! ### Blanks of several bytes, and equal arguments -/

/-- A block with two arguments that start alike, of which the second is never closed. -/
def repeatedArgument : Text := "é\x7b%\u00a0x k=_('a') k=_('a' %\x7d".toList

/-- Two malformed tags: the literal of the first is no literal, the second ends too early. -/
def twoNotes : Text := "\x7b% i18n x %\x7dé\x7b%\u3000i18nc 'c' %\x7d".toList

theorem extract_repeatedArgument : extract repeatedArgument =
    .error (.unparsableExpression "_('a'".toList 24 .unclosedTranslation) := by
  have hz : tokenize repeatedArgument = ⟨[⟨.text, ['é'], 0⟩,
      ⟨.tag .block, "\u00a0x k=_('a') k=_('a' ".toList, 2⟩], none⟩ := by decide +kernel
  have ht : trim "\u00a0x k=_('a') k=_('a' ".toList = "x k=_('a') k=_('a'".toList := by decide
  have hs : splitFragments "x k=_('a') k=_('a'".toList =
      [⟨0, ['x']⟩, ⟨2, "k=_('a')".toList⟩, ⟨11, "k=_('a'".toList⟩] := by decide +kernel
  have hm : TagMatch.ofContents "x k=_('a') k=_('a'".toList = .notI18n := by
    rw [TagMatch.ofContents, hs]
    decide
  have hf : extractFragment 6 ⟨2, "k=_('a')".toList⟩ = .ok ⟨[['a']], [], []⟩ := by
    have hk : splitKeyword "k=_('a')".toList = ("k=".toList, "_('a')".toList) := by decide
    have ho : occurs translationOpener "k=_('a')".toList = true := by decide
    have hp : FilterExpression.parse "_('a')".toList =
        .ok ⟨some (.translation ⟨.single, ['a']⟩), []⟩ := by decide +kernel
    simp only [extractFragment, extractExpression, ho, if_true, hk, hp]
    rfl
  have hg : extractFragment 6 ⟨11, "k=_('a'".toList⟩ =
      .error (.unparsableExpression "_('a'".toList 24 .unclosedTranslation) := by decide
  have ho : Token.contentsOffset ⟨.tag .block, "\u00a0x k=_('a') k=_('a' ".toList, 2⟩ = 6 := by
    decide
  simp only [extract, hz, extractTokens, extractToken, ho, extractBlock, Token.contents, ht,
    hm, hs, List.drop, extractFragments, hf, hg]
  rfl

theorem extract_twoNotes : extract twoNotes =
    .ok ⟨[], [], [⟨⟨"i18n".toList, .notQuoted .message ['x'], 5⟩, 8⟩,
      ⟨⟨"i18nc".toList, .missingArgument .message, 9⟩, 28⟩]⟩ := by
  have hz : tokenize twoNotes = ⟨[⟨.tag .block, " i18n x ".toList, 0⟩, ⟨.text, ['é'], 12⟩,
      ⟨.tag .block, "\u3000i18nc 'c' ".toList, 14⟩], none⟩ := by decide +kernel
  have ht : trim " i18n x ".toList = "i18n x".toList := by decide
  have ht' : trim "\u3000i18nc 'c' ".toList = "i18nc 'c'".toList := by decide
  have hs : splitFragments "i18n x".toList = [⟨0, "i18n".toList⟩, ⟨5, ['x']⟩] := by
    decide +kernel
  have hs' : splitFragments "i18nc 'c'".toList = [⟨0, "i18nc".toList⟩, ⟨6, "'c'".toList⟩] := by
    decide +kernel
  have hm : TagMatch.ofContents "i18n x".toList =
      .malformed ⟨"i18n".toList, .notQuoted .message ['x'], 5⟩ := by
    rw [TagMatch.ofContents, hs]
    decide
  have hm' : TagMatch.ofContents "i18nc 'c'".toList =
      .malformed ⟨"i18nc".toList, .missingArgument .message, 9⟩ := by
    rw [TagMatch.ofContents, hs']
    decide
  have hf : ∀ base, extractFragment base ⟨5, ['x']⟩ = .ok {} := fun _ => rfl
  have hf' : ∀ base, extractFragment base ⟨6, "'c'".toList⟩ = .ok {} := fun _ => rfl
  simp only [extract, hz, extractTokens, extractToken, extractBlock, Token.contents, ht, ht',
    hm, hm', hs, hs', List.drop, extractFragments, hf, hf']
  rfl

/-- The second argument is reported, not the first; the second note stands at the end of its
tag. -/
theorem reported_offsets_faithful_repeatedArgument :
    extract repeatedArgument =
        .error (.unparsableExpression "_('a'".toList 24 .unclosedTranslation) ∧
      (∃ t, ExpressionFault repeatedArgument t 19 "_('a'".toList 24 .unclosedTranslation) ∧
      (∃ x, extract twoNotes = .ok x ∧ x.skipped.map SkippedTag.offset = [8, 28] ∧
        ∀ s ∈ x.skipped, ∃ t ∈ (tokenize twoNotes).tokens, s.PointsInto twoNotes t) := by
  refine ⟨extract_repeatedArgument, ?_, _, extract_twoNotes, rfl, ?_⟩
  · obtain ⟨t, i, -, hi⟩ :=
      (reported_offsets_faithful repeatedArgument).1 _ _ _ extract_repeatedArgument
    -- Reading the expression alone stops at its end, so it starts five bytes before.
    have hp : FilterExpression.parse "_('a'".toList = .error ⟨5, .unclosedTranslation⟩ := by
      decide +kernel
    have hread := hi.read
    rw [hp, Except.error.injEq, FilterError.mk.injEq] at hread
    obtain rfl : i = 19 := by omega
    exact ⟨t, hi⟩
  · exact ((reported_offsets_faithful twoNotes).2 _ extract_twoNotes).2

end TemplateCatalog
