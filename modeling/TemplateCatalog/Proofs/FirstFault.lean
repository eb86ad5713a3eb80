/-
The first fault of a template ends its extraction.

A tag is at fault if it is a variable or a block that is never closed, a variable whose
contents are no expression, or a block with a scanned fragment that calls a translation and is
no expression (`FaultAt`). The main result, `extract_fails_iff_first_fault`, says that
extraction fails exactly if some tag is at fault, and that its error is that of the first such
tag: nothing in front of the tag keeps the extraction from succeeding, and nothing behind the
tag has a part in the error (`IsFirstFault`).

Both parts of the last sentence are about the template cut at a byte (`upTo`). A cut between
two tokens leaves the tokens in front of it as they are (`tokenize_upTo`): an open comment in
the front part is open in the whole template too.
-/
import TemplateCatalog.Proofs.Faults
import TemplateCatalog.Proofs.TokenSeams

namespace TemplateCatalog

open Text

/-! ### Templates cut at a byte -/

/-- The first `n` bytes of a text. -/
def Text.upTo (n : Nat) (s : Text) : Text := (splitAtByte n s).1

theorem Text.upTo_byteSize_append (front back : Text) :
    upTo (byteSize front) (front ++ back) = front :=
  congrArg Prod.fst (splitAtByte_byteSize front back)

theorem Text.upTo_byteSize (s : Text) : upTo (byteSize s) s = s := by
  have h := upTo_byteSize_append s []
  rwa [List.append_nil] at h

theorem Text.byteSize_upTo_le (n : Nat) (s : Text) : byteSize (upTo n s) ≤ byteSize s := by
  have h := congrArg byteSize (splitAtByte_append n s)
  rw [byteSize_append] at h
  rw [upTo]
  omega

/-! ### Tokens side by side -/

theorem tiles_append_iff {i j : Nat} {ts us : List Token} :
    Tiles i (ts ++ us) j ↔ ∃ m, Tiles i ts m ∧ Tiles m us j := by
  induction ts generalizing i with
  | nil =>
    constructor
    · intro h
      exact ⟨i, rfl, h⟩
    · rintro ⟨m, rfl, h⟩
      exact h
  | cons t ts ih =>
    constructor
    · rintro ⟨hs, hlt, h⟩
      obtain ⟨m, hts, hus⟩ := ih.1 h
      exact ⟨m, ⟨hs, hlt, hts⟩, hus⟩
    · rintro ⟨m, ⟨hs, hlt, hts⟩, hus⟩
      exact ⟨hs, hlt, ih.2 ⟨m, hts, hus⟩⟩

theorem Tiles.unique {i j j' : Nat} {ts : List Token} (h : Tiles i ts j) (h' : Tiles i ts j') :
    j = j' := by
  induction ts generalizing i with
  | nil => exact h.symm.trans h'
  | cons t ts ih => exact ih h.2.2 h'.2.2

theorem Tiles.le_start {i j : Nat} {ts : List Token} (h : Tiles i ts j) {t : Token}
    (ht : t ∈ ts) : i ≤ t.start := (h.spread.bounds (List.mem_map_of_mem ht)).1

theorem Tiles.stop_le {i j : Nat} {ts : List Token} (h : Tiles i ts j) {t : Token}
    (ht : t ∈ ts) : t.stop ≤ j := (h.spread.bounds (List.mem_map_of_mem ht)).2

/-! ### Templates cut between tokens -/

/-- Byte `b` is the start or the end of the template, or of one of its tokens. -/
inductive IsBoundary (template : Text) : Nat → Prop
  | start : IsBoundary template 0
  | stop : IsBoundary template (byteSize template)
  | tokenStart {t} : t ∈ (tokenize template).tokens → IsBoundary template t.start
  | tokenStop {t} : t ∈ (tokenize template).tokens → IsBoundary template t.stop

variable {template : Text}

/-- The tokens of a template that is cut between two tokens are those in front of the cut. -/
theorem tokenize_upTo {ts us : List Token} {b : Nat}
    (h : (tokenize template).tokens = ts ++ us) (hb : Tiles 0 ts b) :
    byteSize (upTo b template) = b ∧ tokenize (upTo b template) = ⟨ts, none⟩ := by
  have hz : Lexes 0 template ⟨ts ++ us, (tokenize template).failure⟩ := by
    rw [← h]
    exact lexes_tokenize_iff.2 rfl
  obtain ⟨front, back, rfl, hfront, -⟩ := hz.split
  have hfront := lexes_tokenize_iff.1 hfront
  have hts := (isTokenization_tokenize front).tiles
  rw [hfront] at hts
  obtain rfl := hts.unique hb
  show byteSize (upTo (byteSize front) _) = byteSize front ∧
    tokenize (upTo (byteSize front) _) = _
  rw [upTo_byteSize_append]
  exact ⟨rfl, hfront⟩

/-- A boundary is the end of the template, or stands between two tokens. -/
theorem IsBoundary.cases_tiles {b : Nat} (h : IsBoundary template b) : b = byteSize template ∨
    ∃ ts us, (tokenize template).tokens = ts ++ us ∧ Tiles 0 ts b ∧ ∀ t ∈ us, b ≤ t.start := by
  have htiles := (isTokenization_tokenize template).tiles
  cases h with
  | start => exact Or.inr ⟨[], _, rfl, rfl, fun t _ => Nat.zero_le _⟩
  | stop => exact Or.inl rfl
  | tokenStart ht =>
    obtain ⟨ts, us, h⟩ := List.append_of_mem ht
    rw [h] at htiles
    obtain ⟨m, hts, hus⟩ := tiles_append_iff.1 htiles
    obtain rfl := hus.1
    exact Or.inr ⟨ts, _, h, hts, fun u hu => hus.le_start hu⟩
  | tokenStop ht =>
    obtain ⟨ts, us, h⟩ := List.append_of_mem ht
    rw [h] at htiles
    obtain ⟨m, hts, hstart, hlt, hus⟩ := tiles_append_iff.1 htiles
    refine Or.inr ⟨ts ++ [_], us, by rw [h, List.append_assoc]; rfl, ?_,
      fun u hu => hus.le_start hu⟩
    exact tiles_append_iff.2 ⟨m, hts, hstart, hlt, rfl⟩

/-- A boundary is never inside of a character. -/
theorem IsBoundary.byteSize_upTo {b : Nat} (h : IsBoundary template b) :
    byteSize (upTo b template) = b := by
  rcases h.cases_tiles with rfl | ⟨ts, us, hts, hb, -⟩
  · rw [upTo_byteSize]
  · exact (tokenize_upTo hts hb).1

/-! ### Tags at fault -/

/-- The tag from byte `i` to byte `j` is at fault with the error. -/
inductive FaultAt (template : Text) : Nat → Nat → SyntaxError → Prop
  /-- A tag that is never closed takes the rest of the template. -/
  | unterminated {u} : (tokenize template).failure = some u →
      FaultAt template u.offset (byteSize template) u.toSyntaxError
  | token {t e} : t ∈ (tokenize template).tokens → t.Offends e →
      FaultAt template t.start t.stop e

theorem FaultAt.stop_le {i j : Nat} {e : SyntaxError} (h : FaultAt template i j e) :
    j ≤ byteSize template := by
  cases h with
  | unterminated => exact Nat.le_refl _
  | @token t _ ht =>
    obtain ⟨r, hr⟩ := (isTokenization_tokenize template).token_at ht
    have hsize := hr.size
    rw [byteSize_append] at hsize
    rw [Token.stop]
    omega

/-- The error is that of the tag from byte `i` to byte `j`, the first one that is at fault. -/
structure IsFirstFault (template : Text) (i j : Nat) (e : SyntaxError) : Prop where
  fault : FaultAt template i j e
  opener : ∃ (k : TagKind) (r : Text), At template i (k.opener ++ r)
  inside : i ≤ e.offset ∧ e.offset ≤ j
  first : ∀ i' j' e', FaultAt template i' j' e' → i ≤ i'
  /-- What stands in front of the tag is extracted. -/
  front : ∃ x, extract (upTo i template) = .ok x
  /-- The error stays the same whatever is cut off behind the tag. -/
  back : ∀ b, IsBoundary template b → j ≤ b → extract (upTo b template) = .error e

/-- The error of a template is that of its tokens, or its last tag is never closed. -/
theorem extract_eq_error_iff {e : SyntaxError} : extract template = .error e ↔
    extractTokens (tokenize template).tokens = .error e ∨
      ∃ x u, extractTokens (tokenize template).tokens = .ok x ∧
        (tokenize template).failure = some u ∧ e = u.toSyntaxError := by
  rw [extract]
  cases extractTokens (tokenize template).tokens with
  | error e' => simp
  | ok x =>
    cases (tokenize template).failure with
    | none => simp
    | some u => simp [eq_comm]

theorem exists_extractTokens_eq_error_iff {ts : List Token} :
    (∃ e, extractTokens ts = .error e) ↔ ∃ t ∈ ts, ∃ e, t.Offends e := by
  rw [extractTokens_eq_collect, exists_collect_eq_error_iff]
  simp only [exists_extractToken_eq_error_iff]

theorem not_offends_of_extractTokens {ts : List Token} {x : Extraction}
    (h : extractTokens ts = .ok x) {t : Token} (ht : t ∈ ts) {e : SyntaxError} : ¬ t.Offends
    e := by
  intro ho
  obtain ⟨e', he'⟩ := exists_extractTokens_eq_error_iff.2 ⟨t, ht, e, ho⟩
  rw [h] at he'
  exact absurd he' (by simp)

/-- An error stays the same without what follows a token at fault. -/
theorem extractTokens_eq_error_of_append {ts us : List Token} {e : SyntaxError}
    (h : extractTokens (ts ++ us) = .error e) (hts : ∃ t ∈ ts, ∃ e, t.Offends e) :
    extractTokens ts = .error e := by
  obtain ⟨e', he'⟩ := exists_extractTokens_eq_error_iff.2 hts
  rw [extractTokens_append, he'] at h
  rwa [← h]

/-- Extraction fails exactly if some tag is at fault. -/
theorem exists_extract_eq_error_iff :
    (∃ e, extract template = .error e) ↔ ∃ i j e, FaultAt template i j e := by
  constructor
  · rintro ⟨e, h⟩
    rcases extract_eq_error_iff.1 h with h | ⟨x, u, -, hu, -⟩
    · obtain ⟨t, ht, e', he'⟩ := exists_extractTokens_eq_error_iff.1 ⟨e, h⟩
      exact ⟨_, _, _, .token ht he'⟩
    · exact ⟨_, _, _, .unterminated hu⟩
  · rintro ⟨i, j, e, h⟩
    rcases ok_or_error (extractTokens (tokenize template).tokens) with ⟨x, hx⟩ | ⟨e', he'⟩
    · cases h with
      | unterminated hu => exact ⟨_, extract_eq_error_iff.2 (Or.inr ⟨x, _, hx, hu, rfl⟩)⟩
      | token ht ho =>
        obtain ⟨e', he'⟩ := exists_extractTokens_eq_error_iff.2 ⟨_, ht, _, ho⟩
        exact ⟨e', extract_eq_error_iff.2 (Or.inl he')⟩
    · exact ⟨e', extract_eq_error_iff.2 (Or.inl he')⟩

/-! ### The first of them -/

theorem Token.Offends.start_lt_stop {t : Token} {e : SyntaxError} (h : t.Offends e) :
    t.start < t.stop := by
  obtain ⟨k, hk⟩ := h.isTag
  exact Token.start_lt_stop fun ht => absurd (hk.symm.trans ht) (by simp)

/-- Behind a token at fault the template can be cut off at any boundary. -/
theorem extract_upTo_of_offends {e e' : SyntaxError} {t : Token} {b : Nat}
    (h : extractTokens (tokenize template).tokens = .error e)
    (ht : t ∈ (tokenize template).tokens) (ho : t.Offends e') (hb : IsBoundary template b)
    (hj : t.stop ≤ b) : extract (upTo b template) = .error e := by
  rcases hb.cases_tiles with rfl | ⟨ts, us, hts, htiles, hus⟩
  · rw [upTo_byteSize]
    exact extract_eq_error_iff.2 (Or.inl h)
  · rw [extract_of_tokenize (tokenize_upTo hts htiles).2]
    rw [hts] at h ht
    refine extractTokens_eq_error_of_append h ⟨t, ?_, e', ho⟩
    -- The tokens behind the boundary start too late to be `t`.
    rcases List.mem_append.1 ht with ht | ht
    · exact ht
    · have hstart := hus t ht
      have hlt := ho.start_lt_stop
      omega

/-- The first token at fault is the first tag at fault: the tag that is never closed comes
after it. -/
theorem isFirstFault_of_extractTokens {e : SyntaxError}
    (h : extractTokens (tokenize template).tokens = .error e) :
    ∃ i j, IsFirstFault template i j e := by
  have herror := h
  rw [extractTokens_eq_collect] at h
  obtain ⟨before, t, after, x, htokens, hbefore, ht⟩ := collect_eq_error_iff.1 h
  rw [← extractTokens_eq_collect] at hbefore
  have ho := Token.offends_of_extractToken ht
  have hmem : t ∈ (tokenize template).tokens := by simp [htokens]
  have htiles := (isTokenization_tokenize template).tiles
  rw [htokens] at htiles
  -- The tokens tile the template, so those in front of `t` end where it starts.
  obtain ⟨m, hfront, hlater⟩ := tiles_append_iff.1 htiles
  obtain rfl := hlater.1
  refine ⟨t.start, t.stop, .token hmem ho, ?_, ho.bounds, ?_, ⟨x, ?_⟩, ?_⟩
  · obtain ⟨k, hk⟩ := ho.isTag
    obtain ⟨r, -, hr, -⟩ := (isTokenization_tokenize template).tags t hmem k hk
    exact ⟨k, r, hr⟩
  · intro i' j' e' h'
    cases h' with
    | unterminated hu =>
      have hstop := (isTokenization_tokenize template).tiles.stop_le hmem
      rw [Tokenization.stop, hu] at hstop
      exact Nat.le_trans (Nat.le_of_lt ho.start_lt_stop) hstop
    | @token t' _ ht' ho' =>
      rw [htokens, List.mem_append] at ht'
      -- No token in front of `t` is at fault, since they were extracted.
      rcases ht' with ht' | ht'
      · exact absurd ho' (not_offends_of_extractTokens hbefore ht')
      · exact hlater.le_start ht'
  · rw [extract_of_tokenize (tokenize_upTo htokens hfront).2, hbefore]
  · intro b hb hj
    exact extract_upTo_of_offends herror hmem ho hb hj

/-- Without a token at fault the tag that is never closed is the first one. -/
theorem isFirstFault_of_failure {x : Extraction} {u : UnterminatedTag}
    (h : extractTokens (tokenize template).tokens = .ok x)
    (hu : (tokenize template).failure = some u) :
    IsFirstFault template u.offset (byteSize template) u.toSyntaxError := by
  obtain ⟨-, r, hr, -⟩ := (isTokenization_tokenize template).failure u hu
  have htiles := (isTokenization_tokenize template).tiles
  rw [Tokenization.stop, hu] at htiles
  refine ⟨.unterminated hu, ⟨u.kind, r, hr⟩, ⟨Nat.le_refl _, ?_⟩, ?_, ⟨x, ?_⟩, ?_⟩
  · exact hr.size ▸ Nat.le_add_right _ _
  · intro i' j' e' h'
    cases h' with
    | @unterminated u' hu' =>
      rw [hu, Option.some.injEq] at hu'
      rw [hu']
    | token ht ho => exact absurd ho (not_offends_of_extractTokens h ht)
  · rw [extract_of_tokenize (tokenize_upTo (List.append_nil _).symm htiles).2, h]
  · intro b hb hj
    have hle := byteSize_upTo_le b template
    rw [hb.byteSize_upTo] at hle
    rw [Nat.le_antisymm hle hj, upTo_byteSize]
    exact extract_eq_error_iff.2 (Or.inr ⟨x, u, h, hu, rfl⟩)

/-- **Extraction fails exactly at the first tag at fault.** -/
theorem extract_fails_iff_first_fault (template : Text) :
    ((∃ e, extract template = .error e) ↔ ∃ i j e, FaultAt template i j e) ∧
      ∀ e, extract template = .error e ↔ ∃ i j, IsFirstFault template i j e := by
  refine ⟨exists_extract_eq_error_iff, fun e => ⟨fun h => ?_, ?_⟩⟩
  · rcases extract_eq_error_iff.1 h with h | ⟨x, u, hx, hu, rfl⟩
    · exact isFirstFault_of_extractTokens h
    · exact ⟨_, _, isFirstFault_of_failure hx hu⟩
  · rintro ⟨i, j, h⟩
    have hb := h.back _ .stop h.fault.stop_le
    rwa [upTo_byteSize] at hb

/-- Of two tags at fault the first one counts. -/
example : extract "\x7b\x7b a b \x7d\x7d\x7b% c".toList =
    .error (.unparsableExpression "a b".toList 4 (.unexpectedInput " b".toList)) := by
  decide +kernel

end TemplateCatalog
