/-
Extraction commutes with concatenation.

A template is closed if nothing at its end waits for what comes after it: all its tags are
closed, no comment is left open in its text, and its last character is no opening brace
(`IsClosed`). The main result, `tokenize_and_extract_append`, says what a closed template gives
with another one behind it:

* its tokens are those of the first and those of the second, moved behind the first; text at
  the seam is one token (`joinTokens`);
* its strings are those of the first and those of the second, and its error is that of the
  first if there is one, and otherwise that of the second. The places of the second are moved.

To move a template is to move its error and its notes (`extractTokens_shift`), all else stays
as it is; and whether text is one token or two does not matter, for nothing is extracted from
it (`extractTokens_joinTokens`).
-/
import TemplateCatalog.Proofs.Faults
import TemplateCatalog.Proofs.TokenSeams

namespace TemplateCatalog

open Text

/-! ### Moving what is extracted -/

/-- The error in a template that starts `n` bytes later. -/
def SyntaxError.shift (n : Nat) : SyntaxError → SyntaxError
  | .unterminatedTag kind offset => .unterminatedTag kind (n + offset)
  | .unparsableExpression fragment offset fault =>
    .unparsableExpression fragment (n + offset) fault

/-- The note on a template that starts `n` bytes later. -/
def SkippedTag.shift (n : Nat) (t : SkippedTag) : SkippedTag :=
  { t with offset := n + t.offset }

namespace Extraction

/-- What a template gives that starts `n` bytes later. -/
def shift (n : Nat) (x : Extraction) : Extraction :=
  { x with skipped := x.skipped.map (SkippedTag.shift n) }

theorem shift_append (n : Nat) (x y : Extraction) :
    (x ++ y).shift n = x.shift n ++ y.shift n :=
  Extraction.ext rfl rfl List.map_append

/-- The same for an extraction that may have failed. -/
def shiftResult (n : Nat) : Except SyntaxError Extraction → Except SyntaxError Extraction
  | .error e => .error (e.shift n)
  | .ok x => .ok (x.shift n)

theorem shiftResult_map_append (n : Nat) (x : Extraction) (r : Except SyntaxError Extraction) :
    shiftResult n (r.map (x ++ ·)) = (shiftResult n r).map (x.shift n ++ ·) := by
  cases r with
  | error e => rfl
  | ok y => exact congrArg Except.ok (shift_append n x y)

end Extraction

open Extraction

variable {n : Nat}

theorem collect_shift {α : Type} {f g : α → Except SyntaxError Extraction} {l : List α}
    (h : ∀ a ∈ l, f a = shiftResult n (g a)) : collect f l = shiftResult n (collect g l) := by
  induction l with
  | nil => rfl
  | cons a l ih =>
    have ha := h a (List.mem_cons_self ..)
    have hl := ih fun b hb => h b (List.mem_cons_of_mem _ hb)
    cases hg : g a with
    | error e =>
      rw [hg] at ha
      rw [collect_cons_error hg, collect_cons_error ha]
      rfl
    | ok x =>
      rw [hg] at ha
      rw [collect_cons_ok hg, collect_cons_ok ha, hl, shiftResult_map_append]

theorem extractExpression_shift (s : Text) (o : Nat) :
    extractExpression s (n + o) = shiftResult n (extractExpression s o) := by
  rw [extractExpression, extractExpression]
  cases FilterExpression.parse s with
  | error e =>
    show Except.error (SyntaxError.unparsableExpression s (n + o + e.position) e.fault) = _
    rw [Nat.add_assoc]
    rfl
  | ok e => rfl

theorem extractFragments_shift (base : Nat) (fs : List Fragment) :
    extractFragments (n + base) fs = shiftResult n (extractFragments base fs) := by
  rw [extractFragments_eq_collect, extractFragments_eq_collect]
  refine collect_shift fun f _ => ?_
  rw [extractFragment, extractFragment]
  by_cases ho : occurs translationOpener f.text = true
  · rw [if_pos ho, if_pos ho]
    show extractExpression _ (n + base + f.offset + _) = _
    rw [Nat.add_assoc n, Nat.add_assoc n]
    exact extractExpression_shift _ _
  · rw [if_neg ho, if_neg ho]
    rfl

theorem extractBlock_shift (contents : Text) (base : Nat) :
    extractBlock contents (n + base) = shiftResult n (extractBlock contents base) := by
  rw [extractBlock, extractBlock]
  cases TagMatch.ofContents contents with
  | notI18n => exact extractFragments_shift _ _
  | i18n entry arguments =>
    show (extractFragments (n + base) _).map _ =
      shiftResult n ((extractFragments base _).map _)
    rw [extractFragments_shift, shiftResult_map_append]
    rfl
  | malformed tag =>
    show (extractFragments (n + base) _).map _ =
      shiftResult n ((extractFragments base _).map _)
    rw [extractFragments_shift, shiftResult_map_append, Nat.add_assoc]
    rfl

theorem Token.contentsOffset_shift (t : Token) :
    (t.shift n).contentsOffset = n + t.contentsOffset := by
  rw [contentsOffset, contentsOffset, contents_shift, kind_shift]
  cases t.contents with
  | nil => rfl
  | cons c s =>
    cases t.kind with
    | text => rfl
    | tag k =>
      show n + t.start + _ + _ = n + (t.start + _ + _)
      rw [Nat.add_assoc, Nat.add_assoc, Nat.add_assoc]
      rfl

/-- Tokens that are moved give the same strings; the error and the notes are moved with
them. -/
theorem extractTokens_shift (ts : List Token) :
    extractTokens (ts.map (Token.shift n)) = shiftResult n (extractTokens ts) := by
  rw [extractTokens_eq_collect, extractTokens_eq_collect, collect_map]
  refine collect_shift fun t _ => ?_
  show extractToken (t.shift n) = _
  rw [extractToken, extractToken, Token.kind_shift, Token.contents_shift,
    Token.contentsOffset_shift]
  cases t.kind with
  | text => rfl
  | tag k =>
    cases k with
    | comment => rfl
    | «variable» => exact extractExpression_shift _ _
    | block => exact extractBlock_shift _ _

/-! ### Text at the seam -/

theorem extractTokens_text {t : Token} (h : t.kind = .text) (ts : List Token) :
    extractTokens (t :: ts) = extractTokens ts := by
  have ht : extractToken t = .ok {} := by rw [extractToken, h]
  rw [extractTokens_eq_collect, collect_cons_ok ht, map_empty_append, extractTokens_eq_collect]

/-- Text gives nothing, be it one token or two. -/
theorem extractTokens_joinTokens (ts us : List Token) :
    extractTokens (joinTokens ts us) = extractTokens (ts ++ us) := by
  induction ts with
  | nil => rfl
  | cons t ts ih =>
    cases ts with
    | nil =>
      cases us with
      | nil => rfl
      | cons u us =>
        by_cases h : t.kind = .text ∧ u.kind = .text
        · rw [joinTokens, if_pos h, extractTokens_text rfl]
          show _ = extractTokens (t :: u :: us)
          rw [extractTokens_text h.1, extractTokens_text h.2]
        · rw [joinTokens, if_neg h]
          rfl
    | cons t' ts =>
      show extractTokens (t :: joinTokens (t' :: ts) us) =
        extractTokens (t :: ((t' :: ts) ++ us))
      rw [extractTokens, extractTokens, ih]

/-! ### The main result -/

/-- Nothing at the end of the template waits for what comes after it. -/
structure IsClosed (template : Text) : Prop where
  /-- All tags are closed. -/
  tags : (tokenize template).failure = none
  /-- No comment is left open in text. -/
  comments : ∀ t ∈ (tokenize template).tokens, t.kind = .text →
    ¬ TagKind.comment.opener <:+: t.body
  /-- What follows starts no tag with the last character. -/
  last : template.getLast? ≠ some '{'

variable {a : Text}

theorem IsClosed.tokenize_eq (h : IsClosed a) : tokenize a = ⟨(tokenize a).tokens, none⟩ := by
  rw [← h.tags]

theorem IsClosed.tokenize_append (h : IsClosed a) (b : Text) :
    tokenize (a ++ b) =
      ⟨joinTokens (tokenize a).tokens ((tokenize b).shift (byteSize a)).tokens,
        ((tokenize b).shift (byteSize a)).failure⟩ := by
  have ha : Lexes 0 a ⟨(tokenize a).tokens, none⟩ := lexes_tokenize_iff.2 h.tokenize_eq
  have hb : Lexes 0 b (tokenize b) := lexes_tokenize_iff.2 rfl
  have hb := hb.shift (byteSize a)
  rw [Nat.add_comm] at hb
  exact lexes_tokenize_iff.1 (ha.join h.comments h.last hb)

/-- **Extraction commutes with concatenation.** -/
theorem tokenize_and_extract_append (h : IsClosed a) (b : Text) :
    tokenize (a ++ b) =
        ⟨joinTokens (tokenize a).tokens ((tokenize b).shift (byteSize a)).tokens,
          ((tokenize b).shift (byteSize a)).failure⟩ ∧
      extract (a ++ b) =
        match extract a, extract b with
        | .error e, _ => .error e
        | .ok _, .error e => .error (e.shift (byteSize a))
        | .ok x, .ok y => .ok (x ++ y.shift (byteSize a)) := by
  have hz := h.tokenize_append b
  refine ⟨hz, ?_⟩
  have hs : extractTokens ((tokenize b).shift (byteSize a)).tokens =
      shiftResult (byteSize a) (extractTokens (tokenize b).tokens) := extractTokens_shift _
  have hf : ((tokenize b).shift (byteSize a)).failure =
      (tokenize b).failure.map (UnterminatedTag.shift (byteSize a)) := rfl
  rw [extract_of_tokenize h.tokenize_eq, extract, hz, extract]
  dsimp only
  -- Text that is joined at the seam gives nothing, so the tokens may be taken apart again.
  rw [extractTokens_joinTokens, extractTokens_append, hs, hf]
  cases extractTokens (tokenize a).tokens with
  | error e => rfl
  | ok x =>
    cases extractTokens (tokenize b).tokens with
    | error e => rfl
    | ok y => cases (tokenize b).failure <;> rfl

/-! ### Text that meets text -/

/-- A template that ends in text. -/
def endsInText : Text := "x\x7b\x7b _('a') \x7d\x7dy".toList

/-- A template that starts with text and has a malformed tag after it. -/
def startsWithText : Text := "z\x7b% i18n %\x7d".toList

theorem tokenize_endsInText : tokenize endsInText =
    ⟨[⟨.text, ['x'], 0⟩, ⟨.tag .variable, " _('a') ".toList, 1⟩, ⟨.text, ['y'], 13⟩],
      none⟩ := by
  decide +kernel

theorem isClosed_endsInText : IsClosed endsInText where
  tags := by rw [tokenize_endsInText]
  comments := by
    rw [tokenize_endsInText]
    decide
  last := by decide

theorem extract_endsInText : extract endsInText = .ok ⟨[['a']], [], []⟩ := by decide +kernel

theorem tokenize_startsWithText : tokenize startsWithText =
    ⟨[⟨.text, ['z'], 0⟩, ⟨.tag .block, " i18n ".toList, 1⟩], none⟩ := by decide +kernel

theorem extract_startsWithText : extract startsWithText =
    .ok ⟨[], [], [⟨⟨"i18n".toList, .missingArgument .message, 4⟩, 8⟩]⟩ := by
  have hs : splitFragments "i18n".toList = [⟨0, "i18n".toList⟩] := by decide +kernel
  have hm : TagMatch.ofContents "i18n".toList =
      .malformed ⟨"i18n".toList, .missingArgument .message, 4⟩ := by
    rw [TagMatch.ofContents, hs]
    decide
  have ht : trim " i18n ".toList = "i18n".toList := by decide
  simp only [extract, tokenize_startsWithText, extractTokens, extractToken, extractBlock,
    Token.contents, ht, hm, hs, List.drop, extractFragments]
  rfl

/-- The texts at the seam are one token, and the note on the tag is moved. -/
theorem tokenize_and_extract_append_seam : IsClosed endsInText ∧
    ⟨.text, ['y', 'z'], 13⟩ ∈ (tokenize (endsInText ++ startsWithText)).tokens ∧
    extract (endsInText ++ startsWithText) =
      .ok ⟨[['a']], [], [⟨⟨"i18n".toList, .missingArgument .message, 4⟩, 22⟩]⟩ := by
  have h := isClosed_endsInText
  obtain ⟨hz, hx⟩ := tokenize_and_extract_append h startsWithText
  refine ⟨h, ?_, ?_⟩
  · rw [hz, tokenize_startsWithText, tokenize_endsInText]
    decide
  · rw [hx, extract_endsInText, extract_startsWithText]
    decide

end TemplateCatalog
