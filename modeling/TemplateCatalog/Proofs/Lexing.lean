/-
The tokens of a template as a relation.

`Lexes o s z` derives the tokenization `z` of the text `s` that starts at byte `o`, one token a
step: a tag up to its first closer, or text up to the next opener that counts (`OpensTag`). The
cursor follows these rules, and no text has two derivations:

* `findTag_tagFree`, `findTag_opensTag`, `findTag_commentsOver` — what stands in front of the
  next tag, what the tag is, and when no comment closer is left;
* `Cursor.next?_cases` — everything that one step of the cursor can do;
* `lexes_iff` — a sound cursor yields the tokens that the relation derives, and only these.
-/
import TemplateCatalog.Proofs.Occurrence
import TemplateCatalog.Template.Tokenization

namespace TemplateCatalog

open Text

/-! ### Openers that count -/

/-- A tag starts here: an opener stands in front, that of a comment with a closer after it. -/
def OpensTag (s : Text) : Prop :=
  ∃ k r, s = TagKind.opener k ++ r ∧ (k = .comment → TagKind.comment.closer <:+: r)

/-- No tag starts inside `s` when `r` follows it. -/
def TagFree (s r : Text) : Prop := ∀ a b, s = a ++ b → b ≠ [] → ¬ OpensTag (b ++ r)

theorem tagFree_nil (r : Text) : TagFree [] r := by
  intro a b h hb
  exact absurd (List.append_eq_nil_iff.1 h.symm).2 hb

theorem tagFree_cons {c : Char} {s r : Text} :
    TagFree (c :: s) r ↔ ¬ OpensTag (c :: (s ++ r)) ∧ TagFree s r := by
  constructor
  · intro h
    refine ⟨h [] (c :: s) rfl (by simp), fun a b he hb => h (c :: a) b (by simp [he]) hb⟩
  · rintro ⟨h, ht⟩ a b he hb
    cases a with
    | nil =>
      rw [List.nil_append] at he
      subst he
      exact h
    | cons d a =>
      rw [List.cons_append, List.cons.injEq] at he
      exact ht a b he.2 hb

theorem not_opensTag_of_ne {c : Char} {s : Text} (hc : c ≠ '{') : ¬ OpensTag (c :: s) := by
  rintro ⟨k, r, h, -⟩
  simp only [TagKind.opener, List.cons_append, List.cons.injEq] at h
  exact hc h.1

theorem not_opensTag_singleton (c : Char) : ¬ OpensTag [c] := by
  rintro ⟨k, r, h, -⟩
  simp [TagKind.opener] at h

/-- After an opening brace the second character decides. -/
theorem opensTag_brace {d : Char} {s : Text} : OpensTag ('{' :: d :: s) ↔
    ∃ k, TagKind.ofMark? d = some k ∧ (k = .comment → TagKind.comment.closer <:+: s) := by
  constructor
  · rintro ⟨k, r, h, hk⟩
    simp only [TagKind.opener, List.cons_append, List.nil_append, List.cons.injEq,
      true_and] at h
    exact ⟨k, TagKind.ofMark?_eq_some_iff.2 h.1, h.2 ▸ hk⟩
  · rintro ⟨k, hd, hk⟩
    exact ⟨k, s, by simp [TagKind.opener, TagKind.ofMark?_eq_some_iff.1 hd], hk⟩

/-! ### The next tag -/

variable {b : Bool} {s : Text}

/-- The flag says the truth: no comment closer is left. -/
def NoClosersLeft (b : Bool) (s : Text) : Prop := b = true → ¬ TagKind.comment.closer <:+: s

theorem NoClosersLeft.of_suffix {b : Bool} {s t : Text} (h : NoClosersLeft b s)
    (ht : t <:+ s) : NoClosersLeft b t := fun hb hi => h hb (hi.trans ht.isInfix)

theorem noClosersLeft_false (s : Text) : NoClosersLeft false s := by
  intro h
  exact absurd h (by simp)

/-- A comment opener is passed over exactly if no closer follows. -/
theorem not_infix_of_skip {b : Bool} {c d : Char} {r : Text}
    (h : NoClosersLeft b (c :: d :: r))
    (hs : (b || !occurs TagKind.comment.closer r) = true) :
    ¬ TagKind.comment.closer <:+: r := by
  rw [← occurs_iff]
  rcases Bool.or_eq_true _ _ ▸ hs with hb | ho
  · rw [occurs_iff]
    exact h.of_suffix (List.suffix_append [c, d] r) hb
  · simpa using ho

/-- No tag starts in the text in front of the next tag. -/
theorem findTag_tagFree (h : NoClosersLeft b s) :
    TagFree (findTag b s).before (findTag b s).rest := by
  fun_induction findTag b s with
  | case1 => exact tagFree_nil _
  | case2 b c =>
    exact tagFree_cons.2 ⟨not_opensTag_singleton c, tagFree_nil _⟩
  | case3 b d r hd ih =>
    refine tagFree_cons.2 ⟨?_, ih (h.of_suffix (List.suffix_cons _ _))⟩
    -- What was found joins to the text again, so the brace is followed by `d`, which is no
    -- mark.
    show ¬ OpensTag ('{' :: ((findTag b (d :: r)).before ++ (findTag b (d :: r)).rest))
    rw [findTag_append, opensTag_brace]
    rintro ⟨k, hk, -⟩
    rw [hd] at hk
    exact absurd hk (by simp)
  | case4 b d r hd hs ih =>
    -- An opener that is passed over is one of a comment without a closer, and opens no tag.
    have hn := not_infix_of_skip h hs
    have hr : (findTag true r).before ++ (findTag true r).rest = r := findTag_append true r
    refine tagFree_cons.2 ⟨?_, tagFree_cons.2 ⟨?_, ih fun _ => hn⟩⟩
    · show ¬ OpensTag ('{' :: d :: ((findTag true r).before ++ (findTag true r).rest))
      rw [hr, opensTag_brace]
      rintro ⟨k, hk, hc⟩
      rw [hd] at hk
      exact hn (hc (Option.some.inj hk).symm)
    · refine not_opensTag_of_ne ?_
      rw [TagKind.ofMark?_eq_some_iff.1 hd]
      decide
  | case5 => exact tagFree_nil _
  | case6 => exact tagFree_nil _
  | case7 b c d r hc ih =>
    refine tagFree_cons.2 ⟨not_opensTag_of_ne hc, ih (h.of_suffix (List.suffix_cons _ _))⟩

theorem findTag_opensTag {k : TagKind} {r : Text} (h : (findTag b s).tag = some (k, r)) :
    k = .comment → TagKind.comment.closer <:+: r := by
  fun_induction findTag b s with
  | case1 => exact absurd h (by simp)
  | case2 => exact absurd h (by simp)
  | case3 b d r hd ih => exact ih h
  | case4 b d r hd hs ih => exact ih h
  | case5 b d r hd hs =>
    rintro -
    simp only [Option.some.injEq, Prod.mk.injEq] at h
    rw [← h.2, ← occurs_iff]
    simp only [Bool.or_eq_true, Bool.not_eq_true', not_or, Bool.not_eq_false] at hs
    exact hs.2
  | case6 b d r k hk hd =>
    simp only [Option.some.injEq, Prod.mk.injEq] at h
    rw [← h.1]
    exact fun hc => absurd hc hk
  | case7 b c d r hc ih => exact ih h

/-- The flag still says the truth at the next tag. -/
theorem findTag_commentsOver (h : NoClosersLeft b s) :
    NoClosersLeft (findTag b s).commentsOver (findTag b s).rest := by
  fun_induction findTag b s with
  | case1 => exact h
  | case2 b c => exact h.of_suffix List.nil_suffix
  | case3 b d r hd ih => exact ih (h.of_suffix (List.suffix_cons _ _))
  | case4 b d r hd hs ih => exact ih fun _ => not_infix_of_skip h hs
  | case5 b d r hd hs =>
    have he := TagKind.ofMark?_eq_some_iff.1 hd
    subst he
    exact h
  | case6 b d r k hk hd =>
    have he := TagKind.ofMark?_eq_some_iff.1 hd
    subst he
    exact h
  | case7 b c d r hc ih => exact ih (h.of_suffix (List.suffix_cons _ _))

/-! ### The steps of the cursor -/

namespace Cursor

/-- The flag of the cursor says the truth. -/
def Sound (c : Cursor) : Prop := NoClosersLeft c.commentsOver c.rest

theorem sound_start (template : Text) : (start template).Sound := noClosersLeft_false template

/-- What one step does to the cursor `c`: the item it yields, and the cursor after it. -/
inductive Step (c : Cursor) : Except UnterminatedTag Token → Cursor → Prop
  /-- A variable or a block that is never closed takes all that is left. -/
  | unterminated {k r c'} (rest : c.rest = TagKind.opener k ++ r) (kind : k ≠ .comment)
      (unclosed : ¬ k.closer <:+: r) (left : c'.rest = []) : Step c (.error ⟨k, c.offset⟩) c'
  /-- A tag ends at its first closer. -/
  | tag {k r body c'} (rest : c.rest = TagKind.opener k ++ r)
      (cut : FirstCut k.closer r body c'.rest)
      (offset : c'.offset = c.offset + byteSize (Token.source ⟨.tag k, body, c.offset⟩)) :
      Step c (.ok ⟨.tag k, body, c.offset⟩) c'
  /-- Text ends where the next tag starts, or at the end. -/
  | text {s c'} (rest : c.rest = s ++ c'.rest) (nonempty : s ≠ []) (free : TagFree s c'.rest)
      (next : c'.rest = [] ∨ OpensTag c'.rest) (offset : c'.offset = c.offset + byteSize s) :
      Step c (.ok ⟨.text, s, c.offset⟩) c'

/-- Everything that one step of a sound cursor can do: nothing is left, or an item is yielded
by one of the rules, and the cursor stays sound. -/
theorem next?_cases {c : Cursor} (h : c.Sound) :
    c.rest = [] ∧ c.next? = none ∨
      ∃ x c', c.next? = some (x, c') ∧ Step c x c' ∧ c'.Sound := by
  -- What is found: the text in front, the tag, and whether comment closers are left.
  have happ := findTag_append c.commentsOver c.rest
  have hfree := findTag_tagFree h
  have hover := findTag_commentsOver h
  rcases hf : findTag c.commentsOver c.rest with ⟨before, tag, noClosers⟩
  rw [hf] at happ hfree hover
  cases before with
  | nil =>
    cases tag with
    | none =>
      refine Or.inl ⟨happ.symm, ?_⟩
      simp only [next?, hf]
    | some p =>
      obtain ⟨k, r⟩ := p
      have hopen : k = .comment → TagKind.comment.closer <:+: r :=
        findTag_opensTag (b := c.commentsOver) (s := c.rest) (by rw [hf])
      refine Or.inr ?_
      -- A tag starts here; it is closed, or it is no comment.
      cases hc : cut? k.closer r with
      | none =>
        have hn := cut?_eq_none_iff.1 hc
        refine ⟨.error ⟨k, c.offset⟩, c.skip (byteSize c.rest) [] noClosers, ?_,
          .unterminated happ.symm ?_ hn rfl, hover.of_suffix List.nil_suffix⟩
        · simp only [next?, hf, hc]
        · rintro rfl
          exact hn (hopen rfl)
      | some q =>
        obtain ⟨body, after⟩ := q
        have hcut := cut?_eq_some_iff.1 hc
        refine ⟨.ok ⟨.tag k, body, c.offset⟩,
          c.skip (byteSize (Token.source ⟨.tag k, body, c.offset⟩)) after noClosers, ?_,
          .tag happ.symm hcut rfl, hover.of_suffix ?_⟩
        · simp only [next?, hf, hc]
        · refine ⟨k.opener ++ (body ++ k.closer), ?_⟩
          show k.opener ++ (body ++ k.closer) ++ after = k.opener ++ r
          rw [hcut.parts]
          simp
  | cons a t =>
    refine Or.inr ⟨.ok ⟨.text, a :: t, c.offset⟩,
      c.skip (byteSize (a :: t)) (NextTag.rest ⟨a :: t, tag, noClosers⟩) noClosers, ?_,
      .text happ.symm (by simp) hfree ?_ rfl, hover⟩
    · cases tag <;> simp only [next?, hf]
    · cases tag with
      | none => exact Or.inl rfl
      | some p =>
        refine Or.inr ⟨p.1, p.2, rfl, ?_⟩
        exact findTag_opensTag (b := c.commentsOver) (s := c.rest) (by rw [hf])

end Cursor

/-! ### Whole texts -/

/-- The tokenization with one more token in front. -/
def Tokenization.cons (t : Token) (z : Tokenization) : Tokenization :=
  ⟨t :: z.tokens, z.failure⟩

/-- `Lexes o s z`: the text `s` that starts at byte `o` has the tokenization `z`. -/
inductive Lexes : Nat → Text → Tokenization → Prop
  | done {o} : Lexes o [] ⟨[], none⟩
  | unterminated {o k r} : k ≠ .comment → ¬ TagKind.closer k <:+: r →
      Lexes o (TagKind.opener k ++ r) ⟨[], some ⟨k, o⟩⟩
  | tag {o k r body after z} : FirstCut (TagKind.closer k) r body after →
      Lexes (Token.stop ⟨.tag k, body, o⟩) after z →
      Lexes o (TagKind.opener k ++ r) (z.cons ⟨.tag k, body, o⟩)
  | text {o s r z} : s ≠ [] → TagFree s r → r = [] ∨ OpensTag r →
      Lexes (Token.stop ⟨.text, s, o⟩) r z → Lexes o (s ++ r) (z.cons ⟨.text, s, o⟩)

@[simp] theorem stop_text (s : Text) (o : Nat) :
    Token.stop ⟨.text, s, o⟩ = o + byteSize s := by
  simp [Token.stop, Token.source, TokenKind.opener, TokenKind.closer]

namespace Cursor

theorem lexes_tokens {c : Cursor} (h : c.Sound) : Lexes c.offset c.rest c.tokens := by
  -- At each cursor the step that `next?` takes is the only one, and the rest follows from it.
  fun_induction tokens c with
  | case1 c hn =>
    rcases next?_cases h with ⟨hr, -⟩ | ⟨x, c', hs, -⟩
    · rw [hr]
      exact .done
    · rw [hn] at hs
      exact absurd hs (by simp)
  | case2 c e c' hn =>
    rcases next?_cases h with ⟨-, hs⟩ | ⟨x, c'', hs, step, -⟩
    · rw [hn] at hs
      exact absurd hs (by simp)
    · rw [hn, Option.some.injEq, Prod.mk.injEq] at hs
      rw [← hs.1] at step
      cases step with
      | unterminated rest kind unclosed left =>
        rw [rest]
        exact .unterminated kind unclosed
  | case3 c t c' hn later ih =>
    rcases next?_cases h with ⟨-, hs⟩ | ⟨x, c'', hs, step, sound⟩
    · rw [hn] at hs
      exact absurd hs (by simp)
    · rw [hn, Option.some.injEq, Prod.mk.injEq] at hs
      rw [← hs.1, ← hs.2] at step
      rw [← hs.2] at sound
      have hz := ih sound
      cases step with
      | tag rest cut offset =>
        rw [rest]
        rw [offset] at hz
        exact .tag cut hz
      | text rest nonempty free next offset =>
        rw [rest]
        rw [offset, ← stop_text] at hz
        exact .text nonempty free next hz

end Cursor

/-! ### One derivation -/

theorem opener_inj {k k' : TagKind} {r r' : Text} (h : k.opener ++ r = k'.opener ++ r') :
    k = k' ∧ r = r' := by
  simp only [TagKind.opener, List.cons_append, List.nil_append, List.cons.injEq, true_and] at h
  refine ⟨?_, h.2⟩
  have hk := TagKind.ofMark?_eq_some_iff.2 h.1
  rw [TagKind.ofMark?_eq_some_iff.2 rfl] at hk
  exact Option.some.inj hk

theorem opener_ne_nil (k : TagKind) (r : Text) : k.opener ++ r ≠ [] := by
  simp [TagKind.opener]

theorem opensTag_of_firstCut {k : TagKind} {r body after : Text}
    (h : FirstCut k.closer r body after) : OpensTag (k.opener ++ r) := by
  refine ⟨k, r, rfl, ?_⟩
  rintro rfl
  exact h.infix

theorem TagFree.not_opensTag {s r : Text} (h : TagFree s r) (hs : s ≠ []) : ¬ OpensTag
    (s ++ r) :=
  h [] s rfl hs

/-- Two texts in front of the next tag are the same. -/
theorem TagFree.unique {s r s' r' : Text} (h : TagFree s r) (hr : r = [] ∨ OpensTag r)
    (h' : TagFree s' r') (hr' : r' = [] ∨ OpensTag r') (e : s ++ r = s' ++ r') :
    s = s' ∧ r = r' := by
  -- If one text is longer, a tag starts inside of it where the other ends.
  rcases List.append_eq_append_iff.1 e with ⟨m, rfl, rfl⟩ | ⟨m, rfl, rfl⟩
  · by_cases hm : m = []
    · simp [hm]
    · rcases hr with hn | ho
      · exact absurd (List.append_eq_nil_iff.1 hn).1 hm
      · exact absurd ho (h' s m rfl hm)
  · by_cases hm : m = []
    · simp [hm]
    · rcases hr' with hn | ho
      · exact absurd (List.append_eq_nil_iff.1 hn).1 hm
      · exact absurd ho (h s' m rfl hm)

/-- A text has at most one tokenization. -/
theorem Lexes.unique {o : Nat} {s : Text} {z z' : Tokenization} (h : Lexes o s z)
    (h' : Lexes o s z') : z = z' := by
  -- The text decides which rule comes first, and what its parts are.
  induction h generalizing z' with
  | done =>
    generalize hs : ([] : Text) = s at h'
    cases h' with
    | done => rfl
    | unterminated => exact absurd hs.symm (opener_ne_nil _ _)
    | tag => exact absurd hs.symm (opener_ne_nil _ _)
    | text hne => exact absurd (List.append_eq_nil_iff.1 hs.symm).1 hne
  | @unterminated o k r hk hn =>
    generalize hs : TagKind.opener k ++ r = s at h'
    cases h' with
    | done => exact absurd hs (opener_ne_nil _ _)
    | unterminated =>
      obtain ⟨rfl, rfl⟩ := opener_inj hs
      rfl
    | tag hc =>
      obtain ⟨rfl, rfl⟩ := opener_inj hs
      exact absurd hc.infix hn
    | text hne hf =>
      exact absurd (hs ▸ ⟨k, r, rfl, fun h => absurd h hk⟩) (hf.not_opensTag hne)
  | @tag o k r body after z hc hz ih =>
    generalize hs : TagKind.opener k ++ r = s at h'
    cases h' with
    | done => exact absurd hs (opener_ne_nil _ _)
    | unterminated _ hn =>
      obtain ⟨rfl, rfl⟩ := opener_inj hs
      exact absurd hc.infix hn
    | tag hc' hz' =>
      obtain ⟨rfl, rfl⟩ := opener_inj hs
      obtain ⟨rfl, rfl⟩ := hc.unique hc'
      rw [ih hz']
    | text hne hf => exact absurd (hs ▸ opensTag_of_firstCut hc) (hf.not_opensTag hne)
  | @text o s r z hne hf hr hz ih =>
    generalize hs : s ++ r = u at h'
    cases h' with
    | done => exact absurd (List.append_eq_nil_iff.1 hs).1 hne
    | @unterminated _ k r' hk =>
      exact absurd (hs ▸ ⟨k, r', rfl, fun h => absurd h hk⟩) (hf.not_opensTag hne)
    | tag hc => exact absurd (hs ▸ opensTag_of_firstCut hc) (hf.not_opensTag hne)
    | text hne' hf' hr' hz' =>
      obtain ⟨rfl, rfl⟩ := hf.unique hr hf' hr' hs
      rw [ih hz']

/-- A sound cursor yields the tokens that the rules derive, and only these. -/
theorem lexes_iff {c : Cursor} (h : c.Sound) {z : Tokenization} :
    Lexes c.offset c.rest z ↔ c.tokens = z :=
  ⟨fun hz => (c.lexes_tokens h).unique hz, fun hz => hz ▸ c.lexes_tokens h⟩

theorem lexes_tokenize_iff {template : Text} {z : Tokenization} :
    Lexes 0 template z ↔ tokenize template = z :=
  lexes_iff (Cursor.sound_start template)

end TemplateCatalog
