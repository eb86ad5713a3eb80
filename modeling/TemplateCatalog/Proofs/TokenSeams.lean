/-
Cutting templates between tokens, and joining them.

Between two tokens a template can be cut, and both parts have the tokens they had before
(`Lexes.split`): what opens a tag in the front part opens one in the whole, so no text of the
front part becomes a tag. The other way round two templates can be joined (`Lexes.join`) if
nothing at the end of the first waits for what comes after it: no comment is left open in its
text, and its last character is no opening brace. Then the tokens of both are those of the
whole; text that meets text becomes one token (`joinTokens`). `Lexes.shift` moves a template to
another byte.
-/
import TemplateCatalog.Proofs.Tokenization

namespace TemplateCatalog

open Text

/-! ### Longer and shorter texts -/

theorem OpensTag.append {s : Text} (h : OpensTag s) (u : Text) : OpensTag (s ++ u) := by
  obtain ⟨k, r, rfl, hk⟩ := h
  refine ⟨k, r ++ u, List.append_assoc .., fun hc => ?_⟩
  exact (hk hc).trans (List.prefix_append r u).isInfix

/-- In front of less no more tags start. -/
theorem TagFree.of_append {s r u : Text} (h : TagFree s (r ++ u)) : TagFree s r := by
  intro a b he hb ho
  refine h a b he hb ?_
  rw [← List.append_assoc]
  exact ho.append u

theorem Text.FirstCut.of_append {needle before after u : Text}
    (h : FirstCut needle (before ++ needle ++ (after ++ u)) before (after ++ u)) :
    FirstCut needle (before ++ needle ++ after) before after := by
  refine ⟨rfl, fun b a he => h.first b (a ++ u) ?_⟩
  rw [← List.append_assoc, he, List.append_assoc]

/-- The first occurrence stays the first when the text goes on. -/
theorem Text.FirstCut.append {needle s before after : Text}
    (h : FirstCut needle s before after) (u : Text) :
    FirstCut needle (s ++ u) before (after ++ u) := by
  refine ⟨by rw [h.parts, List.append_assoc], fun b a he => ?_⟩
  -- An earlier occurrence would end in `s` as well, and so be one of `s`.
  refine Nat.le_of_not_lt fun hlt => ?_
  rcases List.append_eq_append_iff.1 he with ⟨m, hm, -⟩ | ⟨m, hm, -⟩
  · have hlen := congrArg List.length h.parts
    have hlen' := congrArg List.length hm
    simp only [List.length_append] at hlen hlen'
    omega
  · exact absurd (h.first b m hm) (by omega)

/-! ### One token and the rest -/

variable {o : Nat} {s : Text} {t : Token} {z : Tokenization}

theorem Tokenization.cons_inj {t' : Token} {z' : Tokenization} (h : z.cons t = z'.cons t') :
    t = t' ∧ z = z' := by
  cases z
  cases z'
  simp only [cons, mk.injEq, List.cons.injEq] at h
  obtain ⟨⟨ht, rfl⟩, rfl⟩ := h
  exact ⟨ht, rfl⟩

/-- The two rules that a derivation with a first token can start with. -/
theorem lexes_cons_iff : Lexes o s (z.cons t) ↔
    (∃ k r body after, s = TagKind.opener k ++ r ∧ FirstCut (TagKind.closer k) r body after ∧
        t = ⟨.tag k, body, o⟩ ∧ Lexes t.stop after z) ∨
      ∃ w r, s = w ++ r ∧ w ≠ [] ∧ TagFree w r ∧ (r = [] ∨ OpensTag r) ∧ t = ⟨.text, w, o⟩ ∧
        Lexes t.stop r z := by
  constructor
  · intro h
    generalize hy : z.cons t = y at h
    cases h with
    | done => exact absurd (congrArg Tokenization.tokens hy) (by simp [Tokenization.cons])
    | unterminated =>
      exact absurd (congrArg Tokenization.tokens hy) (by simp [Tokenization.cons])
    | @tag _ k r body after z' hc hz =>
      obtain ⟨rfl, rfl⟩ := Tokenization.cons_inj hy
      exact Or.inl ⟨k, r, body, after, rfl, hc, rfl, hz⟩
    | @text _ w r z' hne hf hr hz =>
      obtain ⟨rfl, rfl⟩ := Tokenization.cons_inj hy
      exact Or.inr ⟨w, r, rfl, hne, hf, hr, rfl, hz⟩
  · rintro (⟨k, r, body, after, rfl, hc, rfl, hz⟩ | ⟨w, r, rfl, hne, hf, hr, rfl, hz⟩)
    · exact .tag hc hz
    · exact .text hne hf hr hz

theorem stop_tag_add (k : TagKind) (body u : Text) (o : Nat) :
    Token.stop ⟨.tag k, body, o⟩ + byteSize u = o +
      byteSize (k.opener ++ (body ++ k.closer ++ u)) := by
  rw [Token.stop, Token.source_tag]
  simp only [byteSize_append]
  omega

/-- Without tokens and without an error there is no text. -/
theorem Lexes.eq_nil (h : Lexes o s ⟨[], none⟩) : s = [] := by
  generalize hz : (⟨[], none⟩ : Tokenization) = z at h
  cases h with
  | done => rfl
  | unterminated => exact absurd hz (by simp)
  | tag => exact absurd hz (by simp [Tokenization.cons])
  | text => exact absurd hz (by simp [Tokenization.cons])

/-- A text whose first token is a tag starts with the tag. -/
theorem Lexes.opensTag_or_nil {ts : List Token} (h : Lexes o s ⟨ts, none⟩)
    (ht : ∀ u ∈ ts.head?, u.kind ≠ .text) : s = [] ∨ OpensTag s := by
  cases ts with
  | nil => exact Or.inl h.eq_nil
  | cons t ts =>
    have h : Lexes o s (Tokenization.cons t ⟨ts, none⟩) := h
    rcases lexes_cons_iff.1 h with ⟨k, r, body, after, rfl, hc, -, -⟩ | ⟨w, r, -, -, -, -,
      rfl, -⟩
    · exact Or.inr (opensTag_of_firstCut hc)
    · exact absurd rfl (ht _ rfl)

/-! ### Cutting -/

/-- Between two tokens a template can be cut: both parts keep their tokens. -/
theorem Lexes.split {ts us : List Token} {u : Option UnterminatedTag}
    (h : Lexes o s ⟨ts ++ us, u⟩) : ∃ front back, s = front ++ back ∧
      Lexes o front ⟨ts, none⟩ ∧
      Lexes (o + byteSize front) back ⟨us, u⟩ := by
  induction ts generalizing o s with
  | nil => exact ⟨[], s, rfl, .done, h⟩
  | cons t ts ih =>
    have h : Lexes o s (Tokenization.cons t ⟨ts ++ us, u⟩) := h
    rcases lexes_cons_iff.1 h with
      ⟨k, r, body, after, rfl, hc, rfl, hz⟩ | ⟨w, r, rfl, hne, hf, hr, rfl, hz⟩
    · obtain ⟨front, back, rfl, hfront, hback⟩ := ih hz
      have hparts := hc.parts
      subst hparts
      refine ⟨TagKind.opener k ++ (body ++ TagKind.closer k ++ front), back, by simp, ?_, ?_⟩
      · exact .tag hc.of_append hfront
      · rwa [stop_tag_add] at hback
    · obtain ⟨front, back, rfl, hfront, hback⟩ := ih hz
      refine ⟨w ++ front, back, (List.append_assoc ..).symm, ?_, ?_⟩
      · -- The next token is a tag, in the front part as in the whole.
        refine .text hne hf.of_append (hfront.opensTag_or_nil fun v hv => ?_) hfront
        refine hz.head?_ne_text hr ?_
        cases ts with
        | nil => exact absurd hv (by simp)
        | cons t' ts => exact hv
      · rw [stop_text] at hback
        rwa [byteSize_append, ← Nat.add_assoc]

/-! ### Joining -/

/-- Tokens in front of others. Text at the end of the first and text at the start of the second
is one token. -/
def joinTokens : List Token → List Token → List Token
  | [], us => us
  | [t], [] => [t]
  | [t], u :: us =>
    if t.kind = .text ∧ u.kind = .text then ⟨.text, t.body ++ u.body, t.start⟩ :: us
    else t :: u :: us
  | t :: t' :: ts, us => t :: joinTokens (t' :: ts) us

theorem joinTokens_cons {us : List Token} (h : t.kind ≠ .text) (ts : List Token) :
    joinTokens (t :: ts) us = t :: joinTokens ts us := by
  cases ts with
  | nil =>
    cases us with
    | nil => rfl
    | cons u us => exact if_neg fun hk => h hk.1
  | cons t' ts => rfl

/-- What text needs so that no tag starts in it whatever follows the template: a tag behind it,
or a last character that opens none. -/
theorem TagFree.append_right {w r : Text} (h : TagFree w r)
    (hc : ¬ TagKind.comment.opener <:+: w) (hr : r = [] ∧ w.getLast? ≠ some '{' ∨ OpensTag r)
    (u : Text) : TagFree w (r ++ u) := by
  rintro a b rfl hb ⟨k, v, hv, -⟩
  cases b with
  | nil => exact hb rfl
  | cons c b =>
    simp only [TagKind.opener, List.cons_append, List.nil_append, List.cons.injEq] at hv
    obtain ⟨rfl, hv⟩ := hv
    cases b with
    | nil =>
      -- The brace is the last character, so behind it there is a tag, and one starts at the
      -- brace.
      rcases hr with ⟨-, hlast⟩ | ⟨k', r', rfl, -⟩
      · exact hlast (by simp)
      · refine h a ['{'] rfl (by simp) ⟨.variable, k'.mark :: r', rfl, fun hk => ?_⟩
        exact absurd hk (by decide)
    | cons d b =>
      simp only [List.cons_append, List.cons.injEq] at hv
      obtain ⟨rfl, -⟩ := hv
      have hk : k ≠ .comment := by
        rintro rfl
        exact hc ⟨a, b, by simp [TagKind.opener]⟩
      exact h a ('{' :: k.mark :: b) rfl (by simp) ⟨k, b ++ r, rfl, fun he => absurd he hk⟩

theorem TagFree.append {w w' r : Text} (h : TagFree w (w' ++ r)) (h' : TagFree w' r) :
    TagFree (w ++ w') r := by
  intro a b he hb
  rcases List.append_eq_append_iff.1 he with ⟨m, -, hm⟩ | ⟨m, hm, rfl⟩
  · exact h' m b hm hb
  · by_cases hne : m = []
    · subst hne
      exact h' [] w' rfl hb
    · rw [List.append_assoc]
      exact h a m hm hne

/-- Text in front of a template is a token of its own, or one with the text that the template
starts with. -/
theorem Lexes.text_join {w : Text} (hw : w ≠ []) (hfree : ∀ r, TagFree w r)
    (h : Lexes (o + byteSize w) s z) :
    Lexes o (w ++ s) ⟨joinTokens [⟨.text, w, o⟩] z.tokens, z.failure⟩ := by
  rw [← stop_text] at h
  generalize hn : Token.stop ⟨.text, w, o⟩ = n at h
  cases h with
  | done =>
    subst hn
    exact .text hw (hfree []) (Or.inl rfl) .done
  | @unterminated _ k r hk hr =>
    subst hn
    exact .text hw (hfree _) (Or.inr ⟨k, r, rfl, fun h => absurd h hk⟩) (.unterminated hk hr)
  | @tag _ k r body after z hc hz =>
    subst hn
    exact .text hw (hfree _) (Or.inr (opensTag_of_firstCut hc)) (.tag hc hz)
  | @text _ w' r z hne hf hr hz =>
    subst hn
    rw [← List.append_assoc]
    refine .text (by simp [hw]) ((hfree (w' ++ r)).append hf) hr ?_
    rw [stop_text] at hz ⊢
    rwa [stop_text, Nat.add_assoc, ← byteSize_append] at hz

/-- Two templates can be joined if no comment is left open in the text of the first, and its
last character is no opening brace. -/
theorem Lexes.join {ts : List Token} {r : Text} (h : Lexes o s ⟨ts, none⟩)
    (hc : ∀ t ∈ ts, t.kind = .text → ¬ TagKind.comment.opener <:+: t.body)
    (hl : s.getLast? ≠ some '{') (hr : Lexes (o + byteSize s) r z) :
    Lexes o (s ++ r) ⟨joinTokens ts z.tokens, z.failure⟩ := by
  induction ts generalizing o s with
  | nil =>
    obtain rfl := h.eq_nil
    exact hr
  | cons t ts ih =>
    have h : Lexes o s (Tokenization.cons t ⟨ts, none⟩) := h
    have hcs : ∀ u ∈ ts, u.kind = .text → ¬ TagKind.comment.opener <:+: u.body :=
      fun u hu => hc u (List.mem_cons_of_mem _ hu)
    -- The last character of a rest is the last one of the whole.
    have hlast : ∀ a u : Text, s = a ++ u → u.getLast? ≠ some '{' := by
      rintro a u rfl hu
      refine hl ?_
      rw [List.getLast?_append, hu]
      rfl
    rcases lexes_cons_iff.1 h with
      ⟨k, r', body, after, rfl, hcut, rfl, hz⟩ | ⟨w, r', rfl, hne, hf, hnext, rfl, hz⟩
    · have hparts := hcut.parts
      subst hparts
      rw [← stop_tag_add] at hr
      rw [joinTokens_cons (by simp), List.append_assoc]
      refine .tag (hcut.append r) (ih hz hcs ?_ hr)
      exact hlast (TagKind.opener k ++ (body ++ TagKind.closer k)) after (by simp)
    · have hopen : ¬ TagKind.comment.opener <:+: w := hc _ (List.mem_cons_self ..) rfl
      cases ts with
      | nil =>
        obtain rfl := hz.eq_nil
        rw [List.append_nil] at hl hr ⊢
        exact .text_join hne (fun u => hf.append_right hopen (Or.inl ⟨rfl, hl⟩) u) hr
      | cons t' ts =>
        have ho : OpensTag r' := by
          rcases hnext with rfl | ho
          · exact absurd (hz.unique .done) (by simp)
          · exact ho
        rw [List.append_assoc]
        rw [byteSize_append, ← Nat.add_assoc, ← stop_text w o] at hr
        exact .text hne (hf.append_right hopen (Or.inr ho) r) (Or.inr (ho.append r))
          (ih hz hcs (hlast w r' rfl) hr)

/-! ### Moving -/

/-- The token in a template that starts `n` bytes later. -/
def Token.shift (n : Nat) (t : Token) : Token := { t with start := n + t.start }

@[simp] theorem Token.kind_shift (n : Nat) (t : Token) : (t.shift n).kind = t.kind := rfl

@[simp] theorem Token.contents_shift (n : Nat) (t : Token) :
    (t.shift n).contents = t.contents := rfl

theorem Token.stop_shift (n : Nat) (t : Token) : (t.shift n).stop = n + t.stop :=
  Nat.add_assoc ..

/-- The error in a template that starts `n` bytes later. -/
def UnterminatedTag.shift (n : Nat) (e : UnterminatedTag) : UnterminatedTag :=
  { e with offset := n + e.offset }

/-- The tokenization of a template that starts `n` bytes later. -/
def Tokenization.shift (n : Nat) (z : Tokenization) : Tokenization :=
  ⟨z.tokens.map (Token.shift n), z.failure.map (UnterminatedTag.shift n)⟩

theorem Lexes.shift (h : Lexes o s z) (n : Nat) : Lexes (n + o) s (z.shift n) := by
  induction h with
  | done => exact .done
  | unterminated hk hr => exact .unterminated hk hr
  | @tag o k r body after z hc _ ih =>
    rw [← Token.stop_shift] at ih
    exact .tag hc ih
  | @text o w r z hne hf hr _ ih =>
    rw [← Token.stop_shift] at ih
    exact .text hne hf hr ih

end TemplateCatalog
