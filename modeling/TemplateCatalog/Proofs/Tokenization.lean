/-
The tokenization of a template is lossless, and the only one of its kind.

`IsTokenization template z` says what a tokenization is by places in the template alone: the
tokens lie side by side from the first byte on, tags end at their first closer, no tag starts
inside text, text is not cut in two, and an error names a variable or a block that is never
closed. The main result, `isTokenization_iff_and_items`, says that every template has exactly
one such tokenization, the one that `tokenize` computes, and that the cursor yields its tokens,
then its error, then nothing.

The link is the relation `Lexes`: it derives what `IsTokenization` describes
(`Lexes.isTokenizationFrom`), and whatever is so described can be derived
(`IsTokenizationFrom.lexes`).
-/
import TemplateCatalog.Proofs.FragmentLayout
import TemplateCatalog.Proofs.Lexing
import Mathlib.Data.List.Chain
import Mathlib.Data.List.TakeWhile

namespace TemplateCatalog

open Text

/-! ### Places inside a text -/

namespace Text

/-- A place inside `s` has a part of `s` in front of what follows `s`. -/
theorem At.split {t s r r' : Text} {o i : Nat} (h : At t o (s ++ r)) (h' : At t i r')
    (ho : o ≤ i) (hi : i < o + byteSize s) : ∃ a b, s = a ++ b ∧ b ≠ [] ∧ r' = b ++ r := by
  obtain ⟨f, rfl, rfl⟩ := h
  obtain ⟨f', he, rfl⟩ := h'
  rcases List.append_eq_append_iff.1 he with ⟨m, rfl, hm⟩ | ⟨m, rfl, rfl⟩
  · rw [byteSize_append] at hi
    rcases List.append_eq_append_iff.1 hm with ⟨n, rfl, rfl⟩ | ⟨n, rfl, rfl⟩
    · rw [byteSize_append] at hi
      omega
    · refine ⟨m, n, rfl, ?_, rfl⟩
      rintro rfl
      rw [List.append_nil] at hi
      omega
  · -- The place is in front of `s`, so it is where `s` starts.
    rw [byteSize_append] at ho
    have hm : m = [] := eq_nil_of_byteSize_eq_zero (by omega)
    subst hm
    refine ⟨[], s, rfl, ?_, rfl⟩
    rintro rfl
    simp at hi

/-! ### Trimming -/

/-- `u` is `s` without the blanks at its ends. -/
def TrimsTo (s u : Text) : Prop :=
  ∃ front back, s = front ++ u ++ back ∧ (∀ c ∈ front, isBlank c = true) ∧
    (∀ c ∈ back, isBlank c = true) ∧ (∀ c ∈ u.head?, isBlank c = false) ∧
    ∀ c ∈ u.getLast?, isBlank c = false

theorem trimEnd_append_blanks (s : Text) :
    ∃ back, s = trimEnd s ++ back ∧ ∀ c ∈ back, isBlank c = true := by
  refine ⟨(s.reverse.takeWhile isBlank).reverse, ?_, ?_⟩
  · rw [trimEnd, ← List.reverse_append, List.takeWhile_append_dropWhile, List.reverse_reverse]
  · intro c hc
    rw [List.mem_reverse] at hc
    exact List.mem_takeWhile_imp hc

theorem head?_trimStart {s : Text} {c : Char} (h : c ∈ (trimStart s).head?) :
    isBlank c = false := by
  have hd := List.head?_dropWhile_not isBlank s
  rw [trimStart, Option.mem_def] at h
  simpa [h] using hd

theorem getLast?_trimEnd {s : Text} {c : Char} (h : c ∈ (trimEnd s).getLast?) :
    isBlank c = false := by
  have hd := List.head?_dropWhile_not isBlank s.reverse
  rw [trimEnd, List.getLast?_reverse, Option.mem_def] at h
  simpa [h] using hd

/-- The blanks in front, what is between, and the blanks behind. -/
theorem leadingBlanks_append_trim (s : Text) :
    ∃ back, s = leadingBlanks s ++ (trim s ++ back) ∧ ∀ c ∈ back, isBlank c = true := by
  obtain ⟨back, hb, hbb⟩ := trimEnd_append_blanks (trimStart s)
  refine ⟨back, ?_, hbb⟩
  rw [trim, ← hb, leadingBlanks_append_trimStart]

theorem trimsTo_trim (s : Text) : TrimsTo s (trim s) := by
  obtain ⟨back, hb, hbb⟩ := trimEnd_append_blanks (trimStart s)
  refine ⟨leadingBlanks s, back, ?_, fun c hc => List.mem_takeWhile_imp hc, hbb, ?_,
    fun c hc => getLast?_trimEnd hc⟩
  · rw [trim, List.append_assoc, ← hb, leadingBlanks_append_trimStart]
  · intro c hc
    have hh : c ∈ (trimStart s).head? := by
      rw [trim] at hc
      rw [hb, List.head?_append, Option.mem_def, Option.mem_def.1 hc]
      rfl
    exact head?_trimStart hh

end Text

/-! ### What a tokenization is -/

/-- The tokens lie side by side from byte `i` to byte `j`, and none is empty. -/
def Tiles : Nat → List Token → Nat → Prop
  | i, [], j => i = j
  | i, t :: ts, j => t.start = i ∧ i < t.stop ∧ Tiles t.stop ts j

/-- The byte at which the tokens end: that of the tag that is never closed, or the end. -/
def Tokenization.stop (z : Tokenization) (template : Text) : Nat :=
  match z.failure with
  | none => byteSize template
  | some e => e.offset

/-- `z` is a tokenization of the template from byte `o` on. -/
structure IsTokenizationFrom (template : Text) (o : Nat) (z : Tokenization) : Prop where
  /-- The tokens lie side by side up to the end, or up to the tag that is never closed. -/
  tiles : Tiles o z.tokens (z.stop template)
  /-- Their sources join to the text that they cover. -/
  sources : ∃ r, At template o (z.tokens.flatMap Token.source ++ r)
  /-- A tag stands behind its opener and ends at the first closer after that. -/
  tags : ∀ t ∈ z.tokens, ∀ k, t.kind = .tag k →
    ∃ r after, At template t.start (k.opener ++ r) ∧ FirstCut k.closer r t.body after
  /-- The contents of variables and blocks are what stands between the delimiters, trimmed. -/
  contents : ∀ t ∈ z.tokens, t.kind = .tag .variable ∨ t.kind = .tag .block →
    TrimsTo t.body t.contents
  /-- No tag starts inside text. -/
  text : ∀ t ∈ z.tokens, t.kind = .text → ∀ i r, At template i r → t.start ≤ i → i < t.stop →
    ¬ OpensTag r
  /-- Text is never next to text. -/
  apart : z.tokens.IsChain fun t u => ¬ (t.kind = .text ∧ u.kind = .text)
  /-- An error stands at the opener of a variable or a block without a closer after it. -/
  failure : ∀ e ∈ z.failure, e.kind ≠ .comment ∧
    ∃ r, At template e.offset (e.kind.opener ++ r) ∧ ¬ e.kind.closer <:+: r

/-- `z` is a tokenization of the template. -/
def IsTokenization (template : Text) (z : Tokenization) : Prop :=
  IsTokenizationFrom template 0 z

theorem Token.trimsTo_contents {t : Token}
    (h : t.kind = .tag .variable ∨ t.kind = .tag .block) : TrimsTo t.body t.contents := by
  rcases h with h | h <;> rw [Token.contents, h] <;> exact trimsTo_trim _

theorem Token.start_lt_stop {t : Token} (h : t.kind = .text → t.body ≠ []) :
    t.start < t.stop := by
  have hs : t.source ≠ [] := by
    rw [Token.source]
    cases hk : t.kind with
    | text => simpa [TokenKind.opener, TokenKind.closer] using h hk
    | tag k => simp [TokenKind.opener, TagKind.opener]
  have := List.length_pos_iff.2 hs
  have := length_le_byteSize t.source
  rw [Token.stop]
  omega

theorem Token.source_tag (k : TagKind) (body : Text) (o : Nat) :
    Token.source ⟨.tag k, body, o⟩ = k.opener ++ body ++ k.closer := rfl

theorem Token.source_text (s : Text) (o : Nat) : Token.source ⟨.text, s, o⟩ = s := by
  simp [Token.source, TokenKind.opener, TokenKind.closer]

variable {template : Text} {o : Nat} {z : Tokenization}

/-! ### The rules derive a tokenization -/

theorem isTokenizationFrom_nil (h : At template o []) :
    IsTokenizationFrom template o ⟨[], none⟩ where
  tiles := by simpa [Tiles, Tokenization.stop] using h.size
  sources := ⟨[], h⟩
  tags := by simp
  contents := by simp
  text := by simp
  apart := .nil
  failure := by simp

theorem isTokenizationFrom_unterminated {k : TagKind} {r : Text}
    (h : At template o (k.opener ++ r)) (hk : k ≠ .comment) (hn : ¬ k.closer <:+: r) :
    IsTokenizationFrom template o ⟨[], some ⟨k, o⟩⟩ where
  tiles := rfl
  sources := ⟨_, h⟩
  tags := by simp
  contents := by simp
  text := by simp
  apart := .nil
  failure := by
    intro e he
    obtain rfl := Option.some.inj he
    exact ⟨hk, r, h, hn⟩

theorem IsTokenizationFrom.cons {t : Token} {after : Text}
    (hz : IsTokenizationFrom template t.stop z) (h : At template t.start (t.source ++ after))
    (hne : t.kind = .text → t.body ≠ [])
    (htag : ∀ k, t.kind = .tag k →
      ∃ r after, At template t.start (k.opener ++ r) ∧ FirstCut k.closer r t.body after)
    (htext : t.kind = .text → TagFree t.body after)
    (hnext : ∀ u ∈ z.tokens.head?, ¬ (t.kind = .text ∧ u.kind = .text)) :
    IsTokenizationFrom template t.start (z.cons t) where
  tiles := ⟨rfl, Token.start_lt_stop hne, hz.tiles⟩
  sources := by
    obtain ⟨r, hr⟩ := hz.sources
    refine ⟨r, ?_⟩
    -- Behind the token the later sources stand.
    rw [← At.unique hr (h.add : At template t.stop after)] at h
    simpa [Tokenization.cons, List.flatMap_cons, List.append_assoc] using h
  tags := by
    intro u hu k hk
    rcases List.mem_cons.1 hu with rfl | hu
    · exact htag k hk
    · exact hz.tags u hu k hk
  contents := fun u _ hk => u.trimsTo_contents hk
  text := by
    intro u hu hk i r hi h1 h2
    rcases List.mem_cons.1 hu with rfl | hu
    · have hs : u.source = u.body := by
        rw [Token.source, hk]
        simp [TokenKind.opener, TokenKind.closer]
      rw [Token.stop, hs] at h2
      rw [hs] at h
      -- A place inside the text has a part of it in front of what follows.
      obtain ⟨a, b, hab, hb, rfl⟩ := h.split hi h1 h2
      exact htext hk a b hab hb
    · exact hz.text u hu hk i r hi h1 h2
  apart := List.isChain_cons.2 ⟨hnext, hz.apart⟩
  failure := hz.failure

theorem Lexes.head?_ne_text {s : Text} (h : Lexes o s z) (hs : s = [] ∨ OpensTag s) {u : Token}
    (hu : u ∈ z.tokens.head?) : u.kind ≠ .text := by
  cases h with
  | done => simp at hu
  | unterminated => simp at hu
  | tag =>
    simp only [Tokenization.cons, List.head?_cons, Option.mem_some_iff] at hu
    rw [← hu]
    simp
  | text hne hf =>
    rcases hs with hs | hs
    · exact absurd (List.append_eq_nil_iff.1 hs).1 hne
    · exact absurd hs (hf.not_opensTag hne)

/-- What the rules derive is a tokenization. -/
theorem Lexes.isTokenizationFrom {s : Text} (h : Lexes o s z) (hs : At template o s) :
    IsTokenizationFrom template o z := by
  induction h with
  | done => exact isTokenizationFrom_nil hs
  | unterminated hk hn => exact isTokenizationFrom_unterminated hs hk hn
  | @tag o k r body after z hc hz ih =>
    have hsrc : At template o (Token.source ⟨.tag k, body, o⟩ ++ after) := by
      rw [Token.source_tag]
      simpa [hc.parts] using hs
    refine (ih hsrc.add).cons hsrc (by simp) ?_ (by simp) (by simp)
    intro k' hk'
    obtain rfl := TokenKind.tag.inj hk'
    exact ⟨r, after, hs, hc⟩
  | @text o s r z hne hf hr hz ih =>
    have hsrc : At template o (Token.source ⟨.text, s, o⟩ ++ r) := by
      rw [Token.source_text]
      exact hs
    refine (ih hsrc.add).cons hsrc (fun _ => hne) (by simp) (fun _ => hf) ?_
    rintro u hu ⟨-, hk⟩
    exact hz.head?_ne_text hr hu hk

/-! ### Every tokenization is derived -/

/-- What follows text in a tokenization is the end or a tag that counts. -/
theorem IsTokenizationFrom.opensTag_next {t : Token} {r : Text}
    (h : IsTokenizationFrom template t.start (z.cons t)) (ht : t.kind = .text)
    (hr : At template t.stop r) : r = [] ∨ OpensTag r := by
  -- The byte after the text is the end, the byte of the error, or that of the next token.
  have htiles := h.tiles
  rcases z with ⟨tokens, failure⟩
  cases tokens with
  | nil =>
    have hstop : t.stop = (Tokenization.stop ⟨[], failure⟩ template) := htiles.2.2
    cases failure with
    | none =>
      rw [hstop] at hr
      exact Or.inl hr.eq_nil
    | some e =>
      obtain ⟨hk, r', hr', -⟩ := h.failure e rfl
      rw [hstop] at hr
      rw [hr.unique hr']
      exact Or.inr ⟨e.kind, r', rfl, fun hc => absurd hc hk⟩
  | cons u us =>
    have hu : t.stop = u.start := htiles.2.2.1.symm
    cases hk : u.kind with
    | text =>
      exact absurd ⟨ht, hk⟩ ((List.isChain_cons_cons.1 h.apart).1)
    | tag k =>
      obtain ⟨r', after, hr', hc⟩ := h.tags u (by simp [Tokenization.cons]) k hk
      rw [hu] at hr
      rw [hr.unique hr']
      exact Or.inr (opensTag_of_firstCut hc)

theorem IsTokenizationFrom.tail {t : Token}
    (h : IsTokenizationFrom template t.start (z.cons t)) :
    IsTokenizationFrom template t.stop z where
  tiles := h.tiles.2.2
  sources := by
    obtain ⟨r, hr⟩ := h.sources
    refine ⟨r, At.add (t := t.source) ?_⟩
    simpa [Tokenization.cons, List.flatMap_cons, List.append_assoc] using hr
  tags := fun u hu => h.tags u (List.mem_cons_of_mem _ hu)
  contents := fun u hu => h.contents u (List.mem_cons_of_mem _ hu)
  text := fun u hu => h.text u (List.mem_cons_of_mem _ hu)
  apart := h.apart.tail
  failure := h.failure

/-- Whatever is a tokenization can be derived. -/
theorem IsTokenizationFrom.lexes {s : Text} (h : IsTokenizationFrom template o z)
    (hs : At template o s) : Lexes o s z := by
  rcases z with ⟨tokens, failure⟩
  induction tokens generalizing o s with
  | nil =>
    have ho : o = Tokenization.stop ⟨[], failure⟩ template := h.tiles
    cases failure with
    | none =>
      rw [ho] at hs
      rw [hs.eq_nil]
      exact .done
    | some e =>
      obtain ⟨hk, r, hr, hn⟩ := h.failure e rfl
      have ho : o = e.offset := ho
      rw [← ho] at hr
      rw [hs.unique hr]
      rcases e with ⟨k, o'⟩
      obtain rfl := ho
      exact .unterminated hk hn
  | cons t ts ih =>
    obtain ⟨rfl, hlt, -⟩ := h.tiles
    have hz : IsTokenizationFrom template t.start (Tokenization.cons t ⟨ts, failure⟩) := h
    obtain ⟨r, hr⟩ := hz.tail.sources
    have hsource : At template t.start (t.source ++ (ts.flatMap Token.source ++ r)) := by
      obtain ⟨r', hr'⟩ := h.sources
      have hr'' : At template t.start (t.source ++ (ts.flatMap Token.source ++ r')) := by
        simpa [List.flatMap_cons, List.append_assoc] using hr'
      rwa [hr.unique (hr''.add : At template t.stop _)]
    -- By induction the later tokens are derived; the rule for the first one is left.
    have hlater := ih hr hz.tail
    rw [hs.unique hsource]
    rcases t with ⟨kind, body, start⟩
    cases kind with
    | text =>
      rw [Token.source_text] at hsource ⊢
      refine .text ?_ ?_ (hz.opensTag_next rfl hr) hlater
      · rintro rfl
        simp at hlt
      · intro a b hab hb
        have hpos := List.length_pos_iff.2 hb
        have hle := length_le_byteSize b
        rw [hab, List.append_assoc] at hsource
        refine h.text _ (List.mem_cons_self ..) rfl _ _ hsource.add (Nat.le_add_right _ _) ?_
        show start + byteSize a < _
        rw [stop_text, hab, byteSize_append]
        omega
    | tag k =>
      obtain ⟨r', after, hr', hc⟩ := h.tags _ (List.mem_cons_self ..) k rfl
      have he := hsource.unique hr'
      rw [Token.source_tag, List.append_assoc, List.append_assoc] at he
      -- The first closer is the one that the token ends with.
      have hafter : after = ts.flatMap Token.source ++ r := by
        have := (opener_inj he).2
        rw [hc.parts, List.append_assoc] at this
        exact (List.append_cancel_left (List.append_cancel_left this)).symm
      rw [hsource.unique hr']
      exact .tag (hafter ▸ hc) hlater

/-! ### Where tokens lie -/

/-- The bytes that a token takes. -/
def Token.span (t : Token) : Fragment := ⟨t.start, t.source⟩

/-- Tokens that lie side by side are spread. -/
theorem Tiles.spread {i j : Nat} {ts : List Token} (h : Tiles i ts j) :
    Spread i (ts.map Token.span) j := by
  induction ts generalizing i with
  | nil => exact Nat.le_of_eq h
  | cons t ts ih => exact ⟨Nat.le_of_eq h.1.symm, ih h.2.2⟩

theorem Tiles.pairwise {i j : Nat} {ts : List Token} (h : Tiles i ts j) :
    ts.Pairwise fun t u => t.stop ≤ u.start := List.pairwise_map.1 h.spread.pairwise

theorem IsTokenizationFrom.token_at (h : IsTokenizationFrom template o z) {t : Token}
    (ht : t ∈ z.tokens) : ∃ r, At template t.start (t.source ++ r) := by
  rcases z with ⟨tokens, failure⟩
  induction tokens generalizing o with
  | nil => exact absurd ht (by simp)
  | cons u ts ih =>
    obtain ⟨rfl, -, -⟩ := h.tiles
    rcases List.mem_cons.1 ht with rfl | ht
    · obtain ⟨r, hr⟩ := h.sources
      exact ⟨ts.flatMap Token.source ++ r, by simpa [List.flatMap_cons] using hr⟩
    · exact ih (IsTokenizationFrom.tail (z := ⟨ts, failure⟩) h) ht

/-! ### The stream of items -/

/-- All items that a cursor yields, step after step, until it yields none. -/
def Cursor.items (c : Cursor) : List (Except UnterminatedTag Token) :=
  match _h : c.next? with
  | none => []
  | some (x, c') => x :: c'.items
termination_by c.rest.length
decreasing_by exact Cursor.next?_rest_length _h

/-- The tokens, and then the error if there is one. -/
def Tokenization.items (z : Tokenization) : List (Except UnterminatedTag Token) :=
  z.tokens.map .ok ++ z.failure.toList.map .error

theorem Cursor.items_of_none {c : Cursor} (h : c.next? = none) : c.items = [] := by
  rw [items]
  split <;> simp_all

theorem Cursor.items_of_some {c c' : Cursor} {x : Except UnterminatedTag Token}
    (h : c.next? = some (x, c')) : c.items = x :: c'.items := by
  rw [items]
  split <;> simp_all

theorem Cursor.next?_of_rest_nil {c : Cursor} (h : c.rest = []) : c.next? = none := by
  simp [next?, h, findTag]

/-- The error of a sound cursor is its last item. -/
theorem Cursor.items_of_error {c c' : Cursor} (hc : c.Sound) {e : UnterminatedTag}
    (h : c.next? = some (.error e, c')) : c'.items = [] := by
  rcases next?_cases hc with ⟨-, hnone⟩ | ⟨x, c'', hsome, step, -⟩
  · cases hnone.symm.trans h
  · cases hsome.symm.trans h
    cases step with
    | unterminated _ _ _ left => exact items_of_none (next?_of_rest_nil left)

/-- A sound cursor yields its tokens, and then its error. -/
theorem Cursor.items_eq {c : Cursor} (h : c.Sound) : c.items = c.tokens.items := by
  fun_induction tokens c with
  | case1 c hn =>
    rw [items_of_none hn]
    rfl
  | case2 c e c' hn =>
    rw [items_of_some hn, items_of_error h hn]
    rfl
  | case3 c t c' hn later ih =>
    rcases next?_cases h with ⟨-, hs⟩ | ⟨x, c'', hs, -, sound⟩
    · rw [hn] at hs
      exact absurd hs (by simp)
    · rw [hn, Option.some.injEq, Prod.mk.injEq] at hs
      rw [items_of_some hn, ih (hs.2 ▸ sound)]
      rfl

/-! ### The main result -/

theorem isTokenization_tokenize (template : Text) :
    IsTokenization template (tokenize template) :=
  (lexes_tokenize_iff.2 rfl).isTokenizationFrom (At.start template)

/-- **Every template has exactly one tokenization**, and the cursor yields its tokens, then its
error, then nothing. -/
theorem isTokenization_iff_and_items (template : Text) :
    (∀ z, IsTokenization template z ↔ z = tokenize template) ∧
      (Cursor.start template).items = (tokenize template).items := by
  refine ⟨fun z => ⟨fun h => ?_, ?_⟩, Cursor.items_eq (Cursor.sound_start template)⟩
  · exact (lexes_tokenize_iff.1 (h.lexes (At.start template))).symm
  · rintro rfl
    exact isTokenization_tokenize template

end TemplateCatalog
