/-
The lexer can be restarted at every token boundary.

The lexer on byte offsets remembers where the nearest closer of a comment is, and the cursor
remembers when none is left. Neither memory can be noticed. The main result,
`restartable_of_reached`, says of every place that the lexer or the cursor comes to:

* an answer from memory is the one that a search from there would give (`Consults`);
* the items that are left are those of the rest of the template, read from its start, at the
  bytes where they stand in the whole (`shiftItem`);
* nothing comes after an error.

For the lexer one invariant carries this: the memory is true for searches from two bytes
further on, since every opener is passed before its closer is looked for (`MemoSound`). It
holds at every place that is reached (`Reached.sound`) and at every turn of the search for a
tag (`Searching.tagAhead`).
-/
import TemplateCatalog.Proofs.SlicedTokens

namespace TemplateCatalog

open Text

/-! ### Moved items -/

/-- An item of a lexer `n` bytes later; `shift` moves its tokens. -/
def shiftItem {α : Type} (shift : Nat → α → α) (n : Nat) :
    Except UnterminatedTag α → Except UnterminatedTag α
  | .ok t => .ok (shift n t)
  | .error e => .error (e.shift n)

theorem Tokenization.items_shift (z : Tokenization) (n : Nat) :
    (z.shift n).items = z.items.map (shiftItem Token.shift n) := by
  obtain ⟨ts, failure⟩ := z
  rw [items, items, shift, List.map_append, List.map_map, List.map_map]
  cases failure <;> rfl

/-- Read from byte `n` on, a text has the tokens that it has when it is read from the start. -/
theorem Lexes.eq_shift {s : Text} {n : Nat} {z : Tokenization} (h : Lexes n s z) :
    z = (tokenize s).shift n :=
  h.unique ((lexes_tokenize_iff.2 rfl).shift n)

/-! ### The cursor -/

namespace Cursor

/-- The cursor comes to be `c` when it reads the template. -/
inductive Reached (template : Text) : Cursor → Prop
  | start : Reached template (Cursor.start template)
  | next {c c' : Cursor} {x : Except UnterminatedTag Token} (h : Reached template c)
      (hnext : c.next? = some (x, c')) : Reached template c'

/-- At the cursor, reading can start anew. -/
structure Restartable (template : Text) (c : Cursor) : Prop where
  place : At template c.offset c.rest
  /-- What the cursor remembers is true. -/
  memory : c.commentsOver = true → ¬TagKind.comment.closer <:+: c.rest
  items : c.items = (Cursor.start c.rest).items.map (shiftItem Token.shift c.offset)
  failed : ∀ e c', c.next? = some (.error e, c') → c'.items = []

variable {template : Text} {c c' : Cursor}

theorem offset_of_error {e : UnterminatedTag} (h : c.next? = some (.error e, c')) :
    c'.offset = c.offset + byteSize c.rest := by
  unfold next? at h
  dsimp only at h
  split at h
  · exact absurd h (by simp)
  · split at h
    · rw [Option.some.injEq, Prod.mk.injEq] at h
      rw [← h.2, skip]
    · exact absurd h (by simp)
  · exact absurd h (by simp)

/-- A step leads to a place further on. -/
theorem Step.place {x : Except UnterminatedTag Token} (h : Step c x c')
    (hnext : c.next? = some (x, c')) (hc : At template c.offset c.rest) :
    At template c'.offset c'.rest := by
  cases h with
  | unterminated _ _ _ left =>
    rw [offset_of_error hnext, left]
    rw [← List.append_nil c.rest] at hc
    exact hc.add
  | tag rest cut offset =>
    rw [rest, cut.parts, ← List.append_assoc, ← List.append_assoc] at hc
    rw [offset, Token.source_tag]
    exact hc.add
  | text rest _ _ _ offset =>
    rw [rest] at hc
    rw [offset]
    exact hc.add

theorem Reached.sound (h : Reached template c) : c.Sound ∧ At template c.offset c.rest := by
  induction h with
  | start => exact ⟨sound_start template, At.start template⟩
  | next _ hnext ih =>
    obtain ⟨hsound, hplace⟩ := ih
    rcases next?_cases hsound with ⟨-, hnone⟩ | ⟨x, c'', hsome, hstep, hsound'⟩
    · cases hnone.symm.trans hnext
    · cases hsome.symm.trans hnext
      exact ⟨hsound', hstep.place hnext hplace⟩

theorem Reached.restartable (h : Reached template c) : c.Restartable template := by
  obtain ⟨hsound, hplace⟩ := h.sound
  refine ⟨hplace, hsound, ?_, fun _ _ => items_of_error hsound⟩
  rw [items_eq hsound, (lexes_tokens hsound).eq_shift, Tokenization.items_shift, tokenize,
    items_eq (sound_start c.rest)]

end Cursor

/-! ### The lexer on byte offsets -/

namespace Sliced

/-- The lexer comes to the place when it reads the template. -/
inductive Reached (s : Slice) : Place → Prop
  | start : Reached s ⟨0, none⟩
  | next {p p' : Place} {x : Except UnterminatedTag TokenPiece} (h : Reached s p)
      (hnext : nextToken? s p = some (some (x, p'))) : Reached s p'

/-- The items that the lexer yields from a place on, until it yields none. -/
inductive Yields (s : Slice) : Place → List (Except UnterminatedTag TokenPiece) → Prop
  | done {p : Place} (hnext : nextToken? s p = some none) : Yields s p []
  | item {p p' : Place} {x : Except UnterminatedTag TokenPiece}
      {xs : List (Except UnterminatedTag TokenPiece)}
      (hnext : nextToken? s p = some (some (x, p'))) (h : Yields s p' xs) :
      Yields s p (x :: xs)

/-- The search for the next tag from the place on comes to the state. -/
inductive Searching (s : Slice) (p : Place) : Nat × Memo → Prop
  | start : Searching s p (p.offset, p.memo)
  | again {state next : Nat × Memo} (h : Searching s p state)
      (hnext : findTagTurn? s.text state = some (.again next)) : Searching s p next

/-- At the place, the lexer asks for the nearest closer of a comment from byte `i` on, with the
memo. -/
inductive Consults (s : Slice) (p : Place) : Memo → Nat → Prop
  /-- The search for the next tag has come to the opener of a comment. -/
  | search {j start : Nat} {memo : Memo} (h : Searching s p (j, memo))
      (hbrace : findFrom? s.text ['{'] j = some (some start))
      (hopener : openerAt? s.text start = some (some .comment)) :
      Consults s p memo (start + delimiterSize)
  /-- The next tag is a comment at the place. -/
  | tag {memo : Memo}
      (h : findTag? s.text p.memo p.offset = some (some (p.offset, .comment), memo)) :
      Consults s p memo (p.offset + delimiterSize)

/-- The piece of a template that starts `n` bytes later. It lies where it lies. -/
def TokenPiece.shift (n : Nat) (t : TokenPiece) : TokenPiece :=
  { t with start := n + t.start, stop := n + t.stop }

/-- At the place, reading can start anew. -/
structure Restartable (s : Slice) (p : Place) : Prop where
  /-- What the lexer remembers is what it would find. -/
  memory : ∀ memo i, Consults s p memo i → ∃ answer memo',
    commentCloser? s.text memo i = some (answer, memo') ∧
      findFrom? s.text TagKind.comment.closer i = some answer
  items : ∃ rest xs, At s.text p.offset rest ∧ Yields ⟨s.start + p.offset, rest⟩ ⟨0, none⟩ xs ∧
    ∀ ys, Yields s p ys ↔ ys = xs.map (shiftItem TokenPiece.shift p.offset)
  failed : ∀ e p', nextToken? s p = some (some (.error e, p')) → Yields s p' []

/-- The text `u` is left at the place, and the memo says the truth about all that is looked up
in it. -/
structure Place.Sound (s : Slice) (u : Text) (p : Place) : Prop where
  rest : At s.text p.offset u
  memory : MemoSound s.text (p.offset + delimiterSize) p.memo

variable {s : Slice} {p p' : Place} {u : Text} {i start : Nat} {memo : Memo} {k : TagKind}
  {e : UnterminatedTag}

/-! ### Places that are reached -/

/-- The tag that is found has its opener where it is found, and its closer is looked up with a
true memo. -/
theorem Place.Sound.findTag (hp : p.Sound s u)
    (h : findTag? s.text p.memo p.offset = some (some (start, k), memo)) :
    (∃ r, At s.text start (k.opener ++ r)) ∧
      MemoSound s.text (start + delimiterSize) memo := by
  obtain ⟨z, hz, hfound⟩ := findTag?_cases hp.rest hp.memory
  obtain rfl := Option.some.inj (hz.symm.trans h)
  cases hfound with
  | @opened w r _ _ parts _ _ sound =>
    have hrest := hp.rest
    rw [parts] at hrest
    exact ⟨⟨r, hrest.add⟩, sound⟩

/-- An item is text from the place on, or a tag that has been found there. -/
theorem nextToken?_eq_some {item : Item} (h : nextToken? s p = some (some item)) :
    (∃ memo stop, textToken? s memo p.offset stop = some item) ∨
      ∃ memo k, findTag? s.text p.memo p.offset = some (some (p.offset, k), memo) ∧
        tagToken? s memo p.offset k = some item := by
  rw [nextToken?] at h
  split at h
  · exact absurd h (by simp)
  · obtain ⟨⟨found, memo⟩, htag, h⟩ := Option.bind_eq_some_iff.1 h
    cases found with
    | none =>
      obtain ⟨item', htext, h⟩ := Option.bind_eq_some_iff.1 h
      obtain rfl := Option.some.inj (Option.some.inj h)
      exact Or.inl ⟨_, _, htext⟩
    | some q =>
      obtain ⟨start, k⟩ := q
      -- A tag that stands further on has text in front of it, which comes first.
      dsimp only at h
      split at h
      · rename_i hstart
        obtain ⟨item', htoken, h⟩ := Option.bind_eq_some_iff.1 h
        obtain rfl := Option.some.inj (Option.some.inj h)
        rw [hstart] at htag htoken
        exact Or.inr ⟨_, _, htag, htoken⟩
      · obtain ⟨item', htext, h⟩ := Option.bind_eq_some_iff.1 h
        obtain rfl := Option.some.inj (Option.some.inj h)
        exact Or.inl ⟨_, _, htext⟩

theorem textToken?_ne_error {stop : Nat} : textToken? s memo i stop ≠ some (.error e, p') := by
  intro h
  obtain ⟨m, -, h⟩ := Option.bind_eq_some_iff.1 h
  cases Option.some.inj h

/-- An error takes all that is left, and the memo stays true. -/
theorem tagToken?_eq_error {r : Text} (h : At s.text i (k.opener ++ r))
    (hmemo : MemoSound s.text (i + delimiterSize) memo)
    (herror : tagToken? s memo i k = some (.error e, p')) :
    p'.offset = byteSize s.text ∧ MemoSound s.text (i + delimiterSize) p'.memo := by
  obtain ⟨memo', hcloser, hmemo'⟩ := closer?_cases (at_body h) hmemo (k := k)
  cases hcut : cut? k.closer r with
  | none =>
    rw [tagToken?, hcloser, hcut] at herror
    obtain ⟨-, rfl⟩ := Prod.mk.inj (Option.some.inj herror)
    exact ⟨rfl, hmemo'⟩
  | some q =>
    have hfirst := cut?_eq_some_iff.1 hcut
    rcases tagToken?_cases h hmemo with ⟨hopen, -⟩ | ⟨_, _, _, -, -, -, htoken⟩
    · exact absurd hfirst.infix hopen
    · cases htoken.symm.trans herror

theorem Place.Sound.of_error (hp : p.Sound s u)
    (h : nextToken? s p = some (some (.error e, p'))) : p'.Sound s [] := by
  rcases nextToken?_eq_some h with ⟨_, _, htext⟩ | ⟨memo, k, htag, htoken⟩
  · exact absurd htext textToken?_ne_error
  · obtain ⟨⟨r, hr⟩, hmemo⟩ := hp.findTag htag
    obtain ⟨hlast, hmemo'⟩ := tagToken?_eq_error hr hmemo htoken
    refine ⟨⟨s.text, (List.append_nil _).symm, hlast.symm⟩, hmemo'.mono ?_⟩
    rw [hlast]
    exact Nat.add_le_add_right hp.rest.le_size _

theorem Reached.sound (h : Reached s p) : ∃ u, p.Sound s u := by
  induction h with
  | start => exact ⟨s.text, At.start s.text, .unknown⟩
  | @next p p' x _ hnext ih =>
    obtain ⟨u, hp⟩ := ih
    obtain ⟨item, hitem, hfound⟩ := nextToken?_cases hp.rest hp.memory
    obtain rfl := Option.some.inj (hitem.symm.trans hnext)
    cases hfound with
    | unclosed => exact ⟨[], hp.of_error hnext⟩
    | token _ rest sound => exact ⟨_, rest, sound⟩

/-! ### Answers from memory -/

theorem Searching.tagAhead (hp : p.Sound s u) {state : Nat × Memo} (h : Searching s p state) :
    TagAhead s.text p.offset u state := by
  induction h with
  | start => exact ⟨[], u, rfl, rfl, hp.rest, tagFree_nil u, hp.memory⟩
  | again _ hnext ih =>
    rcases findTagTurn?_cases ih with ⟨_, hdone, -⟩ | ⟨_, hagain, -, -, hahead⟩
    · cases hdone.symm.trans hnext
    · cases hagain.symm.trans hnext
      exact hahead

/-- Where the lexer asks for a closer, the memo is true. -/
theorem Consults.sound (hp : p.Sound s u) (h : Consults s p memo i) :
    (∃ r, At s.text i r) ∧ MemoSound s.text i memo := by
  cases h with
  | @search j start _ hsearch hbrace hopener =>
    obtain ⟨-, v, -, -, hv, -, hmemo⟩ := hsearch.tagAhead hp
    have hv : At s.text j v := hv
    rw [findFrom?_eq hv] at hbrace
    rcases cut?_char '{' v with ⟨hcut, -⟩ | ⟨b, a, hcut, -, rfl⟩
    · rw [hcut] at hbrace
      cases hbrace
    · rw [hcut] at hbrace
      obtain rfl : j + byteSize b = start := Option.some.inj (Option.some.inj hbrace)
      rcases openerAt?_cases hv.add with ⟨hnone, -⟩ | ⟨k, r, hsome, hr⟩
      · cases hnone.symm.trans hopener
      · cases hsome.symm.trans hopener
        rw [hr] at hv
        exact ⟨⟨r, at_body hv.add⟩, hmemo.mono (Nat.add_le_add_right (Nat.le_add_right _ _) _)⟩
  | tag htag =>
    obtain ⟨⟨r, hr⟩, hmemo⟩ := hp.findTag htag
    exact ⟨⟨r, at_body hr⟩, hmemo⟩

/-! ### Items that are left -/

theorem Yields.unique {xs ys : List (Except UnterminatedTag TokenPiece)} (h : Yields s p xs)
    (h' : Yields s p ys) : xs = ys := by
  induction h generalizing ys with
  | done hnext =>
    cases h' with
    | done => rfl
    | item hnext' => cases hnext.symm.trans hnext'
  | item hnext _ ih =>
    cases h' with
    | done hnext' => cases hnext.symm.trans hnext'
    | item hnext' hys =>
      cases hnext.symm.trans hnext'
      rw [ih hys]

theorem Place.Sound.yields_nil (hp : p.Sound s []) : Yields s p [] := by
  have hend : byteSize s.text ≤ p.offset := hp.rest.size.ge
  refine .done ?_
  rw [nextToken?, if_pos hend]
  rfl

/-- The lexer yields the items of the only tokenization of what is left. -/
theorem Place.Sound.yields {z : Tokenization} (hp : p.Sound s u) (hz : Lexes p.offset u z) :
    Yields s p (z.items.map (Except.map (tokenPiece s.start))) := by
  induction hn : byteSize s.text - p.offset using Nat.strong_induction_on
    generalizing p u z with
  | _ n ih =>
    obtain ⟨item, hitem, hfound⟩ := nextToken?_cases hp.rest hp.memory
    cases hfound with
    | nothing hnil =>
      subst hnil
      obtain rfl := hz.unique .done
      exact .done hitem
    | unclosed hopen =>
      obtain rfl := hz.unique hopen
      exact .item hitem (hp.of_error hitem).yields_nil
    | @token t r memo less rest sound lexes =>
      -- What is left behind the token has a tokenization, and with the token in front it is
      -- this one.
      have hrest := Cursor.lexes_tokens (c := ⟨t.stop, r, false⟩) (noClosersLeft_false r)
      obtain rfl := hz.unique (lexes _ hrest)
      have hsize := rest.le_size
      exact .item hitem (ih _ (by dsimp only; omega) ⟨rest, sound⟩ hrest rfl)

theorem tokenPiece_shift (address n : Nat) (t : Token) :
    tokenPiece address (t.shift n) = (tokenPiece (address + n) t).shift n := by
  obtain ⟨kind, body, start⟩ := t
  rw [TokenPiece.shift, tokenPiece, tokenPiece, Token.stop_shift]
  cases kind with
  | text => simp only [Token.shift, Nat.add_assoc]
  | tag k => cases k <;> simp only [Token.shift, Nat.add_assoc]

/-- Pieces of a moved template are the moved pieces of what lies at the later address. -/
theorem map_items_shift (address n : Nat) (z : Tokenization) :
    (z.shift n).items.map (Except.map (tokenPiece address)) =
      (z.items.map (Except.map (tokenPiece (address + n)))).map
        (shiftItem TokenPiece.shift n) := by
  rw [Tokenization.items_shift, List.map_map, List.map_map]
  refine List.map_congr_left fun x _ => ?_
  cases x with
  | error e => rfl
  | ok t => exact congrArg Except.ok (tokenPiece_shift address n t)

theorem Place.Sound.restartable (hp : p.Sound s u) : Restartable s p where
  memory := by
    intro memo i h
    obtain ⟨⟨r, hr⟩, hmemo⟩ := h.sound hp
    obtain ⟨memo', hanswer, -⟩ := commentCloser?_cases hr hmemo
    exact ⟨_, memo', hanswer, findFrom?_eq hr _⟩
  items := by
    have hz : Lexes 0 u (tokenize u) := lexes_tokenize_iff.2 rfl
    have hstart : Place.Sound ⟨s.start + p.offset, u⟩ u ⟨0, none⟩ := ⟨At.start u, .unknown⟩
    have hall := hp.yields (hz.shift p.offset)
    rw [map_items_shift] at hall
    refine ⟨u, _, hp.rest, hstart.yields hz, fun ys => ⟨fun h => h.unique hall, ?_⟩⟩
    rintro rfl
    exact hall
  failed := fun _ _ h => (hp.of_error h).yields_nil

end Sliced

/-! ### The main result -/

/-- **The lexer can be restarted at every token boundary.** -/
theorem restartable_of_reached (s : Slice) :
    (∀ p, Sliced.Reached s p → Sliced.Restartable s p) ∧
      ∀ c, Cursor.Reached s.text c → c.Restartable s.text := by
  refine ⟨fun p hp => ?_, fun c hc => hc.restartable⟩
  obtain ⟨u, hp⟩ := hp.sound
  exact hp.restartable

/-- Behind the text `a` the closer is known, from the search that found the comment. -/
theorem restartable_of_reached_comment :
    Sliced.Consults ⟨0, "a{#b#}".toList⟩ ⟨1, some (some 4)⟩ (some (some 4)) 3 ∧
      Sliced.Restartable ⟨0, "a{#b#}".toList⟩ ⟨1, some (some 4)⟩ ∧
      Cursor.Restartable "a{#b#}".toList ⟨1, "{#b#}".toList, false⟩ := by
  have hfind :
      Sliced.findTag? "a{#b#}".toList none 0 = some (some (1, .comment), some (some 4)) := by
    rw [Sliced.findTag?, loop?]
    rfl
  have hagain : Sliced.findTag? "a{#b#}".toList (some (some 4)) 1 =
      some (some (1, .comment), some (some 4)) := by
    rw [Sliced.findTag?, loop?]
    rfl
  have hplace : Sliced.Reached ⟨0, "a{#b#}".toList⟩ ⟨1, some (some 4)⟩ := by
    refine .next .start (x := .ok ⟨.text, ⟨0, ['a']⟩, 0, 1⟩) ?_
    rw [Sliced.nextToken?, hfind]
    rfl
  have hcursor : Cursor.Reached "a{#b#}".toList ⟨1, "{#b#}".toList, false⟩ :=
    .next .start (x := .ok ⟨.text, ['a'], 0⟩) rfl
  obtain ⟨hplaces, hcursors⟩ := restartable_of_reached ⟨0, "a{#b#}".toList⟩
  exact ⟨.tag hagain, hplaces _ hplace, hcursors _ hcursor⟩

end TemplateCatalog
