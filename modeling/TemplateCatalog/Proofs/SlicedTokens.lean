/-
Tokens by byte offsets.

The cursor of a template, run on offsets. It looks for the next brace, asks whether an opener
stands there, and goes on behind the brace or behind the opener of a comment that is never
closed; a tag ends two bytes behind the start of its closer. Where the nearest closer of a
comment is, it keeps in mind (`Memo`), and looks again only from further on. What it keeps is
true (`MemoSound`), no tag starts in what it passes over (`findTag?_cases`), and so it cuts the
template into its tokens, by slices that are there (`Sliced.tokens?_eq`).
-/
import TemplateCatalog.Proofs.SlicedFragments
import TemplateCatalog.Proofs.TokenSeams

namespace TemplateCatalog

open Text

namespace Sliced

/-! ### Searching -/

/-- What is known of the closers of comments: nothing, that none is left, or where the last one
found is. -/
abbrev Memo := Option (Option Nat)

/-- The number of bytes of a delimiter. -/
def delimiterSize : Nat := 2

/-- The nearest closer of a comment from byte `i` on, looked up only if it is not known. -/
def commentCloser? (s : Text) (memo : Memo) (i : Nat) : Option (Option Nat × Memo) :=
  let search := (findFrom? s TagKind.comment.closer i).map fun close => (close, some close)
  match memo with
  | some none => some (none, memo)
  | some (some close) => if i ≤ close then some (some close, memo) else search
  | none => search

/-- The closer of the tag that opens at byte `start`. -/
def closer? (s : Text) (memo : Memo) (start : Nat) (k : TagKind) :
    Option (Option Nat × Memo) :=
  let body := start + delimiterSize
  match k with
  | .comment => commentCloser? s memo body
  | _ => (findFrom? s k.closer body).map (·, memo)

/-- The kind of tag whose opener stands at byte `i`. -/
def openerAt? (s : Text) (i : Nat) : Option (Option TagKind) :=
  (sliceFrom? s i).map fun rest =>
    [TagKind.variable, .block, .comment].find? fun k => k.opener.isPrefixOf rest

/-- Looks at the next brace. The state is the byte that the search has come to, and the
memo. -/
def findTagTurn? (s : Text) (state : Nat × Memo) :
    Option (Turn (Nat × Memo) (Option (Nat × TagKind) × Memo)) := do
  match ← findFrom? s ['{'] state.1 with
  | none => return .done (none, state.2)
  | some start =>
    match ← openerAt? s start with
    | none => return .again (start + 1, state.2)
    | some .comment =>
      match ← closer? s state.2 start .comment with
      | (none, memo) => return .again (start + delimiterSize, memo)
      | (some _, memo) => return .done (some (start, .comment), memo)
    | some k => return .done (some (start, k), state.2)

/-- The next tag from byte `i` on. -/
def findTag? (s : Text) (memo : Memo) (i : Nat) : Option (Option (Nat × TagKind) × Memo) :=
  loop? (byteSize s) Prod.fst (findTagTurn? s) (i, memo)

/-! ### Tokens -/

/-- A token by its pieces: its contents as a slice, and its first byte and the byte behind
it. -/
structure TokenPiece where
  kind : TokenKind
  contents : Slice
  start : Nat
  stop : Nat
  deriving DecidableEq, Repr

/-- A place in a template: its byte, and the memo. -/
structure Place where
  offset : Nat
  memo : Memo

/-- The empty text, which is no part of any template. -/
def emptySlice : Slice := ⟨0, []⟩

/-- What has been found at a place, and the place behind it. -/
abbrev Item := Except UnterminatedTag TokenPiece × Place

/-- The tag at byte `start`. -/
def tagToken? (s : Slice) (memo : Memo) (start : Nat) (k : TagKind) : Option Item := do
  match ← closer? s.text memo start k with
  | (none, memo) => return (.error ⟨k, start⟩, ⟨byteSize s.text, memo⟩)
  | (some close, memo) =>
    let stop := close + delimiterSize
    let contents ← match k with
      | .comment => some emptySlice
      | _ => (s.sub? (start + delimiterSize) close).map Slice.trim
    return (.ok ⟨.tag k, contents, start, stop⟩, ⟨stop, memo⟩)

/-- The text from byte `i` to byte `stop`. -/
def textToken? (s : Slice) (memo : Memo) (i stop : Nat) : Option Item := do
  return (.ok ⟨.text, ← s.sub? i stop, i, stop⟩, ⟨stop, memo⟩)

/-- The next token of a template. -/
def nextToken? (s : Slice) (p : Place) : Option (Option Item) := do
  if byteSize s.text ≤ p.offset then return none
  else
    match ← findTag? s.text p.memo p.offset with
    | (none, memo) => return some (← textToken? s memo p.offset (byteSize s.text))
    | (some (start, k), memo) =>
      if start = p.offset then return some (← tagToken? s memo start k)
      else return some (← textToken? s memo p.offset start)

/-- What a template is cut into: its tokens, and the tag that is never closed. -/
abbrev Pieces := List TokenPiece × Option UnterminatedTag

/-- One more token. The state is the place that the cursor has come to, and the tokens in front
of it. -/
def tokensTurn? (s : Slice) (state : Place × List TokenPiece) :
    Option (Turn (Place × List TokenPiece) Pieces) := do
  match ← nextToken? s state.1 with
  | none => return .done (state.2, none)
  | some (.error e, _) => return .done (state.2, some e)
  | some (.ok t, next) => return .again (next, state.2 ++ [t])

/-- Cuts a template into tokens. -/
def tokens? (s : Slice) : Option Pieces :=
  loop? (byteSize s.text) (fun state => state.1.offset) (tokensTurn? s) (⟨0, none⟩, [])

/-! ### What is known of comments -/

/-- What the memo says is true, for a search from byte `m` on or from further on. -/
inductive MemoSound (s : Text) (m : Nat) : Memo → Prop
  | unknown : MemoSound s m none
  | exhausted (h : ∀ i r, m ≤ i → At s i r → ¬TagKind.comment.closer <:+: r) :
      MemoSound s m (some none)
  /-- A search from a byte further in front has found the closer. -/
  | found {i : Nat} {r before after : Text} (hi : i ≤ m) (hr : At s i r)
      (hcut : FirstCut TagKind.comment.closer r before after) :
      MemoSound s m (some (some (i + byteSize before)))

theorem MemoSound.mono {s : Text} {m m' : Nat} {memo : Memo} (h : MemoSound s m memo)
    (hm : m ≤ m') : MemoSound s m' memo := by
  cases h with
  | unknown => exact .unknown
  | exhausted h => exact .exhausted fun i r hi => h i r (Nat.le_trans hm hi)
  | found hi hr hcut => exact .found (Nat.le_trans hi hm) hr hcut

/-- What is first from further in front is first from here on, if it is not passed yet. -/
theorem cut?_of_firstCut {s r r' before after needle : Text} {i j : Nat} (hr : At s i r)
    (hr' : At s j r') (hij : i ≤ j) (hcut : FirstCut needle r before after)
    (hj : j ≤ i + byteSize before) :
    ∃ before', cut? needle r' = some (before', after) ∧
      j + byteSize before' = i + byteSize before := by
  have hparts : At s i (before ++ (needle ++ after)) := by
    rw [← List.append_assoc, ← hcut.parts]
    exact hr
  -- The later place is in front of the cut, so it parts what stands in front of it.
  obtain ⟨a, b, rfl, rfl⟩ : ∃ a b, before = a ++ b ∧ r' = b ++ (needle ++ after) := by
    rcases Nat.lt_or_eq_of_le hj with hlt | rfl
    · obtain ⟨a, b, hbefore, -, hrest⟩ := hparts.split hr' hij hlt
      exact ⟨a, b, hbefore, hrest⟩
    · exact ⟨before, [], (List.append_nil _).symm, hr'.unique hparts.add⟩
  refine ⟨b, cut?_eq_some_iff.2 ⟨(List.append_assoc ..).symm, fun b' a' he => ?_⟩, ?_⟩
  · have hle := hcut.first (a ++ b') a'
      (by rw [hcut.parts, List.append_assoc, List.append_assoc a b, he]; simp)
    simp only [List.length_append] at hle
    omega
  · rw [List.append_assoc] at hparts
    have := hr'.size
    have := hparts.add.size
    rw [byteSize_append]
    omega

/-- The nearest closer of a comment is found, and what is kept in mind stays true. -/
theorem commentCloser?_cases {s r : Text} {memo : Memo} {i : Nat} (h : At s i r)
    (hmemo : MemoSound s i memo) :
    ∃ memo', commentCloser? s memo i =
        some ((cut? TagKind.comment.closer r).map fun (before, _) => i + byteSize before,
          memo') ∧
      MemoSound s i memo' := by
  have hsearch : ∃ memo',
        (findFrom? s TagKind.comment.closer i).map (fun close => (close, some close)) =
          some ((cut? TagKind.comment.closer r).map fun (before, _) => i + byteSize before,
            memo') ∧
      MemoSound s i memo' := by
    rw [findFrom?_eq h]
    refine ⟨_, rfl, ?_⟩
    cases hcut : cut? TagKind.comment.closer r with
    | none =>
      refine .exhausted fun j r' hij hr' hinfix => cut?_eq_none_iff.1 hcut ?_
      exact hinfix.trans (h.suffix_of_le hr' hij).isInfix
    | some p => exact .found (Nat.le_refl i) h (cut?_eq_some_iff.1 hcut)
  -- Nothing is known, no closer is left, or the next one was found from an earlier place.
  cases hmemo with
  | unknown => exact hsearch
  | exhausted hnone =>
    refine ⟨some none, ?_, .exhausted hnone⟩
    rw [cut?_eq_none_iff.2 (hnone i r (Nat.le_refl i) h)]
    rfl
  | @found j r' before after hj hr' hcut =>
    rw [commentCloser?]
    dsimp only
    split_ifs with hpassed
    · obtain ⟨before', hcut', hbyte⟩ := cut?_of_firstCut hr' h hj hcut hpassed
      refine ⟨_, ?_, .found hj hr' hcut⟩
      rw [hcut', Option.map_some, hbyte]
    · exact hsearch

theorem closer?_cases {s r : Text} {memo : Memo} {i : Nat} {k : TagKind}
    (h : At s (i + delimiterSize) r) (hmemo : MemoSound s (i + delimiterSize) memo) :
    ∃ memo', closer? s memo i k = some ((cut? k.closer r).map fun (before, _) =>
        i + delimiterSize + byteSize before, memo') ∧
          MemoSound s (i + delimiterSize) memo' := by
  by_cases hk : k = .comment
  · subst hk
    exact commentCloser?_cases h hmemo
  · refine ⟨memo, ?_, hmemo⟩
    have hcloser :
        closer? s memo i k = (findFrom? s k.closer (i + delimiterSize)).map (·, memo) := by
      cases k <;> first | rfl | exact absurd rfl hk
    rw [hcloser, findFrom?_eq h]
    rfl

/-! ### The next tag -/

theorem openerAt?_cases {s v : Text} {i : Nat} (h : At s i v) :
    (openerAt? s i = some none ∧ ∀ k r, v ≠ TagKind.opener k ++ r) ∨
      ∃ k r, openerAt? s i = some (some k) ∧ v = TagKind.opener k ++ r := by
  rw [openerAt?, h.sliceFrom?_eq, Option.map_some]
  cases hfind : [TagKind.variable, .block, .comment].find? fun k => k.opener.isPrefixOf v with
  | none =>
    refine Or.inl ⟨rfl, fun k r hv => ?_⟩
    have hnot := List.find?_eq_none.1 hfind k (by cases k <;> decide)
    exact hnot (List.isPrefixOf_iff_prefix.2 ⟨r, hv.symm⟩)
  | some k =>
    have hopener : k.opener.isPrefixOf v = true := by simpa using List.find?_some hfind
    obtain ⟨r, hr⟩ := List.isPrefixOf_iff_prefix.1 hopener
    exact Or.inr ⟨k, r, rfl, hr.symm⟩

/-- The search for a tag in the text `u` from byte `i` on has found the first one, or that
there is none. -/
inductive TagFound (s : Text) (i : Nat) (u : Text) : Option (Nat × TagKind) × Memo → Prop
  | missing {memo : Memo} (free : TagFree u [])
      (sound : MemoSound s (byteSize s + delimiterSize) memo) : TagFound s i u (none, memo)
  | opened {w r : Text} {k : TagKind} {memo : Memo} (parts : u = w ++ (k.opener ++ r))
      (free : TagFree w (k.opener ++ r))
      (closes : k = .comment → TagKind.comment.closer <:+: r)
      (sound : MemoSound s (i + byteSize w + delimiterSize) memo) :
      TagFound s i u (some (i + byteSize w, k), memo)

/-- The search has passed over text in which no tag starts. -/
def TagAhead (s : Text) (i : Nat) (u : Text) (state : Nat × Memo) : Prop :=
  ∃ w v, u = w ++ v ∧ state.1 = i + byteSize w ∧ At s state.1 v ∧ TagFree w v ∧
    MemoSound s (state.1 + delimiterSize) state.2

section TagAhead

variable {s u : Text} {i j : Nat} {memo memo' : Memo}

/-- More text is passed over. -/
theorem TagAhead.pass (h : TagAhead s i u (j, memo)) {x rest : Text} (hx : At s j (x ++ rest))
    (hfree : TagFree x rest) (hmemo : MemoSound s (j + byteSize x + delimiterSize) memo') :
    TagAhead s i u (j + byteSize x, memo') := by
  obtain ⟨w, v, rfl, hj, hv, hw, -⟩ := h
  have hj : j = i + byteSize w := hj
  obtain rfl := hx.unique hv
  refine ⟨w ++ x, rest, (List.append_assoc ..).symm, ?_, hx.add, hw.append hfree, hmemo⟩
  rw [byteSize_append, hj]
  exact Nat.add_assoc ..

/-- A tag stands behind the text that is passed over. -/
theorem TagAhead.opened (h : TagAhead s i u (j, memo)) {x r : Text} {k : TagKind}
    (hx : At s j (x ++ (k.opener ++ r))) (hfree : TagFree x (k.opener ++ r))
    (hcloses : k = .comment → TagKind.comment.closer <:+: r)
    (hmemo : MemoSound s (j + byteSize x + delimiterSize) memo') :
    TagFound s i u (some (j + byteSize x, k), memo') := by
  obtain ⟨w, v, rfl, hj, hv, hw, -⟩ := h
  have hj : j = i + byteSize w := hj
  obtain rfl := hx.unique hv
  have hbyte : j + byteSize x = i + byteSize (w ++ x) := by
    rw [byteSize_append, hj, Nat.add_assoc]
  rw [hbyte] at hmemo ⊢
  exact .opened (List.append_assoc ..).symm (hw.append hfree) hcloses hmemo

theorem TagAhead.missing (h : TagAhead s i u (j, memo)) {x : Text} (hx : At s j x)
    (hfree : TagFree x []) : TagFound s i u (none, memo) := by
  obtain ⟨w, v, rfl, -, hv, hw, hmemo⟩ := h
  obtain rfl := hx.unique hv
  refine .missing (TagFree.append ?_ hfree) (hmemo.mono (Nat.add_le_add_right hx.le_size _))
  rwa [List.append_nil]

end TagAhead

theorem tagFree_of_no_brace {w : Text} (h : '{' ∉ w) (r : Text) : TagFree w r := by
  induction w with
  | nil => exact tagFree_nil r
  | cons c w ih =>
    rw [List.mem_cons, not_or] at h
    exact tagFree_cons.2 ⟨not_opensTag_of_ne (Ne.symm h.1), ih h.2⟩

theorem byteSize_opener (k : TagKind) : byteSize k.opener = delimiterSize := by
  cases k <;> decide

theorem byteSize_closer (k : TagKind) : byteSize k.closer = delimiterSize := by
  cases k <;> decide

/-- The body of a tag stands behind its opener. -/
theorem at_body {s r : Text} {i : Nat} {k : TagKind} (h : At s i (k.opener ++ r)) :
    At s (i + delimiterSize) r := by
  rw [← byteSize_opener k]
  exact h.add

/-- A comment that is never closed opens no tag, and none starts at its mark. -/
theorem tagFree_comment {r : Text} (h : ¬TagKind.comment.closer <:+: r) :
    TagFree TagKind.comment.opener r := by
  refine tagFree_cons.2 ⟨?_, tagFree_cons.2 ⟨not_opensTag_of_ne (by decide), tagFree_nil r⟩⟩
  rintro ⟨k, r', heq, hcloses⟩
  obtain ⟨rfl, rfl⟩ := opener_inj (k := .comment) heq
  exact h (hcloses rfl)

section Braces

variable {s u b : Text} {i j : Nat} {memo memo' : Memo}

/-- A brace without an opener is passed over. -/
theorem TagAhead.pass_brace (h : TagAhead s i u (j, memo)) {a : Text}
    (hat : At s j (b ++ '{' :: a)) (hb : '{' ∉ b)
    (hopener : ∀ k r, '{' :: a ≠ TagKind.opener k ++ r) :
    j + byteSize b + 1 ≤ byteSize s ∧ TagAhead s i u (j + byteSize b + 1, memo) := by
  obtain ⟨-, -, -, -, -, -, hmemo⟩ := id h
  have hbrace : TagFree ['{'] a := by
    refine tagFree_cons.2 ⟨?_, tagFree_nil a⟩
    rintro ⟨k, r, heq, -⟩
    exact hopener k r heq
  have hx : At s j (b ++ ['{'] ++ a) := by simpa using hat
  have hbyte : j + byteSize b + 1 = j + byteSize (b ++ ['{']) := by
    rw [byteSize_append, Nat.add_assoc]
    rfl
  rw [hbyte]
  refine ⟨hx.add.le_size, h.pass hx ((tagFree_of_no_brace hb _).append hbrace) (hmemo.mono ?_)⟩
  exact Nat.add_le_add_right (Nat.le_add_right _ _) _

/-- A comment that is never closed is passed over. -/
theorem TagAhead.pass_comment (h : TagAhead s i u (j, memo)) {r : Text}
    (hat : At s j (b ++ (TagKind.comment.opener ++ r))) (hb : '{' ∉ b)
    (hopen : ¬TagKind.comment.closer <:+: r)
    (hmemo : MemoSound s (j + byteSize b + delimiterSize) memo') :
    j + byteSize b + delimiterSize ≤ byteSize s ∧
      TagAhead s i u (j + byteSize b + delimiterSize, memo') := by
  have hx : At s j (b ++ TagKind.comment.opener ++ r) := by
    rw [List.append_assoc]
    exact hat
  have hbyte :
      j + byteSize b + delimiterSize = j + byteSize (b ++ TagKind.comment.opener) := by
    rw [byteSize_append, byteSize_opener, Nat.add_assoc]
  rw [hbyte] at hmemo ⊢
  exact ⟨hx.add.le_size, h.pass hx ((tagFree_of_no_brace hb _).append (tagFree_comment hopen))
    (hmemo.mono (Nat.le_add_right _ _))⟩

end Braces

/-- One brace is looked at: the search ends there, or goes on behind it. -/
theorem findTagTurn?_cases {s u : Text} {i : Nat} {state : Nat × Memo}
    (h : TagAhead s i u state) :
    (∃ z, findTagTurn? s state = some (.done z) ∧ TagFound s i u z) ∨
      ∃ next, findTagTurn? s state = some (.again next) ∧ state.1 < next.1 ∧
        next.1 ≤ byteSize s ∧ TagAhead s i u next := by
  obtain ⟨j, memo⟩ := state
  obtain ⟨-, v, -, -, hv, -, hmemo⟩ := id h
  have hv : At s j v := hv
  have hmemo : MemoSound s (j + delimiterSize) memo := hmemo
  rw [findTagTurn?, findFrom?_eq hv]
  rcases cut?_char '{' v with ⟨hcut, hnone⟩ | ⟨b, a, hcut, hb, rfl⟩
  · rw [hcut]
    exact Or.inl ⟨_, rfl, h.missing hv (tagFree_of_no_brace hnone [])⟩
  rw [hcut]
  simp only [Option.map_some, bind, Option.bind]
  rcases openerAt?_cases hv.add with ⟨hnone, hopener⟩ | ⟨k, r, hsome, hopener⟩
  · obtain ⟨hle, hnext⟩ := h.pass_brace hv hb hopener
    rw [hnone]
    refine Or.inr ⟨_, rfl, ?_, hle, hnext⟩
    dsimp only
    omega
  rw [hopener] at hv
  rw [hsome]
  have hmemob :=
    hmemo.mono (Nat.add_le_add_right (Nat.le_add_right j (byteSize b)) delimiterSize)
  -- Only the opener of a comment is passed over, if no closer follows.
  by_cases hk : k = .comment
  · subst hk
    obtain ⟨memo', hcloser, hmemo'⟩ := closer?_cases (at_body hv.add) hmemob (k := .comment)
    simp only [hcloser]
    cases hclose : cut? TagKind.comment.closer r with
    | none =>
      obtain ⟨hle, hnext⟩ := h.pass_comment hv hb (cut?_eq_none_iff.1 hclose) hmemo'
      refine Or.inr ⟨_, rfl, ?_, hle, hnext⟩
      simp only [delimiterSize]
      omega
    | some p =>
      have hfirst := cut?_eq_some_iff.1 hclose
      exact Or.inl ⟨_, rfl, h.opened hv (tagFree_of_no_brace hb _) (fun _ => hfirst.infix)
        hmemo'⟩
  · refine Or.inl ⟨(some (j + byteSize b, k), memo), ?_, ?_⟩
    · cases k <;> first | rfl | exact absurd rfl hk
    · exact h.opened hv (tagFree_of_no_brace hb _) (fun h => absurd h hk) hmemob

/-- The next tag is found. -/
theorem findTag?_cases {s u : Text} {i : Nat} {memo : Memo} (h : At s i u)
    (hmemo : MemoSound s (i + delimiterSize) memo) : ∃ z, findTag? s memo i = some z ∧
      TagFound s i u z :=
  exists_loop? (fun _ => findTagTurn?_cases) ⟨[], u, rfl, rfl, h, tagFree_nil u, hmemo⟩

/-! ### Tokens -/

/-- The pieces of a token of a template that lies at an address. -/
def tokenPiece (address : Nat) (t : Token) : TokenPiece :=
  let contents :=
    match t.kind with
    | .text => ⟨address + t.start, t.body⟩
    | .tag .comment => emptySlice
    | .tag _ => Slice.trim ⟨address + (t.start + delimiterSize), t.body⟩
  ⟨t.kind, contents, t.start, t.stop⟩

variable {s : Slice} {u : Text} {i : Nat} {memo : Memo}

theorem stop_tag (k : TagKind) (body : Text) (i : Nat) :
    Token.stop ⟨.tag k, body, i⟩ = i + delimiterSize + byteSize body + delimiterSize := by
  rw [Token.stop, Token.source_tag, byteSize_append, byteSize_append, byteSize_opener,
    byteSize_closer]
  simp only [Nat.add_assoc]

/-- A text token is cut off. -/
theorem textToken?_eq {w r : Text} (h : At s.text i (w ++ r)) :
    textToken? s memo i (i + byteSize w) =
      some (.ok (tokenPiece s.start ⟨.text, w, i⟩), ⟨i + byteSize w, memo⟩) := by
  rw [textToken?, Slice.sub?_eq h, tokenPiece, stop_text]
  rfl

/-- A tag is cut off up to its first closer. -/
theorem tagToken?_cases {k : TagKind} {r : Text} (h : At s.text i (k.opener ++ r))
    (hmemo : MemoSound s.text (i + delimiterSize) memo) :
    (¬k.closer <:+: r ∧ ∃ next, tagToken? s memo i k = some (.error ⟨k, i⟩, next)) ∨
      ∃ body after memo', FirstCut k.closer r body after ∧
        MemoSound s.text (i + delimiterSize) memo' ∧
          At s.text (Token.stop ⟨.tag k, body, i⟩) after ∧
        tagToken? s memo i k =
          some (.ok (tokenPiece s.start ⟨.tag k, body, i⟩),
            ⟨Token.stop ⟨.tag k, body, i⟩, memo'⟩) := by
  have hbody := at_body h
  obtain ⟨memo', hcloser, hmemo'⟩ := closer?_cases hbody hmemo (k := k)
  rw [tagToken?, hcloser]
  cases hcut : cut? k.closer r with
  | none => exact Or.inl ⟨cut?_eq_none_iff.1 hcut, _, rfl⟩
  | some p =>
    obtain ⟨body, after⟩ := p
    have hfirst := cut?_eq_some_iff.1 hcut
    -- The body is a slice of the template, and the next token starts behind the closer.
    have hparts : At s.text (i + delimiterSize) (body ++ (k.closer ++ after)) := by
      rw [← List.append_assoc, ← hfirst.parts]
      exact hbody
    have hafter := hparts.add.add
    rw [byteSize_closer] at hafter
    refine Or.inr ⟨body, after, memo', hfirst, hmemo', ?_, ?_⟩
    · rw [stop_tag]
      exact hafter
    · simp only [Option.map_some, bind, Option.bind]
      rw [Slice.sub?_eq hparts, stop_tag, tokenPiece, stop_tag]
      cases k <;> rfl

/-- What has been found in the text `u` at byte `i` is what the rules for tokens say. -/
inductive Found (s : Slice) (i : Nat) (u : Text) : Option Item → Prop
  | nothing (h : u = []) : Found s i u none
  | unclosed {k : TagKind} {next : Place} (h : Lexes i u ⟨[], some ⟨k, i⟩⟩) :
      Found s i u (some (.error ⟨k, i⟩, next))
  | token {t : Token} {r : Text} {memo : Memo} (less : i < t.stop) (rest : At s.text t.stop r)
      (sound : MemoSound s.text (t.stop + delimiterSize) memo)
      (lexes : ∀ z, Lexes t.stop r z → Lexes i u (z.cons t)) :
      Found s i u (some (.ok (tokenPiece s.start t), ⟨t.stop, memo⟩))

/-- Text in front of a tag, or of the end, is cut off. -/
theorem textToken?_found {w r : Text} (h : At s.text i (w ++ r)) (hne : w ≠ [])
    (hfree : TagFree w r) (hnext : r = [] ∨ OpensTag r)
    (hmemo : MemoSound s.text (i + byteSize w + delimiterSize) memo) :
    ∃ item, textToken? s memo i (i + byteSize w) = some item ∧
      Found s i (w ++ r) (some item) := by
  refine ⟨_, textToken?_eq h, ?_⟩
  rw [← stop_text w i] at hmemo ⊢
  refine .token ?_ ?_ hmemo fun z => .text hne hfree hnext
  · rw [stop_text]
    exact Nat.lt_add_of_pos_right (byteSize_pos hne)
  · rw [stop_text]
    exact h.add

/-- A tag is cut off, or it is never closed. -/
theorem tagToken?_found {k : TagKind} {r : Text} (h : At s.text i (k.opener ++ r))
    (hcloses : k = .comment → TagKind.comment.closer <:+: r)
    (hmemo : MemoSound s.text (i + delimiterSize) memo) :
    ∃ item, tagToken? s memo i k = some item ∧ Found s i (k.opener ++ r) (some item) := by
  rcases tagToken?_cases h hmemo with ⟨hopen, next, htoken⟩ | ⟨body, after, memo', hcut,
    hmemo', hafter, htoken⟩
  · refine ⟨_, htoken, .unclosed (.unterminated ?_ hopen)⟩
    rintro rfl
    exact hopen (hcloses rfl)
  · have hless : i < Token.stop ⟨.tag k, body, i⟩ := by
      rw [stop_tag, delimiterSize]
      omega
    exact ⟨_, htoken, .token hless hafter (hmemo'.mono (by omega)) fun z => .tag hcut⟩

/-- The next token is cut off. -/
theorem nextToken?_cases (h : At s.text i u)
    (hmemo : MemoSound s.text (i + delimiterSize) memo) :
    ∃ item, nextToken? s ⟨i, memo⟩ = some item ∧ Found s i u item := by
  have hsize := h.size
  rw [nextToken?]
  dsimp only
  by_cases hu : u = []
  · subst hu
    rw [if_pos (by simp at hsize; omega)]
    exact ⟨none, rfl, .nothing rfl⟩
  have hpos := byteSize_pos hu
  rw [if_neg (by omega)]
  obtain ⟨z, htag, hfound⟩ := findTag?_cases h hmemo
  simp only [htag, bind, Option.bind]
  -- No tag is left, or one was found: at once, or with text in front of it.
  cases hfound with
  | @missing memo' hfree hmemo' =>
    rw [← List.append_nil u] at h
    rw [← hsize] at hmemo' ⊢
    obtain ⟨item, htext, hitem⟩ := textToken?_found h hu hfree (Or.inl rfl) hmemo'
    refine ⟨some item, ?_, by simpa using hitem⟩
    simp only [htext]
    rfl
  | @opened w r k memo' hparts hfree hcloses hmemo' =>
    subst hparts
    dsimp only
    by_cases hw : w = []
    · subst hw
      obtain ⟨item, htoken, hitem⟩ := tagToken?_found h hcloses hmemo'
      refine ⟨some item, ?_, hitem⟩
      rw [byteSize_nil, Nat.add_zero, if_pos rfl, htoken]
      rfl
    · have hposw := byteSize_pos hw
      obtain ⟨item, htext, hitem⟩ :=
        textToken?_found h hw hfree (Or.inr ⟨k, r, rfl, hcloses⟩) hmemo'
      refine ⟨some item, ?_, hitem⟩
      rw [if_neg (by omega), htext]
      rfl

/-- The tokens that are left, behind those in front of a place, are all of them. -/
def TokensLeft (s : Slice) (all : Pieces) (state : Place × List TokenPiece) : Prop :=
  ∃ u z, At s.text state.1.offset u ∧
    MemoSound s.text (state.1.offset + delimiterSize) state.1.memo ∧
    Lexes state.1.offset u z ∧ all = (state.2 ++ z.tokens.map (tokenPiece s.start), z.failure)

theorem tokensTurn?_cases {all : Pieces} {state : Place × List TokenPiece}
    (h : TokensLeft s all state) : (∃ z, tokensTurn? s state = some (.done z) ∧ z = all) ∨
      ∃ next, tokensTurn? s state = some (.again next) ∧ state.1.offset < next.1.offset ∧
        next.1.offset ≤ byteSize s.text ∧ TokensLeft s all next := by
  obtain ⟨⟨i, memo⟩, front⟩ := state
  obtain ⟨u, z, hu, hmemo, hz, rfl⟩ := h
  have hu : At s.text i u := hu
  have hmemo : MemoSound s.text (i + delimiterSize) memo := hmemo
  have hz : Lexes i u z := hz
  obtain ⟨item, hitem, hfound⟩ := nextToken?_cases hu hmemo
  rw [tokensTurn?, hitem]
  cases hfound with
  | nothing hnil =>
    subst hnil
    obtain rfl := hz.unique .done
    exact Or.inl ⟨_, rfl, by simp⟩
  | unclosed hopen =>
    obtain rfl := hz.unique hopen
    exact Or.inl ⟨_, rfl, by simp⟩
  | @token t r memo' hless hr hmemo' hlexes =>
    -- The rest has a tokenization, and with the token in front it is the one of the whole.
    have hsound : Cursor.Sound ⟨t.stop, r, false⟩ := noClosersLeft_false r
    have hrest := Cursor.lexes_tokens hsound
    obtain rfl := hz.unique (hlexes _ hrest)
    refine Or.inr ⟨_, rfl, hless, hr.le_size, r, _, hr, hmemo', hrest, ?_⟩
    simp [Tokenization.cons]

/-- A template is cut into its tokens by slices that are there. -/
theorem tokens?_eq (s : Slice) : tokens? s =
    some ((tokenize s.text).tokens.map (tokenPiece s.start), (tokenize s.text).failure) := by
  have hstart :
      TokensLeft s ((tokenize s.text).tokens.map (tokenPiece s.start),
        (tokenize s.text).failure) (⟨0, none⟩, []) :=
    ⟨s.text, tokenize s.text, At.start s.text, .unknown, lexes_tokenize_iff.2 rfl, rfl⟩
  obtain ⟨z, hloop, rfl⟩ := exists_loop? (fun _ => tokensTurn?_cases) hstart
  exact hloop

end Sliced

end TemplateCatalog
