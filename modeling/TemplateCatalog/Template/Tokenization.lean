/-
Cutting a template into tokens.

A `Cursor` stands in front of the part of the template that is still to be read; `Cursor.next?`
takes one token off it. A tag ends at the first closer after its opener, tags never nest. A
variable or a block that is never closed ends the reading with an error; a comment that is
never closed is text. The cursor remembers when no comment closer is left, so that a template
with many open comments is not searched again for each of them.

* `findTag_append`: the text in front of the next tag and the rest join to the whole;
* `Cursor.next?_rest_length`: every token takes something off the template.
-/
import TemplateCatalog.Template.Token

namespace TemplateCatalog

open Text

/-- A variable or block tag without a closer, and the byte of its opener. -/
structure UnterminatedTag where
  kind : TagKind
  offset : Nat
  deriving DecidableEq, Repr

/-! ### The next tag -/

/-- What stands in front of the next tag, the tag's kind with the text after its opener, and
whether no comment closer is left after it. -/
structure NextTag where
  before : Text
  tag : Option (TagKind × Text)
  commentsOver : Bool
  deriving Repr

/-- Adds text in front of what was found. -/
def NextTag.after (s : Text) (n : NextTag) : NextTag := { n with before := s ++ n.before }

/-- The template from the tag on. -/
def NextTag.rest (n : NextTag) : Text :=
  match n.tag with
  | none => []
  | some (k, r) => k.opener ++ r

/-- The first tag of a text. The opener of a comment counts only if a closer follows;
`commentsOver` says that none does. -/
def findTag (commentsOver : Bool) : Text → NextTag
  | [] => ⟨[], none, commentsOver⟩
  | [c] => ⟨[c], none, commentsOver⟩
  | c :: d :: r =>
    if c = '{' then
      match TagKind.ofMark? d with
      | none => (findTag commentsOver (d :: r)).after [c]
      | some .comment =>
        if commentsOver || !occurs TagKind.comment.closer r then (findTag true r).after [c, d]
        else ⟨[], some (.comment, r), commentsOver⟩
      | some k => ⟨[], some (k, r), commentsOver⟩
    else (findTag commentsOver (d :: r)).after [c]

/-- The text in front of the next tag and the rest join to the whole. -/
theorem findTag_append (b : Bool) (s : Text) :
    (findTag b s).before ++ (findTag b s).rest = s := by
  fun_induction findTag b s with
  | case1 => rfl
  | case2 => rfl
  | case3 b d r _ ih => simpa [NextTag.after, NextTag.rest] using ih
  | case4 b d r hd _ ih => simpa [NextTag.after, NextTag.rest] using ih
  | case5 b d r hd _ =>
    simp [NextTag.rest, TagKind.opener, TagKind.ofMark?_eq_some_iff.1 hd]
  | case6 b d r k _ hd =>
    simp [NextTag.rest, TagKind.opener, TagKind.ofMark?_eq_some_iff.1 hd]
  | case7 b c d r _ ih => simpa [NextTag.after, NextTag.rest] using ih

/-! ### The cursor -/

/-- A place in a template: its byte, the template from there on, and whether it is known that
no comment closer is left. -/
structure Cursor where
  offset : Nat
  rest : Text
  commentsOver : Bool
  deriving Repr

namespace Cursor

/-- The cursor in front of a template. -/
def start (template : Text) : Cursor := ⟨0, template, false⟩

/-- The cursor `n` bytes further. -/
def skip (c : Cursor) (n : Nat) (rest : Text) (commentsOver : Bool) : Cursor :=
  ⟨c.offset + n, rest, commentsOver⟩

/-- Takes one token off the template. After an error nothing is left. -/
def next? (c : Cursor) : Option (Except UnterminatedTag Token × Cursor) :=
  let found := findTag c.commentsOver c.rest
  match found.before, found.tag with
  | [], none => none
  | [], some (k, r) =>
    match cut? k.closer r with
    | none => some (.error ⟨k, c.offset⟩, c.skip (byteSize c.rest) [] found.commentsOver)
    | some (body, after) =>
      let token : Token := ⟨.tag k, body, c.offset⟩
      some (.ok token, c.skip (byteSize token.source) after found.commentsOver)
  | a :: t, _ =>
    some (.ok ⟨.text, a :: t, c.offset⟩, c.skip (byteSize (a :: t)) found.rest found.commentsOver)

/-- Every token takes something off the template. -/
theorem next?_rest_length {c c' : Cursor} {x : Except UnterminatedTag Token}
    (h : c.next? = some (x, c')) : c'.rest.length < c.rest.length := by
  have hs := congrArg List.length (findTag_append c.commentsOver c.rest)
  unfold next? at h
  simp only at h
  split at h
  · simp at h
  · rename_i k r hb ht
    rw [hb] at hs
    simp only [NextTag.rest, ht, TagKind.opener, List.nil_append, List.length_append,
      List.length_cons, List.length_nil] at hs
    split at h
    -- A tag without a closer takes everything, a tag with one at least its opener.
    · simp only [Option.some.injEq, Prod.mk.injEq] at h
      rw [← h.2]
      simp only [skip, List.length_nil]
      omega
    · rename_i body after hc
      have hl := congrArg List.length (cut?_eq_some hc)
      simp only [List.length_append] at hl
      simp only [Option.some.injEq, Prod.mk.injEq] at h
      rw [← h.2]
      simp only [skip]
      omega
  -- Text in front of a tag is not empty.
  · rename_i a t hb
    rw [hb] at hs
    simp only [List.length_append, List.length_cons] at hs
    simp only [Option.some.injEq, Prod.mk.injEq] at h
    rw [← h.2]
    simp only [skip]
    omega

end Cursor

/-! ### Whole templates -/

/-- The tokens of a template up to its end, or up to a tag that is never closed. -/
structure Tokenization where
  tokens : List Token
  failure : Option UnterminatedTag
  deriving DecidableEq, Repr

/-- All tokens from a cursor on. -/
def Cursor.tokens (c : Cursor) : Tokenization :=
  match _h : c.next? with
  | none => ⟨[], none⟩
  | some (.error e, _) => ⟨[], some e⟩
  | some (.ok t, c') =>
    let later := c'.tokens
    ⟨t :: later.tokens, later.failure⟩
termination_by c.rest.length
decreasing_by exact Cursor.next?_rest_length _h

/-- Cuts a template into tokens. -/
def tokenize (template : Text) : Tokenization := (Cursor.start template).tokens

end TemplateCatalog
