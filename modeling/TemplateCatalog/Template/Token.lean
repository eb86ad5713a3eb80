/-
Tokens of a template.

A template is text with three kinds of tags in it: variables `{{ … }}`, blocks `{% … %}` and
comments `{# … #}`. A token is a run of text or one tag. It keeps the characters between its
delimiters, so `Token.source` gives back the exact template text it was cut from, and
`Token.contents` is the part that means something: text as it is, variables and blocks without
the blanks at their ends, comments nothing.
-/
import TemplateCatalog.Text.Blank

namespace TemplateCatalog

open Text

/-- The three kinds of tags. -/
inductive TagKind where
  | variable
  | block
  | comment
  deriving DecidableEq, Repr

namespace TagKind

/-- The character that tells the kind, after the opening brace. -/
def mark : TagKind → Char
  | .variable => '{'
  | .block => '%'
  | .comment => '#'

/-- The character in front of the closing brace. -/
def endMark : TagKind → Char
  | .variable => '}'
  | .block => '%'
  | .comment => '#'

/-- The kind of tag that an opening brace with `c` after it starts. -/
def ofMark? (c : Char) : Option TagKind :=
  if c = '{' then some .variable
  else if c = '%' then some .block
  else if c = '#' then some .comment
  else none

theorem ofMark?_eq_some_iff {c : Char} {k : TagKind} : ofMark? c = some k ↔ c = k.mark := by
  constructor
  · intro h
    unfold ofMark? at h
    split at h
    · simp_all [← Option.some.inj h, mark]
    · split at h
      · simp_all [← Option.some.inj h, mark]
      · split at h
        · simp_all [← Option.some.inj h, mark]
        · simp at h
  · rintro rfl
    cases k <;> rfl

/-- The two characters that open a tag. -/
def opener (k : TagKind) : Text := ['{', k.mark]

/-- The two characters that close a tag. -/
def closer (k : TagKind) : Text := [k.endMark, '}']

/-- The name of the kind in messages. -/
def name : TagKind → Text
  | .variable => "variable".toList
  | .block => "block".toList
  | .comment => "comment".toList

end TagKind

/-- A token is a run of text or a tag. -/
inductive TokenKind where
  | text
  | tag (kind : TagKind)
  deriving DecidableEq, Repr

namespace TokenKind

/-- The characters in front of the body; text has none. -/
def opener : TokenKind → Text
  | .text => []
  | .tag k => k.opener

/-- The characters after the body; text has none. -/
def closer : TokenKind → Text
  | .text => []
  | .tag k => k.closer

end TokenKind

/-- A token: the characters between its delimiters, and the byte it starts at. -/
structure Token where
  kind : TokenKind
  body : Text
  start : Nat
  deriving DecidableEq, Repr

namespace Token

/-- The exact template text of the token. -/
def source (t : Token) : Text := t.kind.opener ++ t.body ++ t.kind.closer

/-- The byte after the token. -/
def stop (t : Token) : Nat := t.start + byteSize t.source

/-- Text as it is, variables and blocks trimmed, nothing of a comment. -/
def contents (t : Token) : Text :=
  match t.kind with
  | .text => t.body
  | .tag .comment => []
  | .tag .variable => trim t.body
  | .tag .block => trim t.body

/-- The byte the contents start at; empty contents are placed at the start of the token. -/
def contentsOffset (t : Token) : Nat :=
  match t.kind, t.contents with
  | _, [] => t.start
  | .text, _ => t.start
  | .tag k, _ => t.start + byteSize k.opener + byteSize (leadingBlanks t.body)

end Token

end TemplateCatalog
