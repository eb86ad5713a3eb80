/-
Extracting the strings of a template.

A variable tag is scanned as one filter expression. A translation tag gives an entry, and its
arguments are scanned; a malformed one is skipped with a note, and all its fragments are
scanned, as are the fragments of every other block. A fragment is read as an expression only if
`_(` occurs in it, without the keyword in front. Text and comments give nothing.

What one token gives is an `Extraction`, and a template gives what its tokens give, joined in
order (`extractTokens_append`). The first fault ends the extraction.
-/
import TemplateCatalog.Template.FilterReading
import TemplateCatalog.Template.I18nTag
import TemplateCatalog.Template.Tokenization

namespace TemplateCatalog

open Text

/-! ### Faults -/

/-- A fault that ends the extraction of a template, with the byte it lies at. -/
inductive SyntaxError where
  | unterminatedTag (kind : TagKind) (offset : Nat)
  | unparsableExpression (fragment : Text) (offset : Nat) (fault : FilterFault)
  deriving DecidableEq, Repr

namespace SyntaxError

/-- The byte of the template that the fault lies at. -/
def offset : SyntaxError → Nat
  | .unterminatedTag _ offset => offset
  | .unparsableExpression _ offset _ => offset

/-- The fault in words. -/
def message : SyntaxError → Text
  | .unterminatedTag kind _ =>
    "unterminated ".toList ++ kind.name ++ " tag: no `".toList ++ kind.closer ++
      "` before end of template".toList
  | .unparsableExpression fragment _ fault =>
    "cannot parse filter expression `".toList ++ fragment ++ "`: ".toList ++ fault.message

end SyntaxError

/-- A tag that is never closed, as a fault of its template. -/
def UnterminatedTag.toSyntaxError (e : UnterminatedTag) : SyntaxError :=
  .unterminatedTag e.kind e.offset

/-! ### What a template gives -/

/-- A translation tag that was skipped, and the byte of the template it was skipped at. -/
structure SkippedTag where
  tag : MalformedTag
  offset : Nat
  deriving DecidableEq, Repr

/-- The strings to be translated and the notes on skipped tags, each in the order of the
template. -/
structure Extraction where
  plain : List Text := []
  contextual : List Entry := []
  skipped : List SkippedTag := []
  deriving DecidableEq, Repr

namespace Extraction

/-- One extraction after another. -/
def append (x y : Extraction) : Extraction :=
  ⟨x.plain ++ y.plain, x.contextual ++ y.contextual, x.skipped ++ y.skipped⟩

instance : Append Extraction := ⟨append⟩

@[simp] theorem plain_append (x y : Extraction) : (x ++ y).plain = x.plain ++ y.plain := rfl

@[simp] theorem contextual_append (x y : Extraction) :
    (x ++ y).contextual = x.contextual ++ y.contextual := rfl

@[simp] theorem skipped_append (x y : Extraction) : (x ++ y).skipped = x.skipped ++ y.skipped := rfl

@[ext] theorem ext {x y : Extraction} (hp : x.plain = y.plain)
    (hc : x.contextual = y.contextual) (hs : x.skipped = y.skipped) : x = y := by
  cases x
  cases y
  simp_all

@[simp] theorem empty_append (x : Extraction) : ({} : Extraction) ++ x = x := by
  ext <;> simp

@[simp] theorem append_empty (x : Extraction) : x ++ ({} : Extraction) = x := by
  ext <;> simp

theorem append_assoc (x y z : Extraction) : x ++ y ++ z = x ++ (y ++ z) := by
  ext <;> simp

/-- The number of strings to be translated. -/
def size (x : Extraction) : Nat := x.plain.length + x.contextual.length

/-- Is there nothing to translate? -/
def isEmpty (x : Extraction) : Bool := x.plain.isEmpty && x.contextual.isEmpty

end Extraction

/-! ### Expressions and fragments -/

/-- The strings of a filter expression that starts at byte `offset`. -/
def extractExpression (expression : Text) (offset : Nat) : Except SyntaxError Extraction :=
  match FilterExpression.parse expression with
  | .ok e => .ok { plain := e.translations.map Literal.inner }
  | .error e => .error (.unparsableExpression expression (offset + e.position) e.fault)

/-- The keyword with its `=` in front of a value, and the value. A text without a keyword is a
value, and so is a comparison with `==`. -/
def splitKeyword (s : Text) : Text × Text :=
  match s.dropWhile isWordChar with
  | '=' :: value =>
    if (s.takeWhile isWordChar).isEmpty || value.head? == some '=' then ([], s)
    else (s.takeWhile isWordChar ++ ['='], value)
  | _ => ([], s)

theorem splitKeyword_append (s : Text) : (splitKeyword s).1 ++ (splitKeyword s).2 = s := by
  have h := List.takeWhile_append_dropWhile (p := isWordChar) (l := s)
  unfold splitKeyword
  split
  · rename_i value hv
    rw [hv] at h
    split
    · rfl
    · simpa using h
  · rfl

/-- The strings of one fragment of a tag whose contents start at byte `base`. -/
def extractFragment (base : Nat) (f : Fragment) : Except SyntaxError Extraction :=
  if occurs translationOpener f.text then
    let (keyword, value) := splitKeyword f.text
    extractExpression value (base + f.offset + byteSize keyword)
  else .ok {}

/-- The strings of the fragments of a tag, in order. -/
def extractFragments (base : Nat) : List Fragment → Except SyntaxError Extraction
  | [] => .ok {}
  | f :: fs =>
    match extractFragment base f with
    | .error e => .error e
    | .ok x => (extractFragments base fs).map (x ++ ·)

/-! ### Tokens -/

/-- The strings of a block tag whose contents start at byte `base`. -/
def extractBlock (contents : Text) (base : Nat) : Except SyntaxError Extraction :=
  let arguments := (splitFragments contents).drop 1
  match TagMatch.ofContents contents with
  | .notI18n => extractFragments base arguments
  | .i18n entry arguments =>
    (extractFragments base arguments).map (({ contextual := [entry] } : Extraction) ++ ·)
  | .malformed tag =>
    (extractFragments base arguments).map
      (({ skipped := [⟨tag, base + tag.offset⟩] } : Extraction) ++ ·)

/-- The strings of a token. -/
def extractToken (t : Token) : Except SyntaxError Extraction :=
  match t.kind with
  | .text => .ok {}
  | .tag .comment => .ok {}
  | .tag .variable => extractExpression t.contents t.contentsOffset
  | .tag .block => extractBlock t.contents t.contentsOffset

/-- The strings of tokens, in order. -/
def extractTokens : List Token → Except SyntaxError Extraction
  | [] => .ok {}
  | t :: ts =>
    match extractToken t with
    | .error e => .error e
    | .ok x => (extractTokens ts).map (x ++ ·)

/-- The strings of two runs of tokens are those of the first and those of the second. -/
theorem extractTokens_append (ts us : List Token) :
    extractTokens (ts ++ us) =
      match extractTokens ts with
      | .error e => .error e
      | .ok x => (extractTokens us).map (x ++ ·) := by
  induction ts with
  | nil => cases h : extractTokens us <;> simp [extractTokens, h, Except.map]
  | cons t ts ih =>
    simp only [List.cons_append, extractTokens]
    cases extractToken t with
    | error e => rfl
    | ok x =>
      simp only [ih]
      cases extractTokens ts with
      | error e => rfl
      | ok y => cases extractTokens us <;> simp [Except.map, Extraction.append_assoc]

/-! ### Templates -/

/-- The strings of a template. -/
def extract (template : Text) : Except SyntaxError Extraction :=
  let cut := tokenize template
  match extractTokens cut.tokens, cut.failure with
  | .error e, _ => .error e
  | .ok _, some failure => .error failure.toSyntaxError
  | .ok x, none => .ok x

end TemplateCatalog
