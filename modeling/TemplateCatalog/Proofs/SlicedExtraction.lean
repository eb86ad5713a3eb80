/-
Extraction by byte offsets.

The extraction of a template, run on its pieces: fragments and values are slices that lie
somewhere in the template, and where they lie is found by the difference of two addresses,
which is never negative as one lies in the other. The addresses cancel out, so the extraction
of a slice says the same as that of its text (`Sliced.extract?_eq`).

With the readers of the modules before, nothing that takes a template apart ever asks for a
slice that is not there (`slices_never_fail`).
-/
import TemplateCatalog.Proofs.SlicedExpressions
import TemplateCatalog.Proofs.SlicedPositions
import TemplateCatalog.Proofs.SlicedTokens
import TemplateCatalog.Template.Extraction

namespace TemplateCatalog

open Text

namespace Sliced

/-! ### Translation tags -/

/-- What the contents of a block tag are, by pieces. -/
inductive Match where
  | notI18n
  | i18n (entry : Entry) (arguments : List Slice)
  | malformed (tag : MalformedTag)
  deriving DecidableEq, Repr

/-- Fills slots from the fragments in front, and returns the fragments that are left. -/
def fillSlots? (contents : Slice) (e : Entry) :
    List Slot → List Slice → Option (Except (MalformedReason × Nat) (Entry × List Slice))
  | [], fs => some (.ok (e, fs))
  | s :: _, [] => some (.error (.missingArgument s, byteSize contents.text))
  | s :: ss, f :: fs => do
    match ← parseLiteral? f.text with
    | none => return .error (.notQuoted s f.text, ← contents.offsetIn? f)
    | some l => fillSlots? contents (e.set s l.inner) ss fs

/-- Recognizes the contents of a block tag. -/
def recognize? (contents : Slice) : Option Match := do
  match ← fragments? contents with
  | [] => return .notI18n
  | name :: fs =>
    match I18nFamily.ofTagName? name.text with
    | none => return .notI18n
    | some family =>
      match ← fillSlots? contents {} family.slots fs with
      | .error (reason, offset) => return .malformed ⟨name.text, reason, offset⟩
      | .ok (entry, rest) => return .i18n entry (rest.takeWhile (·.text != bindingKeyword))

/-! ### Expressions and fragments -/

/-- What a part of a template gives. -/
abbrev Scan := Except SyntaxError Extraction

/-- The strings of a filter expression that starts at byte `offset`. -/
def scanExpression? (expression : Text) (offset : Nat) : Option Scan := do
  match ← expression? expression with
  | .ok e => return .ok { plain := e.translations.map Literal.inner }
  | .error e => return .error (.unparsableExpression expression (offset + e.position) e.fault)

/-- The value behind a keyword. -/
def stripKeyword? (fragment : Slice) : Option Slice := do
  let length := byteSize (fragment.text.takeWhile isWordChar)
  match ← sliceFrom? fragment.text length with
  | c :: value =>
    if c = '=' ∧ 0 < length ∧ value.head? ≠ some '=' then
      return ⟨fragment.start + (length + c.utf8Size), value⟩
    else return fragment
  | [] => return fragment

/-- The strings of one fragment of a tag whose contents start at byte `base`. -/
def scanFragment? (contents : Slice) (base : Nat) (fragment : Slice) : Option Scan := do
  if occurs translationOpener fragment.text then
    let value ← stripKeyword? fragment
    scanExpression? value.text (base + (← contents.offsetIn? value))
  else return .ok {}

/-- The strings of the fragments of a tag, in order. -/
def scanFragments? (contents : Slice) (base : Nat) : List Slice → Option Scan
  | [] => some (.ok {})
  | f :: fs => do
    match ← scanFragment? contents base f with
    | .error e => return .error e
    | .ok x => return (← scanFragments? contents base fs).map (x ++ ·)

/-! ### Tokens and templates -/

/-- The strings of a block tag whose contents start at byte `base`. -/
def scanBlock? (contents : Slice) (base : Nat) : Option Scan := do
  let arguments := (← fragments? contents).drop 1
  match ← recognize? contents with
  | .notI18n => scanFragments? contents base arguments
  | .i18n entry arguments =>
    return (← scanFragments? contents base arguments).map
      (({ contextual := [entry] } : Extraction) ++ ·)
  | .malformed tag =>
    return (← scanFragments? contents base arguments).map
      (({ skipped := [⟨tag, base + tag.offset⟩] } : Extraction) ++ ·)

/-- The exact template text of a token. -/
def source? (template : Slice) (t : TokenPiece) : Option Text :=
  slice? template.text t.start t.stop

/-- The byte the contents of a token start at. -/
def contentsOffset? (template : Slice) (t : TokenPiece) : Option Nat :=
  if t.contents.text = [] then some t.start else template.offsetIn? t.contents

/-- The strings of a token. -/
def scanToken? (template : Slice) (t : TokenPiece) : Option Scan := do
  let base ← contentsOffset? template t
  match t.kind with
  | .text => return .ok {}
  | .tag .comment => return .ok {}
  | .tag .variable => scanExpression? t.contents.text base
  | .tag .block => scanBlock? t.contents base

/-- The strings of tokens, in order. -/
def scanTokens? (template : Slice) : List TokenPiece → Option Scan
  | [] => some (.ok {})
  | t :: ts => do
    match ← scanToken? template t with
    | .error e => return .error e
    | .ok x => return (← scanTokens? template ts).map (x ++ ·)

/-- The strings of a template. -/
def extract? (template : Slice) : Option Scan := do
  let (tokens, failure) ← tokens? template
  match ← scanTokens? template tokens, failure with
  | .error e, _ => return .error e
  | .ok _, some failure => return .error failure.toSyntaxError
  | .ok x, none => return .ok x

/-! ### Recognizing -/

/-- What a tag is, with its arguments as pieces of its contents at an address. -/
def matchPieces (address : Nat) : TagMatch → Match
  | .notI18n => .notI18n
  | .i18n entry arguments => .i18n entry (arguments.map (piece address))
  | .malformed tag => .malformed tag

variable {contents template : Slice}

theorem offsetIn?_piece (s : Slice) (f : Fragment) :
    s.offsetIn? (piece s.start f) = some f.offset :=
  minus?_add s.start f.offset

theorem fillSlots?_eq (e : Entry) (ss : List Slot) (fs : List Fragment) :
    fillSlots? contents e ss (fs.map (piece contents.start)) =
      some ((fillSlots (byteSize contents.text) e ss fs).map fun (e, rest) =>
        (e, rest.map (piece contents.start))) := by
  induction ss generalizing e fs with
  | nil => rfl
  | cons s ss ih =>
    cases fs with
    | nil => rfl
    | cons f fs =>
      have htext : (piece contents.start f).text = f.text := rfl
      rw [List.map_cons, fillSlots?, fillSlots, htext, parseLiteral?_eq]
      simp only [bind, Option.bind]
      cases Literal.parse? f.text with
      | none =>
        simp only [offsetIn?_piece]
        rfl
      | some l => exact ih (e.set s l.inner) fs

/-- A tag is recognized by slices that are there. -/
theorem recognize?_eq (contents : Slice) :
    recognize? contents =
      some (matchPieces contents.start (TagMatch.ofContents contents.text)) := by
  rw [recognize?, fragments?_eq, TagMatch.ofContents]
  simp only [bind, Option.bind]
  cases splitFragments contents.text with
  | nil => rfl
  | cons name fs =>
    have htext : (piece contents.start name).text = name.text := rfl
    rw [List.map_cons, TagMatch.ofFragments]
    dsimp only
    rw [htext]
    cases I18nFamily.ofTagName? name.text with
    | none => rfl
    | some family =>
      simp only [fillSlots?_eq]
      cases fillSlots (byteSize contents.text) {} family.slots fs with
      | error fault => rfl
      | ok p =>
        simp only [Except.map, matchPieces, List.takeWhile_map]
        rfl

/-! ### Scanning -/

theorem scanExpression?_eq (expression : Text) (offset : Nat) :
    scanExpression? expression offset = some (extractExpression expression offset) := by
  rw [scanExpression?, expression?_eq, extractExpression]
  simp only [bind, Option.bind]
  cases FilterExpression.parse expression <;> rfl

/-- The value behind a keyword is an end of the fragment. -/
theorem stripKeyword?_eq (f : Slice) :
    stripKeyword? f = some ⟨f.start + byteSize (splitKeyword f.text).1,
      (splitKeyword f.text).2⟩ := by
  have hrest := at_dropWhile (At.start f.text) isWordChar
  rw [Nat.zero_add] at hrest
  rw [stripKeyword?, splitKeyword]
  simp only [bind, Option.bind, hrest.sliceFrom?_eq]
  -- A keyword is a name that is not empty, with one `=` behind it.
  generalize f.text.takeWhile isWordChar = name
  cases f.text.dropWhile isWordChar with
  | nil => rfl
  | cons c value =>
    by_cases hc : c = '='
    · subst hc
      cases name with
      | nil => rfl
      | cons d name =>
        have hpos := byteSize_pos (List.cons_ne_nil d name)
        by_cases hcomparison : value.head? = some '='
        · simp [hcomparison]
        · dsimp only
          rw [if_pos ⟨rfl, hpos, hcomparison⟩]
          simp [hcomparison, Nat.add_assoc]
    · simp [hc]

theorem scanFragment?_eq (base : Nat) (f : Fragment) :
    scanFragment? contents base (piece contents.start f) = some (extractFragment base f) := by
  have htext : (piece contents.start f).text = f.text := rfl
  rw [scanFragment?, extractFragment, htext, stripKeyword?_eq, htext]
  dsimp only [bind, Option.bind]
  split_ifs with hopener
  · have hoffset :
        contents.offsetIn? ⟨(piece contents.start f).start + byteSize (splitKeyword f.text).1,
          (splitKeyword f.text).2⟩ = some (f.offset + byteSize (splitKeyword f.text).1) := by
      rw [piece, Nat.add_assoc]
      exact minus?_add ..
    rw [hoffset]
    dsimp only
    rw [scanExpression?_eq, Nat.add_assoc]
  · rfl

theorem scanFragments?_eq (base : Nat) (fs : List Fragment) :
    scanFragments? contents base (fs.map (piece contents.start)) =
      some (extractFragments base fs) := by
  induction fs with
  | nil => rfl
  | cons f fs ih =>
    rw [List.map_cons, scanFragments?, extractFragments, scanFragment?_eq, ih]
    cases extractFragment base f <;> rfl

theorem scanBlock?_eq (contents : Slice) (base : Nat) :
    scanBlock? contents base = some (extractBlock contents.text base) := by
  rw [scanBlock?, fragments?_eq, recognize?_eq, extractBlock]
  simp only [bind, Option.bind, ← List.map_drop]
  cases TagMatch.ofContents contents.text with
  | notI18n => exact scanFragments?_eq base _
  | i18n entry arguments => simp only [matchPieces, scanFragments?_eq, pure]
  | malformed tag => simp only [matchPieces, scanFragments?_eq, pure]

/-! ### Tokens -/

theorem text_contents_tokenPiece (address : Nat) (t : Token) :
    (tokenPiece address t).contents.text = t.contents := by
  obtain ⟨kind, body, start⟩ := t
  rcases kind with - | k
  · rfl
  · cases k <;> rfl

/-- The contents start where a token says. -/
theorem contentsOffset?_eq (t : Token) :
    contentsOffset? template (tokenPiece template.start t) = some t.contentsOffset := by
  obtain ⟨kind, body, start⟩ := t
  have htag : ∀ k : TagKind,
      minus? (template.start + (start + delimiterSize) + byteSize (leadingBlanks body))
      template.start = some (start + byteSize k.opener + byteSize (leadingBlanks body)) := by
    intro k
    rw [byteSize_opener, Nat.add_assoc, minus?_add]
  rw [contentsOffset?, text_contents_tokenPiece, Token.contentsOffset]
  by_cases hempty : Token.contents ⟨kind, body, start⟩ = []
  · rw [if_pos hempty, hempty]
    rfl
  · obtain ⟨c, r, hcontents⟩ := List.exists_cons_of_ne_nil hempty
    rw [if_neg hempty, hcontents]
    rcases kind with - | - | - | -
    · exact minus?_add ..
    · exact htag .variable
    · exact htag .block
    · exact absurd rfl hempty

theorem scanToken?_eq (t : Token) :
    scanToken? template (tokenPiece template.start t) = some (extractToken t) := by
  rw [scanToken?, contentsOffset?_eq, extractToken]
  simp only [bind, Option.bind, text_contents_tokenPiece, scanExpression?_eq, scanBlock?_eq]
  obtain ⟨kind, body, start⟩ := t
  rcases kind with - | k
  · rfl
  · cases k <;> rfl

theorem scanTokens?_eq (ts : List Token) :
    scanTokens? template (ts.map (tokenPiece template.start)) = some (extractTokens ts) := by
  induction ts with
  | nil => rfl
  | cons t ts ih =>
    rw [List.map_cons, scanTokens?, extractTokens, scanToken?_eq, ih]
    cases extractToken t <;> rfl

/-- A template is extracted by slices that are there. -/
theorem extract?_eq (template : Slice) : extract? template = some (extract template.text) := by
  rw [extract?, tokens?_eq, extract]
  simp only [bind, Option.bind, scanTokens?_eq]
  cases extractTokens (tokenize template.text).tokens with
  | error e => rfl
  | ok x => cases (tokenize template.text).failure <;> rfl

/-- The text of a token is a slice that is there. -/
theorem source?_eq (template : Slice) {t : Token} (h : t ∈ (tokenize template.text).tokens) :
    source? template (tokenPiece template.start t) = some t.source := by
  obtain ⟨r, hat⟩ := (isTokenization_tokenize template.text).token_at h
  exact hat.slice?_eq

end Sliced

/-- **No slice fails.** The readers of a text on byte offsets, which stop without a result when
a slice is not there or an offset would be less than zero, always have a result, for every text
wherever it lies: the tokens and the text of each, the fragments, the literal, the filter
expression, what a tag is, the extraction, and the place of every byte. They are what the
readers of the library find. -/
theorem slices_never_fail (address : Nat) (s : Text) :
    Sliced.tokens? ⟨address, s⟩ =
        some ((tokenize s).tokens.map (Sliced.tokenPiece address), (tokenize s).failure) ∧
      (∀ t ∈ (tokenize s).tokens,
        Sliced.source? ⟨address, s⟩ (Sliced.tokenPiece address t) = some t.source) ∧
      Sliced.fragments? ⟨address, s⟩ = some ((splitFragments s).map (Sliced.piece address)) ∧
      Sliced.parseLiteral? s = some (Literal.parse? s) ∧
      Sliced.expression? s = some (FilterExpression.parse s) ∧
      Sliced.recognize? ⟨address, s⟩ =
        some (Sliced.matchPieces address (TagMatch.ofContents s)) ∧
      Sliced.extract? ⟨address, s⟩ = some (extract s) ∧
      ∀ n, Sliced.locate? s n = some (Position.locate s n) :=
  ⟨Sliced.tokens?_eq ⟨address, s⟩, fun _ => Sliced.source?_eq ⟨address, s⟩,
    Sliced.fragments?_eq ⟨address, s⟩, Sliced.parseLiteral?_eq s, Sliced.expression?_eq s,
    Sliced.recognize?_eq ⟨address, s⟩, Sliced.extract?_eq ⟨address, s⟩, Sliced.locate?_eq s⟩

/-- A variable between characters of two bytes. -/
def wideVariable : Text := "é\x7b\x7bü\x7d\x7dé".toList

theorem slices_never_fail_wideVariable :
    ⟨.tag .variable, ['ü'], 2⟩ ∈ (tokenize wideVariable).tokens ∧
      Sliced.source? ⟨7, wideVariable⟩ ⟨.tag .variable, ⟨11, ['ü']⟩, 2, 8⟩ =
        some "\x7b\x7bü\x7d\x7d".toList := by
  have htokens : tokenize wideVariable =
      ⟨[⟨.text, ['é'], 0⟩, ⟨.tag .variable, ['ü'], 2⟩, ⟨.text, ['é'], 8⟩], none⟩ := by
        decide +kernel
  have hmem : ⟨.tag .variable, ['ü'], 2⟩ ∈ (tokenize wideVariable).tokens := by
    rw [htokens]
    exact List.mem_cons_of_mem _ (List.mem_cons_self ..)
  exact ⟨hmem, (slices_never_fail 7 wideVariable).2.1 _ hmem⟩

end TemplateCatalog
