/-
Printing a template and extracting its strings.

A template is printed from pieces: text, comments, variables, blocks, and translation tags
(`Piece`), each of which carries what it needs to be read back on its own. The main result,
`extract_flatMap_toText`, says that printing any list of pieces and extracting from the result
gives back the strings and the entries that were put in, in order, and no notes.

Pieces do not disturb one another: text in front of a tag is read up to the tag (`Reads.text`),
and a tag up to its own closer, whatever follows (`Reads.tag`). Text next to text is read as
one.
-/
import TemplateCatalog.Proofs.Lexing
import TemplateCatalog.Proofs.Printing

namespace TemplateCatalog

open Text

/-! ### Closers -/

namespace Text

/-- A needle without blanks does not reach into blanks in front. -/
theorem not_infix_blanks_append {needle front s : Text} (hn : ∀ c ∈ needle, isBlank c = false)
    (hne : needle ≠ []) (hf : ∀ c ∈ front, isBlank c = true) (h : ¬ needle <:+: s) :
    ¬ needle <:+: front ++ s := by
  induction front with
  | nil => exact h
  | cons c front ih =>
    rw [List.cons_append, List.infix_cons_iff, not_or]
    refine ⟨?_, ih fun d hd => hf d (List.mem_cons_of_mem _ hd)⟩
    intro hp
    cases needle with
    | nil => exact hne rfl
    | cons d needle =>
      rw [List.cons_prefix_cons] at hp
      have hd := hn d (List.mem_cons_self ..)
      rw [hp.1, hf c (List.mem_cons_self ..)] at hd
      exact absurd hd (by simp)

theorem not_infix_padded {needle front s back : Text} (hn : ∀ c ∈ needle, isBlank c = false)
    (hne : needle ≠ []) (hf : ∀ c ∈ front, isBlank c = true)
    (hb : ∀ c ∈ back, isBlank c = true) (h : ¬ needle <:+: s) :
    ¬ needle <:+: front ++ (s ++ back) := by
  refine not_infix_blanks_append hn hne hf ?_
  -- Blanks behind are blanks in front of the reversed text.
  rw [← List.reverse_infix, List.reverse_append]
  refine not_infix_blanks_append ?_ ?_ ?_ ?_
  · simpa using hn
  · simpa using hne
  · simpa using hb
  · rwa [List.reverse_infix]

end Text

/-- A closer stands first where the tag is closed, if it is not in the body and does not start
at its last character. -/
theorem firstCut_closer {k : TagKind} {body : Text} (h : ¬ k.closer <:+: body)
    (hlast : k.endMark = '}' → body.getLast? ≠ some '}') (after : Text) :
    FirstCut k.closer (body ++ k.closer ++ after) body after := by
  refine ⟨rfl, fun b a he => Nat.le_of_not_lt fun hlt => ?_⟩
  rw [List.append_assoc, List.append_assoc] at he
  rcases List.append_eq_append_iff.1 he with ⟨m, rfl, -⟩ | ⟨m, rfl, hm⟩
  · rw [List.length_append] at hlt
    omega
  · cases m with
    | nil => simp at hlt
    | cons c m =>
      cases m with
      | nil =>
        -- The closer starts at the last character, so it goes on with its own first one.
        simp only [TagKind.closer, List.cons_append, List.nil_append, List.cons.injEq] at hm
        refine hlast hm.2.1.symm ?_
        rw [List.getLast?_append, ← hm.1, ← hm.2.1]
        rfl
      | cons d m =>
        refine h ⟨b, m, ?_⟩
        simp only [TagKind.closer, List.cons_append, List.nil_append, List.cons.injEq] at hm
        simp [TagKind.closer, hm.1, ← hm.2.1]

/-! ### Text -/

/-- Text that no tag starts in, and after which none starts with its last character. -/
structure PlainText where
  text : Text
  free : ∀ k, ¬ TagKind.opener k <:+: text
  closed : text.getLast? ≠ some '{'

namespace PlainText

/-- No text. -/
def empty : PlainText := ⟨[], by simp [TagKind.opener], by simp⟩

theorem tagFree (s : PlainText) (r : Text) : TagFree s.text r := by
  rintro a b he hb ⟨k, u, hu, -⟩
  cases b with
  | nil => exact hb rfl
  | cons c b =>
    cases b with
    | nil =>
      simp only [TagKind.opener, List.cons_append, List.nil_append, List.cons.injEq] at hu
      refine s.closed ?_
      rw [he, List.getLast?_append, hu.1]
      rfl
    | cons d b =>
      refine s.free k ⟨a, b, ?_⟩
      simp only [TagKind.opener, List.cons_append, List.nil_append, List.cons.injEq] at hu
      simp [TagKind.opener, he, hu.1, hu.2.1]

/-- Text next to text is text. -/
def append (s t : PlainText) : PlainText where
  text := s.text ++ t.text
  free := by
    intro k h
    rcases pair_infix_append h with h | h | h
    · exact s.free k h
    · exact t.free k h
    · exact s.closed h
  closed := by
    rw [List.getLast?_append]
    cases ht : t.text.getLast? with
    | none => simpa using s.closed
    | some c => simpa [ht] using t.closed

end PlainText

/-! ### Reading one after another -/

/-- From any byte on, the text is cut into tokens without an error, and these give `x`. -/
def Reads (s : Text) (x : Extraction) : Prop :=
  ∀ o, ∃ ts, Lexes o s ⟨ts, none⟩ ∧ extractTokens ts = .ok x

namespace Reads

variable {s : Text} {x y : Extraction}

theorem nil : Reads [] {} := fun _ => ⟨[], .done, rfl⟩

/-- Text in front of a tag, or at the end, gives nothing. -/
theorem text (t : PlainText) (hs : s = [] ∨ OpensTag s) (h : Reads s x) :
    Reads (t.text ++ s) x := by
  intro o
  by_cases ht : t.text = []
  · rw [ht]
    exact h o
  · obtain ⟨ts, hl, hx⟩ := h (Token.stop ⟨.text, t.text, o⟩)
    refine ⟨⟨.text, t.text, o⟩ :: ts, .text ht (t.tagFree s) hs hl, ?_⟩
    rw [extractTokens, hx]
    exact congrArg Except.ok (Extraction.empty_append x)

/-- A tag gives its own strings, and then come those of what follows it. -/
theorem tag {k : TagKind} {body : Text} (hfree : ¬ k.closer <:+: body)
    (hlast : k.endMark = '}' → body.getLast? ≠ some '}')
    (ht : ∀ o, extractToken ⟨.tag k, body, o⟩ = .ok y) (h : Reads s x) :
    Reads (k.opener ++ (body ++ k.closer ++ s)) (y ++ x) := by
  intro o
  obtain ⟨ts, hl, hx⟩ := h (Token.stop ⟨.tag k, body, o⟩)
  refine ⟨⟨.tag k, body, o⟩ :: ts, .tag (firstCut_closer hfree hlast s) hl, ?_⟩
  rw [extractTokens, ht o, hx]
  rfl

theorem extract (h : Reads s x) : TemplateCatalog.extract s = .ok x := by
  obtain ⟨ts, hl, hx⟩ := h 0
  rw [TemplateCatalog.extract, lexes_tokenize_iff.1 hl, hx]

end Reads

/-! ### Variables and blocks -/

theorem getLast?_padded_ne {s : Text} (back : Gap) {c : Char} (hc : isBlank c = false) :
    (s ++ back.text).getLast? ≠ some c := by
  intro h
  rw [List.getLast?_append_of_ne_nil _ back.nonempty] at h
  rw [back.blank c (List.mem_of_mem_getLast? h)] at hc
  exact absurd hc (by simp)

theorem closer_not_blank (k : TagKind) : ∀ c ∈ k.closer, isBlank c = false := by
  intro c hc
  rcases List.mem_pair.1 hc with rfl | rfl
  · cases k <;> decide
  · decide

theorem closer_ne_nil (k : TagKind) : k.closer ≠ [] := by simp [TagKind.closer]

/-- A name and the phrases after it, between gaps and with gaps between them, without the
closer of the tag. -/
structure Phrases (k : TagKind) where
  front : Gap
  name : Phrase
  rest : List (Gap × Phrase)
  back : Gap
  free : ¬ k.closer <:+: name.text ++ joined rest

namespace Phrases

variable {k : TagKind} (p : Phrases k)

/-- The phrases without the gaps around them. -/
def contents : Text := p.name.text ++ joined p.rest

/-- What stands between the delimiters. -/
def body : Text := p.front.text ++ (p.contents ++ p.back.text)

theorem trim_body : trim p.body = p.contents :=
  trim_padded p.front.blank p.back.blank (by simp [contents, p.name.nonempty]) (p.name.head? _)
    (joined_getLast? p.name.getLast? _)

theorem body_free : ¬ k.closer <:+: p.body :=
  not_infix_padded (closer_not_blank k) (closer_ne_nil k) p.front.blank p.back.blank p.free

theorem body_getLast? : p.body.getLast? ≠ some '}' := by
  rw [body, ← List.append_assoc]
  exact getLast?_padded_ne p.back (by decide)

theorem splitFragments_contents :
    (splitFragments p.contents).map Fragment.text = p.name.text :: p.rest.map (·.2.text) :=
  splitFragments_joined p.name p.rest

end Phrases

/-- A variable: an expression between gaps, without `}}` in it. -/
structure VariableTag where
  front : Gap
  value : Formula
  back : Gap
  free : ¬ TagKind.variable.closer <:+: value.text

namespace VariableTag

variable (t : VariableTag)

/-- The one phrase of the variable. -/
def phrases : Phrases .variable where
  front := t.front
  name := t.value.phrase
  rest := []
  back := t.back
  free := by
    rw [joined_nil, List.append_nil]
    exact t.free

theorem extractToken (o : Nat) :
    extractToken ⟨.tag .variable, t.phrases.body, o⟩ = .ok ⟨t.value.strings, [], []⟩ := by
  show extractExpression (trim t.phrases.body) _ = _
  rw [t.phrases.trim_body, Phrases.contents]
  show extractExpression (t.value.text ++ []) _ = _
  rw [List.append_nil]
  exact t.value.extractExpression _

end VariableTag

/-! ### Names of tags -/

namespace I18nFamily

/-- The tag name of the family, with the suffix if the tag binds its result. -/
def tagName (family : I18nFamily) (binds : Bool) : Text :=
  family.name ++ if binds then bindingSuffix else []

theorem ofTagName?_tagName (family : I18nFamily) (binds : Bool) :
    ofTagName? (family.tagName binds) = some family := by
  cases family <;> cases binds <;> decide

/-- Only tag names belong to a family. -/
theorem ofTagName?_eq_none {s : Text} (h : ∀ family binds, s ≠ tagName family binds) :
    ofTagName? s = none := by
  refine List.find?_eq_none.2 fun family _ he => ?_
  rw [beq_iff_eq, dropBindingSuffix] at he
  split at he
  · -- The suffix was dropped, so the name has it.
    rename_i hs
    refine h family true ?_
    obtain ⟨r, hr⟩ := List.isSuffixOf_iff_suffix.1 hs
    rw [tagName, he, ← hr]
    simp
  · refine h family false ?_
    rw [tagName, he]
    simp

theorem isBare_of_mem_tagName {family : I18nFamily} {binds : Bool} :
    ∀ c ∈ family.tagName binds, isBare c = true := by
  refine List.all_eq_true.1 ?_
  cases family <;> cases binds <;> decide

end I18nFamily

/-- The name of a translation tag as a fragment. -/
def tagNamePhrase (family : I18nFamily) (binds : Bool) : Phrase where
  text := family.tagName binds
  nonempty := by cases family <;> cases binds <;> decide
  phrased := .of_forall I18nFamily.isBare_of_mem_tagName

/-- An argument with the gap in front of it, as a phrase. -/
def argumentPhrase (a : Gap × Argument) : Gap × Phrase := (a.1, a.2.phrase)

/-- A block that is no translation tag: a name and arguments. -/
structure BlockTag where
  front : Gap
  name : Word
  arguments : List (Gap × Argument)
  back : Gap
  other : ∀ family binds, name.text ≠ I18nFamily.tagName family binds
  free : ¬ TagKind.block.closer <:+: name.text ++ joined (arguments.map argumentPhrase)

namespace BlockTag

variable (t : BlockTag)

/-- The name and the arguments as phrases. -/
def phrases : Phrases .block where
  front := t.front
  name := t.name.phrase
  rest := t.arguments.map argumentPhrase
  back := t.back
  free := t.free

/-- The texts of the translations. -/
def strings : List Text := t.arguments.flatMap (·.2.strings)

theorem extractToken (o : Nat) :
    extractToken ⟨.tag .block, t.phrases.body, o⟩ = .ok ⟨t.strings, [], []⟩ := by
  have hs := t.phrases.splitFragments_contents
  obtain ⟨f, fs, hsplit, hf, hfs⟩ := List.map_eq_cons_iff.1 hs
  have hf : I18nFamily.ofTagName? f.text = none := by
    rw [hf]
    exact I18nFamily.ofTagName?_eq_none t.other
  have hfs : fs.map Fragment.text = (t.arguments.map (·.2)).map Argument.toText := by
    rw [hfs, phrases, List.map_map, List.map_map]
    rfl
  show extractBlock (trim t.phrases.body) _ = _
  rw [t.phrases.trim_body, extractBlock, TagMatch.ofContents, hsplit, TagMatch.ofFragments, hf]
  refine (extractFragments_printed hfs _).trans ?_
  rw [strings, List.flatMap_map]

end BlockTag

/-- The keyword that binds the result of a tag, and the variable that takes it. -/
structure Binding where
  gap : Gap
  inner : Gap
  target : PlainWord

/-- The keyword as a fragment. -/
def bindingPhrase : Phrase :=
  ⟨bindingKeyword, by decide, .of_forall (List.all_eq_true.1 (by decide))⟩

/-- The keyword and the variable as phrases. -/
def Binding.phrases (b : Binding) : List (Gap × Phrase) :=
  [(b.gap, bindingPhrase), (b.inner, b.target.phrase)]

/-- A translation tag: the literals of its family, arguments, and maybe a binding of the
result. -/
structure TranslationTag where
  front : Gap
  binds : Bool
  literals : SlotLiterals
  arguments : List (Gap × Argument)
  binding : Option Binding
  back : Gap
  unbound : ∀ a ∈ arguments, a.2.toText ≠ bindingKeyword
  free : ¬ TagKind.block.closer <:+: literals.family.tagName binds ++
    joined (literals.all.map (fun l => (l.gap, l.phrase)) ++ arguments.map argumentPhrase ++
      binding.toList.flatMap Binding.phrases)

namespace TranslationTag

variable (t : TranslationTag)

/-- The name, the literals, the arguments and the binding as phrases. -/
def phrases : Phrases .block where
  front := t.front
  name := tagNamePhrase t.literals.family t.binds
  rest := t.literals.all.map (fun l => (l.gap, l.phrase)) ++ t.arguments.map argumentPhrase ++
    t.binding.toList.flatMap Binding.phrases
  back := t.back
  free := t.free

/-- The texts of the translations. -/
def strings : List Text := t.arguments.flatMap (·.2.strings)

theorem takeWhile_rest {rest : List Fragment}
    (h : rest.map Fragment.text = t.arguments.map (·.2.toText) ++
      (t.binding.toList.flatMap Binding.phrases).map (·.2.text)) :
    (rest.takeWhile (·.text != bindingKeyword)).map Fragment.text =
      (t.arguments.map (·.2)).map Argument.toText := by
  have hargs : ∀ s ∈ t.arguments.map (·.2.toText), (s != bindingKeyword) = true := by
    intro s hs
    obtain ⟨a, ha, rfl⟩ := List.mem_map.1 hs
    simpa using t.unbound a ha
  have hbind : ((t.binding.toList.flatMap Binding.phrases).map (·.2.text)).takeWhile
      (· != bindingKeyword) = [] := by
    cases t.binding with
    | none => rfl
    | some b => rfl
  -- No argument is the keyword, and a binding starts with it.
  have hmap := List.takeWhile_map (f := Fragment.text) (p := (· != bindingKeyword)) (l := rest)
  rw [h, List.takeWhile_append_of_pos hargs, hbind, List.append_nil] at hmap
  rw [List.map_map]
  exact hmap.symm

theorem extractToken (o : Nat) :
    extractToken ⟨.tag .block, t.phrases.body, o⟩ =
      .ok ⟨t.strings, [t.literals.entry], []⟩ := by
  have hs := t.phrases.splitFragments_contents
  obtain ⟨f, fs, hsplit, hf, hfs⟩ := List.map_eq_cons_iff.1 hs
  have hf : I18nFamily.ofTagName? f.text = some t.literals.family := by
    rw [hf]
    exact I18nFamily.ofTagName?_tagName _ _
  have hfs : fs.map Fragment.text = t.literals.all.map (·.literal.toText) ++
      (t.arguments.map (·.2.toText) ++
        (t.binding.toList.flatMap Binding.phrases).map (·.2.text)) := by
    rw [hfs, phrases, List.map_append, List.map_append, List.map_map, List.map_map,
      List.append_assoc]
    rfl
  -- The literals are used up, and the arguments and the binding are left.
  obtain ⟨rest, hfill, hrest⟩ := fillSlots_printed hfs (byteSize t.phrases.contents)
  show extractBlock (trim t.phrases.body) _ = _
  rw [t.phrases.trim_body, extractBlock, TagMatch.ofContents, hsplit, TagMatch.ofFragments, hf]
  dsimp only
  rw [hfill]
  dsimp only
  rw [extractFragments_printed (t.takeWhile_rest hrest), strings, List.flatMap_map]
  rfl

end TranslationTag

/-! ### Pieces -/

/-- What templates are printed from. -/
inductive Piece where
  | text (s : PlainText)
  /-- A comment ends at the first closer. -/
  | comment (s : Text) (free : ¬ TagKind.comment.closer <:+: s)
  | variable (t : VariableTag)
  | block (t : BlockTag)
  | translation (t : TranslationTag)

namespace Piece

/-- A tag as it is written. -/
def tagText (k : TagKind) (body : Text) : Text := k.opener ++ (body ++ k.closer)

/-- The piece as it is written. -/
def toText : Piece → Text
  | .text s => s.text
  | .comment s _ => tagText .comment s
  | .variable t => tagText .variable t.phrases.body
  | .block t => tagText .block t.phrases.body
  | .translation t => tagText .block t.phrases.body

/-- The texts of the translations of the piece. -/
def strings : Piece → List Text
  | .text _ => []
  | .comment _ _ => []
  | .variable t => t.value.strings
  | .block t => t.strings
  | .translation t => t.strings

/-- The entry of the piece, if it is a translation tag. -/
def entry? : Piece → Option Entry
  | .text _ => none
  | .comment _ _ => none
  | .variable _ => none
  | .block _ => none
  | .translation t => some t.literals.entry

/-- What was put into pieces. -/
def content (ps : List Piece) : Extraction := ⟨ps.flatMap strings, ps.filterMap entry?, []⟩

/-- Pieces are read one after another, and text in front of them with them. -/
theorem reads (ps : List Piece) (s : PlainText) :
    Reads (s.text ++ ps.flatMap toText) (content ps) := by
  induction ps generalizing s with
  | nil => exact .text s (Or.inl rfl) .nil
  | cons p ps ih =>
    have hrest : Reads (ps.flatMap toText) (content ps) := ih .empty
    -- The text in front is read up to a tag, and the tag up to its closer.
    have htag {k : TagKind} {body : Text} {y : Extraction} (hfree : ¬ k.closer <:+: body)
        (hlast : k.endMark = '}' → body.getLast? ≠ some '}')
        (ht : ∀ o, extractToken ⟨.tag k, body, o⟩ = .ok y) :
        Reads (s.text ++ (tagText k body ++ ps.flatMap toText)) (y ++ content ps) := by
      have he : tagText k body ++ ps.flatMap toText =
          k.opener ++ (body ++ k.closer ++ ps.flatMap toText) := by
        rw [tagText, List.append_assoc]
      rw [he]
      exact .text s (Or.inr (opensTag_of_firstCut (firstCut_closer hfree hlast _)))
        (.tag hfree hlast ht hrest)
    rw [List.flatMap_cons]
    cases p with
    | text t =>
      rw [← List.append_assoc]
      exact ih (s.append t)
    | comment t free =>
      exact htag free (fun h => absurd h (by decide)) fun _ => rfl
    | «variable» t =>
      exact htag t.phrases.body_free (fun _ => t.phrases.body_getLast?) t.extractToken
    | block t =>
      exact htag t.phrases.body_free (fun _ => t.phrases.body_getLast?) t.extractToken
    | translation t =>
      exact htag t.phrases.body_free (fun _ => t.phrases.body_getLast?) t.extractToken

end Piece

/-- **What is printed is extracted.** Extracting from printed pieces gives the texts of their
translations and their entries, each in order, and no notes. -/
theorem extract_flatMap_toText (ps : List Piece) :
    extract (ps.flatMap Piece.toText) =
      .ok ⟨ps.flatMap Piece.strings, ps.filterMap Piece.entry?, []⟩ :=
  (Piece.reads ps .empty).extract

/- A translation tag with all that can stand in it. -/
example : ∃ t : TranslationTag, t.literals.entry = ⟨['m'], ['c'], []⟩ ∧
    (Piece.translation t).toText = "\x7b% i18nc_var 'c' 'm' n as v %\x7d".toList := by
  refine ⟨⟨.single, true,
    .i18nc ⟨.single, ⟨.single, ['c']⟩, .plain (by decide) (by decide) .nil⟩
      ⟨.single, ⟨.single, ['m']⟩, .plain (by decide) (by decide) .nil⟩,
    [(.single, .word ⟨⟨['n'], by decide, List.all_eq_true.1 (by decide)⟩, by decide⟩)],
    some ⟨.single, .single, ⟨⟨['v'], by decide, List.all_eq_true.1 (by decide)⟩, by decide⟩⟩,
    .single, by simp [Argument.toText, bindingKeyword], ?_⟩, rfl, rfl⟩
  rw [← occurs_iff]
  decide

end TemplateCatalog
