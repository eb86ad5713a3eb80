/-
The fragments of printed tags.

An argument of a tag is printed as a filter expression, as one with a keyword in front, or as a
word. What is extracted from its text is what was put in:

* `FilterExpression.phrased` — an expression is made of complete literals and bare characters,
  none of which is `=`, so it is one fragment and no keyword is split off it;
* `extractFragments_printed` — arguments give the texts of their translations, whatever their
  bytes;
* `fillSlots_printed` — the literals of a translation tag fill the slots of its family.
-/
import TemplateCatalog.Proofs.CallSite
import TemplateCatalog.Proofs.Phrasing
import TemplateCatalog.Template.Extraction

namespace TemplateCatalog

open Text

/-! ### Expressions are phrased -/

/-- The characters of expressions outside of literals. -/
def IsExpressionChar (c : Char) : Prop :=
  isVariableChar c = true ∨ c ∈ ['(', ')', '|', ':', '+', '-']

theorem isBare_of_isExpressionChar {c : Char} (h : IsExpressionChar c) : isBare c = true := by
  rcases h with h | h
  · exact isBare_of_isVariableChar h
  · simp only [List.mem_cons, List.not_mem_nil, or_false] at h
    rcases h with rfl | rfl | rfl | rfl | rfl | rfl <;> decide

theorem not_isExpressionChar_equals : ¬ IsExpressionChar '=' := by
  rintro (h | h)
  · exact absurd h (by decide)
  · exact absurd h (by decide)

theorem isVariableChar_of_isWordChar {c : Char} (h : isWordChar c = true) :
    isVariableChar c = true := by
  simp [isVariableChar, h]

theorem phrased_sign {c : Char} (h : c ∈ ['(', ')', '|', ':', '+', '-']) :
    Phrased IsExpressionChar [c] := .bare (Or.inr h) .nil

theorem IsName.phrased {s : Text} (h : IsName s) : Phrased IsExpressionChar s :=
  .of_forall fun c hc => Or.inl (isVariableChar_of_isWordChar (h.word c hc))

theorem IsVariable.phrased {s : Text} (h : IsVariable s) : Phrased IsExpressionChar s := by
  rcases h.chars with hs | ⟨sign, d, r, rfl, hsign, -, hr⟩
  · exact .of_forall fun c hc => Or.inl (hs c hc)
  · refine .bare (Or.inr ?_) (.of_forall fun c hc => Or.inl (hr c hc))
    rcases hsign with rfl | rfl <;> decide

theorem Operand.phrased {o : Operand} (h : o.WellFormed) :
    Phrased IsExpressionChar o.toText := by
  cases o with
  | literal l => exact .of_literal h
  | translation l =>
    have hopener : Phrased IsExpressionChar translationOpener :=
      .bare (Or.inl (by decide)) (phrased_sign (by decide))
    exact (hopener.append (.of_literal h)).append (phrased_sign (by decide))
  | «variable» name => exact IsVariable.phrased h

theorem FilterCall.phrased {f : FilterCall} (h : f.WellFormed) :
    Phrased IsExpressionChar f.toText := by
  have hname : Phrased IsExpressionChar ('|' :: f.name) :=
    (phrased_sign (by decide)).append h.name.phrased
  rw [FilterCall.toText]
  cases ha : f.argument with
  | none => exact hname
  | some a =>
    exact hname.append ((phrased_sign (by decide)).append (Operand.phrased (h.argument a ha)))

theorem FilterExpression.phrased {e : FilterExpression} (h : e.WellFormed) :
    Phrased IsExpressionChar e.toText := by
  have hfilters : ∀ fs : List FilterCall, (∀ f ∈ fs, f.WellFormed) →
      Phrased IsExpressionChar (fs.flatMap FilterCall.toText) := by
    intro fs hfs
    induction fs with
    | nil => exact .nil
    | cons f fs ih =>
      rw [List.flatMap_cons]
      exact (FilterCall.phrased (hfs f (List.mem_cons_self ..))).append
        (ih fun g hg => hfs g (List.mem_cons_of_mem _ hg))
  refine .append ?_ (hfilters e.filters h.filters)
  cases hv : e.value with
  | none => exact .nil
  | some v => exact Operand.phrased (h.value v hv)

/-- A text that is accepted is phrased. -/
theorem phrased_of_parse {s : Text} {e : FilterExpression}
    (h : FilterExpression.parse s = .ok e) : Phrased IsExpressionChar s := by
  rw [← FilterExpression.toText_of_parse h]
  exact FilterExpression.phrased (FilterExpression.wellFormed_of_parse h)

/-! ### Keywords -/

/-- A keyword in front of a phrased text leaves it phrased. -/
theorem Phrased.keyword {name s : Text} (hn : IsName name) (h : Phrased (isBare ·) s) :
    Phrased (isBare ·) (name ++ '=' :: s) := by
  have hname : Phrased (isBare ·) name :=
    .of_forall fun c hc => isBare_of_isWordChar (hn.word c hc)
  exact hname.append (.bare (by decide) h)

/-- A word in front of a phrased text is no literal, and without it the text is phrased
still. -/
theorem Phrased.dropWhile_isWordChar {p : Char → Prop} {s : Text} (h : Phrased p s) :
    Phrased p (s.dropWhile isWordChar) := by
  induction h with
  | nil => exact .nil
  | @bare c s hc hs ih =>
    rw [List.dropWhile_cons]
    split
    · exact ih
    · exact .bare hc hs
  | @literal l s hl hs _ =>
    have hq : isWordChar l.quote.char ≠ true := by
      intro hw
      have hn := isQuote_of_isWordChar hw
      rw [l.quote.isQuote_char] at hn
      exact absurd hn (by simp)
    have hd : (l.toText ++ s).dropWhile isWordChar = l.toText ++ s :=
      List.dropWhile_cons_of_neg hq
    rw [hd]
    exact .literal hl hs

theorem Phrased.head?_ne_equals {s : Text} (h : Phrased IsExpressionChar s) :
    s.head? ≠ some '=' := by
  intro he
  rcases h.head? '=' he with hc | hq
  · exact not_isExpressionChar_equals hc
  · exact absurd hq (by decide)

theorem splitKeyword_phrased {s : Text} (h : Phrased IsExpressionChar s) :
    splitKeyword s = ([], s) := by
  -- A keyword ends in `=`, which no expression has outside of literals.
  have hd := h.dropWhile_isWordChar.head?_ne_equals
  rw [splitKeyword]
  split
  · rename_i value hv
    rw [hv] at hd
    exact absurd rfl hd
  · rfl

/-- A keyword is split off the expression that it stands in front of. -/
theorem splitKeyword_keyword {name s : Text} (hn : IsName name)
    (h : Phrased IsExpressionChar s) :
    splitKeyword (name ++ '=' :: s) = (name ++ ['='], s) := by
  have hstop : ∀ c ∈ ('=' :: s).head?, isWordChar c = false := by
    intro c hc
    obtain rfl := Option.some.inj hc
    decide
  have ht : (name ++ '=' :: s).takeWhile isWordChar = name := by
    rw [takeWhile_append_of_stop hstop, List.takeWhile_eq_self_iff.2 hn.word]
  have hd : (name ++ '=' :: s).dropWhile isWordChar = '=' :: s := by
    rw [dropWhile_append_of_stop hstop, List.dropWhile_eq_nil_iff.2 hn.word, List.nil_append]
  have hne : name.isEmpty = false := by simp [hn.nonempty]
  have hs : (s.head? == some '=') = false := by simpa using h.head?_ne_equals
  rw [splitKeyword]
  rw [hd, ht]
  simp [hne, hs]

/-! ### Arguments -/

/-- A filter expression that is accepted and not empty, as it is written. -/
structure Formula where
  text : Text
  expression : FilterExpression
  accepted : FilterExpression.parse text = .ok expression
  nonempty : text ≠ []

namespace Formula

/-- The texts of the translations. -/
def strings (e : Formula) : List Text := e.expression.translations.map Literal.inner

theorem wellFormed (e : Formula) : e.expression.WellFormed :=
  FilterExpression.wellFormed_of_parse e.accepted

theorem phrased (e : Formula) : Phrased IsExpressionChar e.text := phrased_of_parse e.accepted

/-- The expression as a fragment. -/
def phrase (e : Formula) : Phrase :=
  ⟨e.text, e.nonempty, e.phrased.mono fun _ => isBare_of_isExpressionChar⟩

theorem extractExpression (e : Formula) (o : Nat) :
    TemplateCatalog.extractExpression e.text o = .ok ⟨e.strings, [], []⟩ := by
  rw [TemplateCatalog.extractExpression, e.accepted]
  rfl

/-- Without `_(` nothing is translated. -/
theorem strings_eq_nil {e : Formula} (h : occurs translationOpener e.text = false) :
    e.strings = [] := by
  -- Each translation has a call site, and without `_(` there is none.
  have hcalls := callSites_expression e.wellFormed 0
  rw [FilterExpression.toText_of_parse e.accepted, callSites_eq_nil h] at hcalls
  cases hl : e.expression.translations with
  | nil => rw [strings, hl, List.map_nil]
  | cons l ls =>
    rw [hl] at hcalls
    cases hcalls

end Formula

/-- A text that is not empty, without blanks and quotes. -/
structure Word where
  text : Text
  nonempty : text ≠ []
  bare : ∀ c ∈ text, isBare c = true

/-- The word as a fragment. -/
def Word.phrase (w : Word) : Phrase := ⟨w.text, w.nonempty, .of_forall w.bare⟩

/-- A word without `_(`. -/
structure PlainWord extends Word where
  silent : occurs translationOpener text = false

/-- What can stand behind the name of a tag. -/
inductive Argument where
  /-- `value|filter`. -/
  | expression (e : Formula)
  /-- `name=value|filter`. -/
  | keyword (name : Text) (isName : IsName name) (value : Formula)
  /-- `==`, `not`, `total`. -/
  | word (w : PlainWord)

namespace Argument

/-- The argument as it is written. -/
def toText : Argument → Text
  | .expression e => e.text
  | .keyword name _ value => name ++ '=' :: value.text
  | .word w => w.text

/-- The texts of the translations. -/
def strings : Argument → List Text
  | .expression e => e.strings
  | .keyword _ _ value => value.strings
  | .word _ => []

theorem toText_ne_nil (a : Argument) : a.toText ≠ [] := by
  cases a with
  | expression e => exact e.nonempty
  | keyword => simp [toText]
  | word w => exact w.nonempty

theorem phrased (a : Argument) : Phrased (isBare ·) a.toText := by
  cases a with
  | expression e => exact e.phrase.phrased
  | keyword name isName value => exact .keyword isName value.phrase.phrased
  | word w => exact w.phrase.phrased

/-- The argument as a fragment. -/
def phrase (a : Argument) : Phrase := ⟨a.toText, a.toText_ne_nil, a.phrased⟩

theorem extractFragment {a : Argument} {f : Fragment} (h : f.text = a.toText) (base : Nat) :
    extractFragment base f = .ok ⟨a.strings, [], []⟩ := by
  rw [TemplateCatalog.extractFragment]
  rw [h]
  cases ho : occurs translationOpener a.toText with
  | true =>
    rw [if_pos rfl]
    cases a with
    | expression e =>
      simp only [toText, splitKeyword_phrased e.phrased]
      exact e.extractExpression _
    | keyword name isName value =>
      simp only [toText, splitKeyword_keyword isName value.phrased]
      exact value.extractExpression _
    | word w =>
      rw [toText, w.silent] at ho
      exact absurd ho (by simp)
  | false =>
    rw [if_neg (by simp)]
    cases a with
    | expression e => rw [strings, Formula.strings_eq_nil ho]
    | keyword name isName value =>
      -- The value is part of the argument.
      have hv : occurs translationOpener value.text = false := by
        rw [Bool.eq_false_iff, ne_eq, occurs_iff] at ho ⊢
        exact fun hi => ho (hi.trans ⟨name ++ ['='], [], by simp [toText]⟩)
      rw [strings, Formula.strings_eq_nil hv]
    | word w => rfl

end Argument

/-- Arguments give the texts of their translations, in order, wherever they stand. -/
theorem extractFragments_printed {fs : List Fragment} {arguments : List Argument}
    (h : fs.map Fragment.text = arguments.map Argument.toText) (base : Nat) :
    extractFragments base fs = .ok ⟨arguments.flatMap Argument.strings, [], []⟩ := by
  induction arguments generalizing fs with
  | nil =>
    rw [List.map_nil, List.map_eq_nil_iff] at h
    subst h
    rfl
  | cons a arguments ih =>
    obtain ⟨f, fs, rfl, hf, hfs⟩ := List.map_eq_cons_iff.1 h
    rw [extractFragments, Argument.extractFragment hf, ih hfs]
    rfl

/-! ### The literals of translation tags -/

/-- A literal with the gap in front of it. -/
structure SlotLiteral where
  gap : Gap
  literal : Literal
  complete : literal.Complete

/-- The literal as a fragment. -/
def SlotLiteral.phrase (l : SlotLiteral) : Phrase :=
  ⟨l.literal.toText, l.literal.toText_ne_nil, .of_literal l.complete⟩

/-- The literals of a translation tag, in the order of its family. -/
inductive SlotLiterals where
  | i18n (message : SlotLiteral)
  | i18nc (context message : SlotLiteral)
  | i18np (message plural : SlotLiteral)
  | i18ncp (context message plural : SlotLiteral)

namespace SlotLiterals

/-- The family that has these literals. -/
def family : SlotLiterals → I18nFamily
  | .i18n _ => .i18n
  | .i18nc _ _ => .i18nc
  | .i18np _ _ => .i18np
  | .i18ncp _ _ _ => .i18ncp

/-- The literals as they stand in the tag. -/
def all : SlotLiterals → List SlotLiteral
  | .i18n message => [message]
  | .i18nc context message => [context, message]
  | .i18np message plural => [message, plural]
  | .i18ncp context message plural => [context, message, plural]

/-- The entry that the literals are the parts of. -/
def entry : SlotLiterals → Entry
  | .i18n message => ⟨message.literal.inner, [], []⟩
  | .i18nc context message => ⟨message.literal.inner, context.literal.inner, []⟩
  | .i18np message plural => ⟨message.literal.inner, [], plural.literal.inner⟩
  | .i18ncp context message plural =>
    ⟨message.literal.inner, context.literal.inner, plural.literal.inner⟩

end SlotLiterals

/-- A literal in front fills the next slot. -/
theorem fillSlots_literal {size : Nat} {e : Entry} {s : Slot} {ss : List Slot} {f : Fragment}
    {fs : List Fragment} {l : SlotLiteral} (h : f.text = l.literal.toText) :
    fillSlots size e (s :: ss) (f :: fs) = fillSlots size (e.set s l.literal.inner) ss fs := by
  rw [fillSlots, Literal.parse?_eq_some_iff.2 ⟨h, l.complete⟩]

/-- The literals of a tag fill the slots of its family, and what follows them is left. -/
theorem fillSlots_printed {ls : SlotLiterals} {fs : List Fragment} {texts : List Text}
    (h : fs.map Fragment.text = ls.all.map (·.literal.toText) ++ texts) (size : Nat) :
    ∃ rest, fillSlots size {} ls.family.slots fs = .ok (ls.entry, rest) ∧
      rest.map Fragment.text = texts := by
  -- One literal is taken off for each slot; the families differ in how many there are.
  cases ls with
  | i18n m =>
    obtain ⟨f, fs, rfl, hf, hrest⟩ := List.map_eq_cons_iff.1 h
    refine ⟨fs, ?_, hrest⟩
    rw [SlotLiterals.family, I18nFamily.slots, fillSlots_literal hf]
    rfl
  | i18nc c m =>
    obtain ⟨f, fs, rfl, hf, h⟩ := List.map_eq_cons_iff.1 h
    obtain ⟨g, fs, rfl, hg, hrest⟩ := List.map_eq_cons_iff.1 h
    refine ⟨fs, ?_, hrest⟩
    rw [SlotLiterals.family, I18nFamily.slots, fillSlots_literal hf, fillSlots_literal hg]
    rfl
  | i18np m p =>
    obtain ⟨f, fs, rfl, hf, h⟩ := List.map_eq_cons_iff.1 h
    obtain ⟨g, fs, rfl, hg, hrest⟩ := List.map_eq_cons_iff.1 h
    refine ⟨fs, ?_, hrest⟩
    rw [SlotLiterals.family, I18nFamily.slots, fillSlots_literal hf, fillSlots_literal hg]
    rfl
  | i18ncp c m p =>
    obtain ⟨f, fs, rfl, hf, h⟩ := List.map_eq_cons_iff.1 h
    obtain ⟨g, fs, rfl, hg, h⟩ := List.map_eq_cons_iff.1 h
    obtain ⟨i, fs, rfl, hi, hrest⟩ := List.map_eq_cons_iff.1 h
    refine ⟨fs, ?_, hrest⟩
    rw [SlotLiterals.family, I18nFamily.slots, fillSlots_literal hf, fillSlots_literal hg,
      fillSlots_literal hi]
    rfl

end TemplateCatalog
