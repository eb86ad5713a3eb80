/-
The grammar of filter expressions.

`Grammar.expression` is the language of filter expressions, put together from the languages of
their parts. The main result, `parse_iff_and_unambiguous`, says that reading and writing are
inverse to each other on well-formed expressions, that exactly the words of the grammar are
accepted, each as one expression only, and that a literal is accepted exactly if it is a word
of `Grammar.literal`.

* `FilterExpression.parse_toText` — what is written is read again, part by part: an operand is
  read up to the filter behind it (`readOperand_toText`), and filters one after another
  (`readFilters_toText`);
* `Grammar.mem_expression_iff` — the words of the grammar are the written forms of well-formed
  expressions.
-/
import TemplateCatalog.Proofs.ExpressionForm
import TemplateCatalog.Proofs.Phrasing
import Mathlib.Computability.Language

namespace TemplateCatalog

open Text

/-! ### Reading what is written -/

/-- A filter stands in front, or nothing. -/
def StartsFilter (r : Text) : Prop := ∀ c ∈ r.head?, c = '|'

theorem startsFilter_flatMap (fs : List FilterCall) :
    StartsFilter (fs.flatMap FilterCall.toText) := by
  intro c hc
  cases fs with
  | nil => simp at hc
  | cons f fs =>
    have hbar : (FilterCall.toText f ++ fs.flatMap FilterCall.toText).head? = some '|' := by
      rw [FilterCall.toText]
      cases f.argument <;> rfl
    rw [List.flatMap_cons, hbar] at hc
    exact (Option.some.inj hc).symm

theorem StartsFilter.stop {p : Char → Bool} {r : Text} (h : StartsFilter r)
    (hp : p '|' = false) : ∀ c ∈ r.head?, p c = false := by
  intro c hc
  rwa [h c hc]

theorem takeVariable_of_not_sign {c : Char} {s : Text} (hc : ¬ (c = '-' ∨ c = '+')) :
    takeVariable (c :: s) =
      ((c :: s).takeWhile isVariableChar, (c :: s).dropWhile isVariableChar) := by
  cases s with
  | nil => rfl
  | cons d s =>
    rw [takeVariable, if_neg]
    exact fun h => hc h.1

theorem not_sign_of_isVariableChar {c : Char} (h : isVariableChar c = true) :
    ¬ (c = '-' ∨ c = '+') := by
  rintro (rfl | rfl) <;> exact absurd h (by decide)

/-- A variable is taken off up to a character that does not belong to one. -/
theorem takeVariable_variable {name r : Text} (h : IsVariable name)
    (hstop : ∀ c ∈ r.head?, isVariableChar c = false) :
    takeVariable (name ++ r) = (name, r) := by
  -- A run of variable characters ends where the name ends.
  have hrun : ∀ s : Text, (∀ c ∈ s, isVariableChar c = true) →
      (s ++ r).takeWhile isVariableChar = s ∧ (s ++ r).dropWhile isVariableChar = r := by
    intro s hs
    rw [takeWhile_append_of_stop hstop, dropWhile_append_of_stop hstop,
      List.takeWhile_eq_self_iff.2 hs, List.dropWhile_eq_nil_iff.2 hs]
    exact ⟨rfl, rfl⟩
  rcases h.chars with hs | ⟨sign, d, s, rfl, hsign, hd, hs⟩
  · cases name with
    | nil => exact absurd rfl h.nonempty
    | cons c s =>
      have hc := not_sign_of_isVariableChar (hs c (List.mem_cons_self ..))
      have hcs := hrun (c :: s) hs
      rw [List.cons_append] at hcs ⊢
      rw [takeVariable_of_not_sign hc, hcs.1, hcs.2]
  · have hds := hrun (d :: s) hs
    rw [List.cons_append] at hds
    rw [List.cons_append, List.cons_append, takeVariable, if_pos ⟨hsign, hd⟩, hds.1, hds.2]

theorem readTranslation_literal {l : Literal} (h : l.Complete) (r : Text) :
    readTranslation (l.toText ++ ')' :: r) = .ok (.translation l, r) := by
  have hq : startsWithQuote (l.toText ++ ')' :: r) = true := l.quote.isQuote_char
  rw [readTranslation, if_pos hq, Literal.take?_toText_append h]
  rfl

theorem readPlainOperand_literal {l : Literal} (h : l.Complete) (r : Text) :
    readPlainOperand (l.toText ++ r) = .ok (.literal l, r) := by
  have hq : startsWithQuote (l.toText ++ r) = true := l.quote.isQuote_char
  rw [readPlainOperand, if_pos hq, Literal.take?_toText_append h]

theorem isQuote_head_of_isVariable {c : Char} {s : Text} (h : IsVariable (c :: s)) :
    isQuote c = false := by
  rcases h.chars with hs | ⟨sign, d, u, he, hsign, -, -⟩
  · exact isQuote_of_isBare (isBare_of_isVariableChar (hs c (List.mem_cons_self ..)))
  · rw [List.cons.injEq] at he
    rw [he.1]
    rcases hsign with rfl | rfl <;> decide

theorem readPlainOperand_variable {name r : Text} (h : IsVariable name)
    (hr : ∀ c ∈ r.head?, isVariableChar c = false) :
    readPlainOperand (name ++ r) = .ok (.variable name, r) := by
  have ht := takeVariable_variable h hr
  cases name with
  | nil => exact absurd rfl h.nonempty
  | cons c s =>
    have hq : ¬ startsWithQuote (c :: s ++ r) = true := by
      rw [List.cons_append, startsWithQuote, isQuote_head_of_isVariable h]
      simp
    rw [readPlainOperand, if_neg hq, ht]

/-- Only `_(` in front makes an operand a translation. -/
theorem readOperand_plain {s : Text} (h : ¬ translationOpener <+: s) :
    readOperand s = readPlainOperand s := by
  unfold readOperand
  split
  · rename_i r
    exact absurd ⟨r, rfl⟩ h
  · rfl

theorem not_opener_prefix_variable {name r : Text} (h : IsVariable name)
    (hr : StartsFilter r) : ¬ translationOpener <+: name ++ r := by
  rintro ⟨u, hu⟩
  -- The bracket would be taken off with the variable, or start a filter.
  have hbracket : '(' ∈ name ∨ '(' ∈ r.head? := by
    cases name with
    | nil => exact absurd rfl h.nonempty
    | cons c s =>
      simp only [translationOpener, List.cons_append, List.nil_append, List.cons.injEq] at hu
      cases s with
      | nil =>
        refine Or.inr ?_
        rw [List.nil_append] at hu
        rw [← hu.2]
        rfl
      | cons d s =>
        simp only [List.cons_append, List.cons.injEq] at hu
        exact Or.inl (by simp [← hu.2.1])
  rcases hbracket with hm | hm
  · rcases h.chars with hs | ⟨sign, d, s, rfl, hsign, -, hs⟩
    · exact absurd (hs _ hm) (by decide)
    · rcases List.mem_cons.1 hm with rfl | hm
      · exact absurd hsign (by decide)
      · exact absurd (hs _ hm) (by decide)
  · exact absurd (hr _ hm) (by decide)

theorem not_opener_prefix_literal (l : Literal) (r : Text) :
    ¬ translationOpener <+: l.toText ++ r := by
  rintro ⟨u, hu⟩
  have hchar : '_' = l.quote.char := (List.cons.inj hu).1
  have hq := l.quote.isQuote_char
  rw [← hchar] at hq
  exact absurd hq (by decide)

/-- An operand is read up to the filter behind it. -/
theorem readOperand_toText {o : Operand} (h : o.WellFormed) {r : Text} (hr : StartsFilter r) :
    readOperand (o.toText ++ r) = .ok (o, r) := by
  cases o with
  | literal l =>
    rw [Operand.toText, readOperand_plain (not_opener_prefix_literal l r)]
    exact readPlainOperand_literal h r
  | translation l =>
    have he : (Operand.translation l).toText ++ r = '_' :: '(' :: (l.toText ++ ')' :: r) := by
      simp [Operand.toText, translationOpener]
    rw [he]
    exact readTranslation_literal h r
  | «variable» name =>
    rw [Operand.toText, readOperand_plain (not_opener_prefix_variable h hr)]
    exact readPlainOperand_variable h (hr.stop (by decide))

/-- A name is taken off up to a sign that is no word character. -/
theorem span_name {name r : Text} (h : IsName name)
    (hr : ∀ c ∈ r.head?, isWordChar c = false) :
    (name ++ r).takeWhile isWordChar = name ∧ (name ++ r).dropWhile isWordChar = r := by
  rw [takeWhile_append_of_stop hr, dropWhile_append_of_stop hr,
    List.takeWhile_eq_self_iff.2 h.word, List.dropWhile_eq_nil_iff.2 h.word]
  exact ⟨rfl, rfl⟩

theorem readFilters_name {name r : Text} (h : IsName name) (hr : StartsFilter r) :
    readFilters ('|' :: (name ++ r)) = (readFilters r).map (⟨name, none⟩ :: ·) := by
  obtain ⟨ht, hd⟩ := span_name h (hr.stop (by decide))
  rw [readFilters]
  rw [if_pos rfl, ht]
  split
  · exact absurd rfl h.nonempty
  · split
    · rename_i s hs
      rw [hd] at hs
      rw [hs] at hr
      exact absurd (hr _ rfl) (by decide)
    · rw [hd]

theorem readFilters_argument {name r : Text} {a : Operand} (h : IsName name)
    (ha : a.WellFormed) (hr : StartsFilter r) :
      readFilters ('|' :: (name ++ ':' :: (a.toText ++ r))) =
        (readFilters r).map (⟨name, some a⟩ :: ·) := by
  have hcolon : ∀ c ∈ (':' :: (a.toText ++ r)).head?, isWordChar c = false := by
    intro c hc
    obtain rfl := Option.some.inj hc
    decide
  obtain ⟨ht, hd⟩ := span_name h hcolon
  rw [readFilters]
  rw [if_pos rfl, ht]
  -- The name ends at the colon, and the argument is read from behind it.
  split
  · exact absurd rfl h.nonempty
  · split
    · rename_i s hs
      rw [hd, List.cons.injEq] at hs
      have ho := readOperand_toText ha hr
      rw [hs.2] at ho
      split
      · rename_i e he
        rw [ho] at he
        exact absurd he (by simp)
      · rename_i a' t he
        rw [ho, Except.ok.injEq, Prod.mk.injEq] at he
        rw [← he.1, ← he.2]
    · rename_i hne
      exact absurd hd (hne _)

/-- Filters are read one after another. -/
theorem readFilters_toText {fs : List FilterCall} (h : ∀ f ∈ fs, f.WellFormed) :
    readFilters (fs.flatMap FilterCall.toText) = .ok fs := by
  induction fs with
  | nil =>
    rw [List.flatMap_nil, readFilters]
  | cons f fs ih =>
    have hf := h f (List.mem_cons_self ..)
    have hfs := ih fun g hg => h g (List.mem_cons_of_mem _ hg)
    -- What is written behind a filter starts with a bar or is empty, so it takes no part in
    -- it.
    have hr := startsFilter_flatMap fs
    rcases f with ⟨name, argument⟩
    rw [List.flatMap_cons]
    cases argument with
    | none =>
      show readFilters ('|' :: (name ++ fs.flatMap FilterCall.toText)) = _
      rw [readFilters_name hf.name hr, hfs]
      rfl
    | some a =>
      have he : FilterCall.toText ⟨name, some a⟩ ++ fs.flatMap FilterCall.toText =
          '|' :: (name ++ ':' :: (a.toText ++ fs.flatMap FilterCall.toText)) := by
        simp [FilterCall.toText]
      rw [he, readFilters_argument hf.name (hf.argument a rfl) hr, hfs]
      rfl

theorem not_startsFilter_operand {o : Operand} (h : o.WellFormed) (r : Text) :
    ¬ StartsFilter (o.toText ++ r) := by
  intro hs
  cases o with
  | literal l =>
    have hbar : l.quote.char = '|' := hs _ rfl
    cases hq : l.quote <;> rw [hq] at hbar <;> exact absurd hbar (by decide)
  | translation l =>
    have hbar : '_' = '|' := hs _ rfl
    exact absurd hbar (by decide)
  | «variable» name =>
    have hv : IsVariable name := h
    cases name with
    | nil => exact hv.nonempty rfl
    | cons c s =>
      obtain rfl : c = '|' := hs _ rfl
      rcases hv.chars with hw | ⟨sign, d, u, he, hsign, -, -⟩
      · exact absurd (hw _ (List.mem_cons_self ..)) (by decide)
      · rw [← (List.cons.inj he).1] at hsign
        exact absurd hsign (by decide)

theorem startsFilter_iff {s : Text} :
    StartsFilter s ↔ (s.isEmpty || s.head? == some '|') = true := by
  cases s <;> simp [StartsFilter]

namespace FilterExpression

theorem read_filters {s : Text} (h : StartsFilter s) :
    read s = (readFilters s).map (⟨none, ·⟩) := by
  rw [read, if_pos (startsFilter_iff.1 h)]

theorem read_operand {s r : Text} {v : Operand} (h : ¬ StartsFilter s)
    (hv : readOperand s = .ok (v, r)) : read s = (readFilters r).map (⟨some v, ·⟩) := by
  rw [read, if_neg (mt startsFilter_iff.2 h), hv]

/-- What is written is read again. -/
theorem parse_toText {e : FilterExpression} (h : e.WellFormed) : parse e.toText = .ok e := by
  have hfilters := readFilters_toText h.filters
  have hstart := startsFilter_flatMap e.filters
  rcases e with ⟨value, fs⟩
  rw [parse_eq_ok_iff]
  cases value with
  | none =>
    show read (fs.flatMap FilterCall.toText) = _
    rw [read_filters hstart, hfilters]
    rfl
  | some v =>
    have hv := h.value v rfl
    show read (v.toText ++ fs.flatMap FilterCall.toText) = _
    rw [read_operand (not_startsFilter_operand hv _) (readOperand_toText hv hstart), hfilters]
    rfl

theorem parse_iff {s : Text} {e : FilterExpression} :
    parse s = .ok e ↔ e.WellFormed ∧ e.toText = s := by
  constructor
  · exact fun h => ⟨wellFormed_of_parse h, toText_of_parse h⟩
  · rintro ⟨h, rfl⟩
    exact parse_toText h

end FilterExpression

/-! ### The grammar -/

namespace Grammar

open scoped Computability

/-- One character with the property `p`. -/
def one (p : Char → Prop) : Language Char := {s | ∃ c, p c ∧ s = [c]}

/-- What stands between two quotes `q`: any characters but the quote and the backslash, and
pairs of a backslash and a character that is no line feed. -/
def body (q : Char) : Language Char :=
  (one (fun c => c ≠ q ∧ c ≠ '\\') + {['\\']} * one (· ≠ '\n'))∗

def literal : Language Char :=
  {['"']} * body '"' * {['"']} + {['\'']} * body '\'' * {['\'']}

def name : Language Char := one (isWordChar · = true) * (one (isWordChar · = true))∗

/-- A run of word characters and points; a sign belongs to it in front of a decimal digit. -/
def bare : Language Char :=
  one (isVariableChar · = true) * (one (isVariableChar · = true))∗ +
    one (fun c => c = '-' ∨ c = '+') *
      (one (·.isDigit = true) * (one (isVariableChar · = true))∗)

def operand : Language Char := {translationOpener} * literal * {[')']} + literal + bare

def filter : Language Char := {['|']} * name * (1 + {[':']} * operand)

def expression : Language Char := (1 + operand) * filter∗

/-! ### The words of the grammar -/

variable {s : Text} {p : Char → Prop}

theorem mem_one_kstar_iff : s ∈ (one p)∗ ↔ ∀ c ∈ s, p c := by
  rw [Language.mem_kstar]
  constructor
  · rintro ⟨ls, rfl, hls⟩ c hc
    obtain ⟨l, hl, hcl⟩ := List.mem_flatten.1 hc
    obtain ⟨d, hd, rfl⟩ := hls l hl
    rwa [List.mem_singleton.1 hcl]
  · intro h
    refine ⟨s.map fun c => [c], ?_, ?_⟩
    · rw [← List.flatMap_def, List.flatMap_singleton']
    · intro l hl
      obtain ⟨c, hc, rfl⟩ := List.mem_map.1 hl
      exact ⟨c, h c hc, rfl⟩

theorem mem_run_iff : s ∈ one p * (one p)∗ ↔ s ≠ [] ∧ ∀ c ∈ s, p c := by
  rw [Language.mem_mul]
  constructor
  · rintro ⟨_, ⟨c, hc, rfl⟩, r, hr, rfl⟩
    refine ⟨by simp, ?_⟩
    intro d hd
    rcases List.mem_cons.1 hd with rfl | hd
    · exact hc
    · exact mem_one_kstar_iff.1 hr d hd
  · rintro ⟨hne, h⟩
    cases s with
    | nil => exact absurd rfl hne
    | cons c r =>
      refine ⟨[c], ⟨c, h c (List.mem_cons_self ..), rfl⟩, r, ?_, rfl⟩
      exact mem_one_kstar_iff.2 fun d hd => h d (List.mem_cons_of_mem _ hd)

theorem mem_body_iff {q : Char} : s ∈ body q ↔ Quoted q s := by
  constructor
  · intro h
    obtain ⟨ls, rfl, hls⟩ := Language.mem_kstar.1 h
    clear h
    induction ls with
    | nil => exact .nil
    | cons l ls ih =>
      have hrest := ih fun m hm => hls m (List.mem_cons_of_mem _ hm)
      rw [List.flatten_cons]
      rcases hls l (List.mem_cons_self ..) with ⟨c, hc, rfl⟩ | ⟨_, rfl, _, ⟨d, hd, rfl⟩, rfl⟩
      · exact .plain hc.1 hc.2 hrest
      · exact .escape hd hrest
  · intro h
    -- Each step of the derivation is one factor of the star.
    have hstep : ∀ l r, l ∈ (one (fun c => c ≠ q ∧ c ≠ '\\') + {['\\']} * one (· ≠ '\n')) →
        r ∈ body q → l ++ r ∈ body q := by
      intro l r hl hr
      obtain ⟨ls, rfl, hls⟩ := Language.mem_kstar.1 hr
      refine Language.mem_kstar.2 ⟨l :: ls, rfl, ?_⟩
      intro m hm
      rcases List.mem_cons.1 hm with rfl | hm
      · exact hl
      · exact hls m hm
    induction h with
    | nil => exact Language.nil_mem_kstar _
    | @plain c r hq hb _ ih => exact hstep [c] r (Or.inl ⟨c, ⟨hq, hb⟩, rfl⟩) ih
    | @escape d r hd _ ih =>
      exact hstep ['\\', d] r (Or.inr ⟨['\\'], rfl, [d], ⟨d, hd, rfl⟩, rfl⟩) ih

theorem mem_literal_iff : s ∈ literal ↔ ∃ l : Literal, l.Complete ∧ l.toText = s := by
  constructor
  · rintro (⟨_, ⟨_, rfl, b, hb, rfl⟩, _, rfl, rfl⟩ | ⟨_, ⟨_, rfl, b, hb, rfl⟩, _, rfl, rfl⟩)
    · exact ⟨⟨.double, b⟩, mem_body_iff.1 hb, rfl⟩
    · exact ⟨⟨.single, b⟩, mem_body_iff.1 hb, rfl⟩
  · rintro ⟨⟨q, b⟩, hl, rfl⟩
    cases q with
    | single => exact Or.inr ⟨_, ⟨_, rfl, b, mem_body_iff.2 hl, rfl⟩, _, rfl, rfl⟩
    | double => exact Or.inl ⟨_, ⟨_, rfl, b, mem_body_iff.2 hl, rfl⟩, _, rfl, rfl⟩

theorem mem_name_iff : s ∈ name ↔ IsName s := by
  rw [name, mem_run_iff]
  exact ⟨fun h => ⟨h.1, h.2⟩, fun h => ⟨h.nonempty, h.word⟩⟩

theorem mem_bare_iff : s ∈ bare ↔ IsVariable s := by
  rw [bare, Language.mem_add, mem_run_iff]
  constructor
  · rintro (⟨hne, h⟩ | ⟨_, ⟨sign, hsign, rfl⟩, _, ⟨_, ⟨d, hd, rfl⟩, r, hr, rfl⟩, rfl⟩)
    · exact ⟨hne, Or.inl h⟩
    · refine ⟨by simp, Or.inr ⟨sign, d, r, rfl, hsign, hd, ?_⟩⟩
      intro c hc
      rcases List.mem_cons.1 hc with rfl | hc
      · exact isVariableChar_of_isDigit hd
      · exact mem_one_kstar_iff.1 hr c hc
  · rintro ⟨hne, h | ⟨sign, d, r, rfl, hsign, hd, h⟩⟩
    · exact Or.inl ⟨hne, h⟩
    · refine Or.inr ⟨[sign], ⟨sign, hsign, rfl⟩, d :: r, ⟨[d], ⟨d, hd, rfl⟩, r, ?_, rfl⟩, rfl⟩
      exact mem_one_kstar_iff.2 fun c hc => h c (List.mem_cons_of_mem _ hc)

theorem mem_operand_iff : s ∈ operand ↔ ∃ o : Operand, o.WellFormed ∧ o.toText = s := by
  constructor
  · rintro ((⟨_, ⟨_, rfl, t, ht, rfl⟩, _, rfl, rfl⟩ | ht) | ht)
    · obtain ⟨l, hl, rfl⟩ := mem_literal_iff.1 ht
      exact ⟨.translation l, hl, rfl⟩
    · obtain ⟨l, hl, rfl⟩ := mem_literal_iff.1 ht
      exact ⟨.literal l, hl, rfl⟩
    · exact ⟨.variable s, mem_bare_iff.1 ht, rfl⟩
  · rintro ⟨o, ho, rfl⟩
    cases o with
    | literal l => exact Or.inl (Or.inr (mem_literal_iff.2 ⟨l, ho, rfl⟩))
    | translation l =>
      exact Or.inl (Or.inl ⟨_, ⟨_, rfl, _, mem_literal_iff.2 ⟨l, ho, rfl⟩, rfl⟩, _, rfl, rfl⟩)
    | «variable» name => exact Or.inr (mem_bare_iff.2 ho)

theorem mem_filter_iff : s ∈ filter ↔ ∃ f : FilterCall, f.WellFormed ∧ f.toText = s := by
  constructor
  · rintro ⟨_, ⟨_, rfl, n, hn, rfl⟩, _, rfl | ⟨_, rfl, t, ht, rfl⟩, rfl⟩
    · exact ⟨⟨n, none⟩, ⟨mem_name_iff.1 hn, by simp⟩, by simp [FilterCall.toText]⟩
    · obtain ⟨a, ha, rfl⟩ := mem_operand_iff.1 ht
      refine ⟨⟨n, some a⟩, ⟨mem_name_iff.1 hn, ?_⟩, by simp [FilterCall.toText]⟩
      intro a' ha'
      rwa [← Option.some.inj ha']
  · rintro ⟨⟨n, argument⟩, hf, rfl⟩
    cases argument with
    | none =>
      refine ⟨_, ⟨_, rfl, n, mem_name_iff.2 hf.name, rfl⟩, [], Or.inl rfl, ?_⟩
      simp [FilterCall.toText]
    | some a =>
      refine ⟨_, ⟨_, rfl, n, mem_name_iff.2 hf.name, rfl⟩, _,
        Or.inr ⟨_, rfl, _, mem_operand_iff.2 ⟨a, hf.argument a rfl, rfl⟩, rfl⟩, ?_⟩
      simp [FilterCall.toText]

theorem mem_filters_iff : s ∈ filter∗ ↔
    ∃ fs : List FilterCall, (∀ f ∈ fs, f.WellFormed) ∧ fs.flatMap FilterCall.toText = s := by
  rw [Language.mem_kstar]
  constructor
  · rintro ⟨ls, rfl, hls⟩
    induction ls with
    | nil => exact ⟨[], by simp, rfl⟩
    | cons l ls ih =>
      obtain ⟨fs, hfs, he⟩ := ih fun m hm => hls m (List.mem_cons_of_mem _ hm)
      obtain ⟨f, hf, rfl⟩ := mem_filter_iff.1 (hls l (List.mem_cons_self ..))
      refine ⟨f :: fs, ?_, by rw [List.flatMap_cons, he, List.flatten_cons]⟩
      intro g hg
      rcases List.mem_cons.1 hg with rfl | hg
      · exact hf
      · exact hfs g hg
  · rintro ⟨fs, hfs, rfl⟩
    refine ⟨fs.map FilterCall.toText, by rw [List.flatMap_def], ?_⟩
    intro l hl
    obtain ⟨f, hf, rfl⟩ := List.mem_map.1 hl
    exact mem_filter_iff.2 ⟨f, hfs f hf, rfl⟩

/-- The words of the grammar are the written forms of well-formed expressions. -/
theorem mem_expression_iff :
    s ∈ expression ↔ ∃ e : FilterExpression, e.WellFormed ∧ e.toText = s := by
  constructor
  · rintro ⟨_, rfl | hv, _, hfs, rfl⟩
    · obtain ⟨fs, hf, rfl⟩ := mem_filters_iff.1 hfs
      exact ⟨⟨none, fs⟩, ⟨by simp, hf⟩, rfl⟩
    · obtain ⟨v, hv, rfl⟩ := mem_operand_iff.1 hv
      obtain ⟨fs, hf, rfl⟩ := mem_filters_iff.1 hfs
      refine ⟨⟨some v, fs⟩, ⟨?_, hf⟩, rfl⟩
      intro v' hv'
      rwa [← Option.some.inj hv']
  · rintro ⟨⟨value, fs⟩, he, rfl⟩
    have hfs := mem_filters_iff.2 ⟨fs, he.filters, rfl⟩
    cases value with
    | none => exact ⟨[], Or.inl rfl, _, hfs, rfl⟩
    | some v => exact ⟨_, Or.inr (mem_operand_iff.2 ⟨v, he.value v rfl, rfl⟩), _, hfs, rfl⟩

end Grammar

/-! ### The main result -/

theorem Literal.parse?_iff {s : Text} {l : Literal} :
    parse? s = some l ↔ l.Complete ∧ l.toText = s := by
  rw [parse?_eq_some_iff, and_comm, eq_comm]

/-- **Reading and writing are inverse, and the grammar is what is read.** An expression is read
from exactly one text, the one it is written as; the words of the grammar, and no others, are
read, and each of them is the text of one well-formed expression only; a text is read as a
literal exactly if it is one. -/
theorem parse_iff_and_unambiguous :
    (∀ s e, FilterExpression.parse s = .ok e ↔ e.WellFormed ∧ e.toText = s) ∧
      (∀ s, s ∈ Grammar.expression ↔ ∃ e, FilterExpression.parse s = .ok e) ∧
      (∀ s, s ∈ Grammar.expression ↔ ∃! e : FilterExpression, e.WellFormed ∧ e.toText = s) ∧
      (∀ s l, Literal.parse? s = some l ↔ l.Complete ∧ l.toText = s) ∧
      ∀ s, s ∈ Grammar.literal ↔ ∃ l, Literal.parse? s = some l := by
  refine ⟨fun s e => FilterExpression.parse_iff, ?_, ?_, fun s l => Literal.parse?_iff, ?_⟩
  · intro s
    simp only [Grammar.mem_expression_iff, FilterExpression.parse_iff]
  · intro s
    rw [Grammar.mem_expression_iff]
    refine ⟨?_, fun h => h.exists⟩
    -- Two expressions with one text are both what is read from it.
    rintro ⟨e, he, rfl⟩
    refine ⟨e, ⟨he, rfl⟩, fun e' he' => ?_⟩
    have hread := FilterExpression.parse_iff.2 he'
    rw [FilterExpression.parse_toText he, Except.ok.injEq] at hread
    exact hread.symm
  · intro s
    simp only [Grammar.mem_literal_iff, Literal.parse?_iff]

end TemplateCatalog
