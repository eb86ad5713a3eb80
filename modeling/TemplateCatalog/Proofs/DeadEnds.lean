/-
Where filter expressions stop making sense.

A text is viable if it can be completed to an expression (`Viable`). The main result,
`error_at_dead_end`, says that the error of an expression lies at a dead end: what was read in
front of it is viable, and with the next character it is viable no longer. Two errors look
farther ahead than one character, and are told apart: a literal that is never closed, and a
sign without its digit (`LoneSign`).

The readers are deterministic and look one character beyond what they take (`LooksOneAhead`).
So a dead end of what follows is a dead end of the whole: `DeadEnd.behind` carries it over a
part that was read, and the errors of each reader are then dead ends by the ways in which it
stops.
-/
import TemplateCatalog.Proofs.ExpressionGrammar
import TemplateCatalog.Proofs.FragmentRule
import TemplateCatalog.Proofs.ReportedOffsets
import TemplateCatalog.Proofs.SlicedExpressions

namespace TemplateCatalog

open Text

/-! ### Dead ends -/

/-- The text can be completed to an expression. -/
def Viable (s : Text) : Prop := ∃ w e, FilterExpression.parse (s ++ w) = .ok e

/-- A sign stands in front, and no decimal digit behind it. -/
def LoneSign (s : Text) : Prop :=
  ∃ c r, s = c :: r ∧ (c = '-' ∨ c = '+') ∧ ∀ d ∈ r.head?, d.isDigit = false

/-- Reading `s` stopped behind `front`: this is in front of accepted texts, and of none that
goes on with the next character of `s`. -/
structure DeadEnd (Accepted : Text → Prop) (s front : Text) (stop : FilterStop) : Prop where
  split : s = front ++ stop.rest
  viable : ∃ w, Accepted (front ++ w)
  input : ∀ input, stop.fault = .unexpectedInput input → stop.rest ≠ []
  unclosed : stop.fault = .unclosedLiteral → OpensQuote stop.rest
  blocked : stop.fault ≠ .unclosedLiteral → ¬LoneSign stop.rest →
    ∀ c ∈ stop.rest.head?, ∀ w, ¬Accepted (front ++ c :: w)

/-- A dead end of what follows is a dead end of the whole, if the part in front is read in the
same way before every text that starts with the same character. -/
theorem DeadEnd.behind {Accepted Accepted' : Text → Prop} {t u : Text} {stop : FilterStop}
    (h : DeadEnd Accepted' t u stop) (p : Text) (hgo : ∀ x, Accepted' x → Accepted (p ++ x))
    (hback : ∀ x : Text, x.head? = t.head? → Accepted (p ++ x) → Accepted' x) :
    DeadEnd Accepted (p ++ t) (p ++ u) stop where
  split := by rw [h.split, List.append_assoc]
  viable := by
    obtain ⟨w, hw⟩ := h.viable
    exact ⟨w, by rw [List.append_assoc]; exact hgo _ hw⟩
  input := h.input
  unclosed := h.unclosed
  blocked := by
    intro hf hs c hc w hw
    rw [List.append_assoc] at hw
    refine h.blocked hf hs c hc w (hback _ ?_ hw)
    rw [h.split, List.head?_append, List.head?_append, List.head?_cons, Option.mem_def.1 hc]

/-! ### Looking ahead -/

/-- The filters are read to the end. -/
def AcceptsFilters (s : Text) : Prop := ∃ fs, readFilters s = .ok fs

variable {α : Type} {s t x : Text} {stop : FilterStop}

/-- The reader takes its part off the front, and the filters behind it are read to the end. -/
def ThenFilters (R : Text → Except FilterStop (α × Text)) (s : Text) : Prop :=
  ∃ a r, R s = .ok (a, r) ∧ AcceptsFilters r

/-- The reader takes the same part off every text that goes on with the same character, or with
a filter. -/
def LooksOneAhead (R : Text → Except FilterStop (α × Text)) : Prop :=
  ∀ {s a t}, R s = .ok (a, t) →
    ∃ p, s = p ++ t ∧ ∀ x : Text, StartsFilter x ∨ x.head? = t.head? → R (p ++ x) = .ok (a, x)

theorem AcceptsFilters.startsFilter (h : AcceptsFilters s) : StartsFilter s := by
  obtain ⟨fs, hfs⟩ := h
  rw [readFilters_eq hfs]
  exact startsFilter_flatMap fs

/-- A dead end of the filters behind what was read is one of the whole. -/
theorem LooksOneAhead.deadEnd {R : Text → Except FilterStop (α × Text)} (hR : LooksOneAhead R)
    {a : α} (h : R s = .ok (a, t)) {front : Text} (hd : DeadEnd AcceptsFilters t front stop) :
    ∃ front, DeadEnd (ThenFilters R) s front stop := by
  obtain ⟨p, rfl, hp⟩ := hR h
  refine ⟨_, hd.behind p ?_ ?_⟩
  · exact fun x hx => ⟨a, x, hp x (Or.inl hx.startsFilter), hx⟩
  · rintro x hx ⟨a', r, hr, hfs⟩
    rw [hp x (Or.inr hx), Except.ok.injEq, Prod.mk.injEq] at hr
    rwa [hr.2]

/-! ### Operands -/

theorem head?_takeVariable (s : Text) :
    ∀ c ∈ (takeVariable s).2.head?, isVariableChar c = false := by
  fun_cases takeVariable s with
  | case1 => exact head?_dropWhile _ _
  | case2 => exact head?_dropWhile _ _
  | case3 => exact head?_dropWhile _ _

theorem takeVariable_of_readPlainOperand {name : Text}
    (h : readPlainOperand s = .ok (.variable name, t)) : takeVariable s = (name, t) := by
  rw [readPlainOperand] at h
  split at h
  · split at h
    · exact absurd h (by simp)
    · exact absurd h (by simp)
  · split at h
    · exact absurd h (by simp)
    · exact absurd h (by simp)
    · rename_i name' r _ hread
      rw [Except.ok.injEq, Prod.mk.injEq, Operand.variable.injEq] at h
      rw [hread, h.1, h.2]

theorem readTranslation_ne_variable {name : Text} :
    readTranslation s ≠ .ok (.variable name, t) := by
  intro h
  rw [readTranslation] at h
  split at h
  · split at h
    · exact absurd h (by simp)
    · exact absurd h (by simp)
    · exact absurd h (by simp)
  · exact absurd h (by simp)

/-- Only the character behind a variable decides where it ends. -/
theorem readOperand_variable {name : Text} (h : readOperand s = .ok (.variable name, t))
    (hx : x.head? = t.head?) : readOperand (name ++ x) = .ok (.variable name, x) := by
  have hname : IsVariable name := wellFormed_of_readOperand h
  have hs : s = name ++ t := readOperand_append h
  have hplain : ¬translationOpener <+: s := by
    rintro ⟨r, rfl⟩
    exact readTranslation_ne_variable h
  have hstop : ∀ c ∈ x.head?, isVariableChar c = false := by
    rw [readOperand_plain hplain] at h
    have hend := head?_takeVariable s
    rw [takeVariable_of_readPlainOperand h] at hend
    rwa [hx]
  -- Of what follows the name, the opener would take one character at most.
  have hplain' : ¬translationOpener <+: name ++ x := by
    cases name with
    | nil => exact absurd rfl hname.nonempty
    | cons c name =>
      have hhead : (name ++ x).head? = (name ++ t).head? := by
        rw [List.head?_append, List.head?_append, hx]
      rw [hs] at hplain
      rintro ⟨u, hu⟩
      obtain ⟨hc, hu⟩ : '_' = c ∧ '(' :: u = name ++ x := List.cons.inj hu
      have hbracket : (name ++ t).head? = some '(' := by rw [← hhead, ← hu, List.head?_cons]
      obtain ⟨r, hr⟩ := List.head?_eq_some_iff.1 hbracket
      exact hplain ⟨r, by rw [List.cons_append, hr, ← hc]; rfl⟩
  rw [readOperand_plain hplain']
  exact readPlainOperand_variable hname hstop

theorem looksOneAhead_readOperand : LooksOneAhead readOperand := by
  intro s o t h
  have ho := wellFormed_of_readOperand h
  refine ⟨o.toText, readOperand_append h, ?_⟩
  rintro x (hx | hx)
  · exact readOperand_toText ho hx
  · cases o with
    | literal l =>
      rw [Operand.toText, readOperand_plain (not_opener_prefix_literal l x)]
      exact readPlainOperand_literal ho x
    | translation l =>
      have hr := readTranslation_literal ho x
      rw [Operand.toText, List.append_assoc, List.append_assoc]
      exact hr
    | «variable» name => exact readOperand_variable h hx

/-- No operand starts with a character that is neither a quote nor a sign nor part of a
variable. -/
theorem readOperand_eq_error {c : Char} (hq : isQuote c = false)
    (hv : isVariableChar c = false) (hs : ¬(c = '-' ∨ c = '+')) (w : Text) :
    readOperand (c :: w) = .error ⟨.unexpectedInput (c :: w), c :: w⟩ := by
  have hplain : ¬translationOpener <+: c :: w := by
    rintro ⟨r, hr⟩
    rw [← (List.cons.inj hr).1] at hv
    exact absurd hv (by decide)
  have hquote : ¬startsWithQuote (c :: w) = true := by simp [startsWithQuote, hq]
  rw [readOperand_plain hplain, readPlainOperand, if_neg hquote, takeVariable_of_not_sign hs,
    List.takeWhile_cons_of_neg (by simp [hv]), List.dropWhile_cons_of_neg (by simp [hv])]

/-- If no variable starts with a character, then this is a sign without its digit, or no
sign. -/
theorem loneSign_of_takeVariable {c : Char} {r : Text} (h : (takeVariable (c :: r)).1 = [])
    (hc : c = '-' ∨ c = '+') : LoneSign (c :: r) := by
  refine ⟨c, r, rfl, hc, ?_⟩
  intro d hd
  obtain ⟨u, rfl⟩ := List.head?_eq_some_iff.1 hd
  by_contra hdigit
  rw [takeVariable, if_pos ⟨hc, by simpa using hdigit⟩] at h
  exact absurd h (by simp)

theorem complete_empty : Literal.Complete ⟨.double, []⟩ := .nil

theorem acceptsFilters_nil : AcceptsFilters [] := ⟨[], by rw [readFilters]⟩

theorem thenFilters_operand {o : Operand} (h : o.WellFormed) :
    ThenFilters readOperand o.toText := by
  refine ⟨o, [], ?_, acceptsFilters_nil⟩
  have hread := readOperand_toText h (r := []) (by simp [StartsFilter])
  rwa [List.append_nil] at hread

theorem deadEnd_readTranslation (h : readTranslation s = .error stop) :
    ∃ front, DeadEnd (ThenFilters readTranslation) s front stop := by
  have hviable : ∃ w, ThenFilters readTranslation w :=
    ⟨_, _, [], readTranslation_literal complete_empty [], acceptsFilters_nil⟩
  rw [readTranslation] at h
  split at h
  · rename_i hquote
    split at h
    · rename_i hnone
      obtain rfl := Except.error.inj h
      exact ⟨[], rfl, hviable, by simp, fun _ => opensQuote_of_take? hquote hnone, by simp⟩
    · exact absurd h (by simp)
    · -- The literal is followed by another character than the bracket.
      rename_i l r hbracket hread
      obtain rfl := Except.error.inj h
      obtain ⟨rfl, hl⟩ := Literal.take?_eq_some_iff.1 hread
      refine ⟨l.toText, rfl,
        ⟨[')'], _, [], readTranslation_literal hl [], acceptsFilters_nil⟩, by simp, by simp,
        ?_⟩
      rintro - - c hc w ⟨o, t, ho, -⟩
      have hquote' : startsWithQuote (l.toText ++ c :: w) = true := hquote
      rw [readTranslation, if_pos hquote', Literal.take?_toText_append hl] at ho
      obtain ⟨u, rfl⟩ := List.head?_eq_some_iff.1 hc
      split at ho
      · exact absurd ho (by simp)
      · rename_i hl'
        obtain ⟨rfl, -⟩ := List.cons.inj (Prod.mk.inj (Option.some.inj hl')).2
        exact hbracket u rfl
      · exact absurd ho (by simp)
  · rename_i hquote
    obtain rfl := Except.error.inj h
    refine ⟨[], rfl, hviable, by simp, by simp, ?_⟩
    rintro - - c hc w ⟨o, t, ho, -⟩
    obtain ⟨u, rfl⟩ := List.head?_eq_some_iff.1 hc
    have hquote' : ¬startsWithQuote (c :: w) = true := hquote
    rw [List.nil_append, readTranslation, if_neg hquote'] at ho
    exact absurd ho (by simp)

theorem deadEnd_readPlainOperand (hplain : ¬translationOpener <+: s)
    (h : readPlainOperand s = .error stop) : ∃ front,
    DeadEnd (ThenFilters readOperand) s front stop := by
  have hviable : ∃ w, ThenFilters readOperand w :=
    ⟨_, thenFilters_operand (o := .literal _) complete_empty⟩
  rw [readPlainOperand] at h
  split at h
  · rename_i hquote
    -- A quote without a literal behind it: any literal would go on from here.
    split at h
    · rename_i hnone
      obtain rfl := Except.error.inj h
      exact ⟨[], rfl, hviable, by simp, fun _ => opensQuote_of_take? hquote hnone, by simp⟩
    · exact absurd h (by simp)
  · rename_i hquote
    -- A variable was asked for, and the text holds none: it is empty, or starts with another
    -- character.
    have happend := takeVariable_append s
    have hstop := head?_takeVariable s
    split at h
    · rename_i htake
      obtain rfl := Except.error.inj h
      rw [htake] at happend
      exact ⟨[], happend.symm, hviable, by simp, by simp, by simp⟩
    · rename_i r hne htake
      obtain rfl := Except.error.inj h
      rw [htake] at happend hstop
      obtain rfl : r = s := happend
      refine ⟨[], rfl, hviable, fun _ _ hr => hne hr, by simp, ?_⟩
      rintro - hsign c hc w ⟨o, t, ho, -⟩
      obtain ⟨u, rfl⟩ := List.head?_eq_some_iff.1 hc
      have hq : isQuote c = false := by simpa [startsWithQuote] using hquote
      have hs : ¬(c = '-' ∨ c = '+') :=
        fun hs => hsign (loneSign_of_takeVariable (by rw [htake]) hs)
      rw [List.nil_append, readOperand_eq_error hq (hstop c rfl) hs] at ho
      exact absurd ho (by simp)
    · exact absurd h (by simp)

theorem deadEnd_readOperand (h : readOperand s = .error stop) :
    ∃ front, DeadEnd (ThenFilters readOperand) s front stop := by
  by_cases hplain : translationOpener <+: s
  · obtain ⟨r, rfl⟩ := hplain
    obtain ⟨front, hd⟩ := deadEnd_readTranslation (s := r) h
    exact ⟨_, hd.behind translationOpener (fun x hx => hx) (fun x _ hx => hx)⟩
  · rw [readOperand_plain hplain] at h
    exact deadEnd_readPlainOperand hplain h

/-! ### Filters -/

open Sliced (readFilter readFilters_bar)

theorem readFilter_name {name : Text} (hn : IsName name)
    (hx : ∀ c ∈ x.head?, isWordChar c = false ∧ c ≠ ':') :
    readFilter (name ++ x) = .ok (⟨name, none⟩, x) := by
  obtain ⟨htake, hdrop⟩ := span_name hn fun c hc => (hx c hc).1
  rw [readFilter, htake, hdrop]
  split
  · exact absurd rfl hn.nonempty
  · split
    · exact absurd rfl (hx _ rfl).2
    · rfl

theorem readFilter_colon {name : Text} (hn : IsName name) (x : Text) :
    readFilter (name ++ ':' :: x) =
      (readOperand x).map fun (a, r) => (⟨name, some a⟩, r) := by
  have hcolon : ∀ c ∈ (':' :: x).head?, isWordChar c = false := by
    intro c hc
    obtain rfl := Option.some.inj hc
    decide
  obtain ⟨htake, hdrop⟩ := span_name hn hcolon
  rw [readFilter, htake, hdrop]
  split
  · exact absurd rfl hn.nonempty
  · simp only
    cases readOperand x <;> rfl

/-- Behind a bar stands no name, or a name and its argument, or a name alone. -/
theorem name_cases (s : Text) : s.takeWhile isWordChar = [] ∨
    ∃ name t, IsName name ∧ (s = name ++ ':' :: t ∨
      s = name ++ t ∧ ∀ c ∈ t.head?, isWordChar c = false ∧ c ≠ ':') := by
  by_cases hname : s.takeWhile isWordChar = []
  · exact Or.inl hname
  · have happend := List.takeWhile_append_dropWhile (p := isWordChar) (l := s)
    have hstop := head?_dropWhile isWordChar s
    refine Or.inr ?_
    by_cases hcolon : (s.dropWhile isWordChar).head? = some ':'
    · obtain ⟨t, ht⟩ := List.head?_eq_some_iff.1 hcolon
      rw [ht] at happend
      exact ⟨_, t, isName_takeWhile hname, Or.inl happend.symm⟩
    · refine ⟨_, _, isName_takeWhile hname,
        Or.inr ⟨happend.symm, fun c hc => ⟨hstop c hc, ?_⟩⟩⟩
      rintro rfl
      exact hcolon hc

theorem readFilter_eq_error (hs : s.takeWhile isWordChar = []) :
    readFilter s = .error ⟨.missingFilterName, s⟩ := by
  rw [readFilter, hs]

theorem looksOneAhead_readFilter : LooksOneAhead readFilter := by
  intro s f t h
  rcases name_cases s with hnone | ⟨name, u, hn, rfl | ⟨rfl, hstop⟩⟩
  · rw [readFilter_eq_error hnone] at h
    exact absurd h (by simp)
  · rw [readFilter_colon hn] at h
    obtain ⟨⟨a, r⟩, ha, hf⟩ := eq_ok_of_map h
    obtain ⟨rfl, rfl⟩ := Prod.mk.inj hf
    obtain ⟨p, rfl, hp⟩ := looksOneAhead_readOperand ha
    refine ⟨name ++ ':' :: p, by simp, fun x hx => ?_⟩
    rw [List.append_assoc, List.cons_append, readFilter_colon hn, hp x hx]
    rfl
  · rw [readFilter_name hn hstop] at h
    obtain ⟨rfl, rfl⟩ := Prod.mk.inj (Except.ok.inj h)
    refine ⟨name, rfl, fun x hx => readFilter_name hn fun c hc => ?_⟩
    rcases hx with hx | hx
    · rw [hx c hc]
      decide
    · exact hstop c (hx ▸ hc)

theorem thenFilters_colon_iff {name : Text} (hn : IsName name) :
    ThenFilters readFilter (name ++ [':'] ++ x) ↔ ThenFilters readOperand x := by
  have hread := readFilter_colon hn x
  rw [← List.singleton_append, ← List.append_assoc] at hread
  constructor
  · rintro ⟨f, r, hf, hr⟩
    rw [hread] at hf
    obtain ⟨⟨a, t⟩, ha, he⟩ := eq_ok_of_map hf
    obtain ⟨-, rfl⟩ := Prod.mk.inj he
    exact ⟨a, t, ha, hr⟩
  · rintro ⟨a, r, ha, hr⟩
    exact ⟨_, r, by rw [hread, ha]; rfl, hr⟩

theorem deadEnd_readFilter (h : readFilter s = .error stop) :
    ∃ front, DeadEnd (ThenFilters readFilter) s front stop := by
  rcases name_cases s with hnone | ⟨name, u, hn, rfl | ⟨rfl, hstop⟩⟩
  · -- Without a name nothing of the text counts, and any word would have gone on.
    rw [readFilter_eq_error hnone] at h
    obtain rfl := Except.error.inj h
    have hn : IsName ['a'] := ⟨List.cons_ne_nil _ _, fun c hc => List.mem_singleton.1 hc ▸ rfl⟩
    refine ⟨[], rfl, ⟨['a'], _, [], readFilter_name hn (by simp), acceptsFilters_nil⟩, by simp,
      by simp, ?_⟩
    rintro - - c hc w ⟨f, r, hf, -⟩
    obtain ⟨u, rfl⟩ := List.head?_eq_some_iff.1 hc
    have hword : (c :: w).takeWhile isWordChar = [] := by
      rw [List.takeWhile_eq_nil_iff] at hnone ⊢
      simpa using hnone
    rw [List.nil_append, readFilter_eq_error hword] at hf
    exact absurd hf (by simp)
  · -- Behind a colon the dead end is that of the argument.
    rw [readFilter_colon hn] at h
    obtain ⟨front, hd⟩ := deadEnd_readOperand (error_of_map_eq_error h)
    have hall := hd.behind (name ++ [':']) (fun x => (thenFilters_colon_iff hn).2)
      (fun x _ => (thenFilters_colon_iff hn).1)
    rw [List.append_assoc, List.singleton_append] at hall
    exact ⟨_, hall⟩
  · rw [readFilter_name hn hstop] at h
    exact absurd h (by simp)

theorem acceptsFilters_bar_iff : AcceptsFilters (['|'] ++ x) ↔ ThenFilters readFilter x := by
  rw [AcceptsFilters, List.singleton_append, readFilters_bar]
  constructor
  · rintro ⟨fs, h⟩
    split at h
    · exact absurd h (by simp)
    · rename_i f r hf
      obtain ⟨gs, hgs, -⟩ := eq_ok_of_map h
      exact ⟨f, r, hf, gs, hgs⟩
  · rintro ⟨f, r, hf, gs, hgs⟩
    rw [hf]
    exact ⟨f :: gs, by simp only [hgs, Except.map]⟩

/-- By induction on the length: an error lies in the first filter, or in those behind it. -/
theorem deadEnd_readFilters (h : readFilters s = .error stop) :
    ∃ front, DeadEnd AcceptsFilters s front stop := by
  induction hn : s.length using Nat.strong_induction_on generalizing s with
  | _ n ih =>
    cases s with
    | nil => exact absurd h (by simp [readFilters])
    | cons c r =>
      by_cases hc : c = '|'
      · subst hc
        -- The dead end is in this filter, or in one of the filters behind it.
        have hbar : ∃ front, DeadEnd (ThenFilters readFilter) r front stop := by
          rw [readFilters_bar] at h
          split at h
          · rename_i hf
            obtain rfl := Except.error.inj h
            exact deadEnd_readFilter hf
          · rename_i f t hf
            have hlen := (Sliced.suffix_of_readFilter hf).length_le
            obtain ⟨front, hd⟩ := ih t.length (by rw [← hn, List.length_cons]; omega)
              (error_of_map_eq_error h) rfl
            exact looksOneAhead_readFilter.deadEnd hf hd
        obtain ⟨front, hd⟩ := hbar
        exact ⟨_, hd.behind ['|'] (fun x => acceptsFilters_bar_iff.2)
          (fun x _ => acceptsFilters_bar_iff.1)⟩
      · -- Whatever goes on with this character does not start with a bar.
        rw [readFilters, if_neg hc] at h
        obtain rfl := Except.error.inj h
        refine ⟨[], rfl, ⟨[], acceptsFilters_nil⟩, by simp, by simp, ?_⟩
        rintro - - d hd w hw
        rw [← Option.some.inj hd] at hw
        exact hc (hw.startsFilter c rfl)

/-! ### Expressions -/

/-- The text is an expression. -/
def AcceptsExpression (s : Text) : Prop := ∃ e, FilterExpression.read s = .ok e

theorem acceptsExpression_filters_iff (hs : StartsFilter s) :
    AcceptsExpression s ↔ AcceptsFilters s := by
  rw [AcceptsExpression, FilterExpression.read_filters hs]
  constructor
  · rintro ⟨e, h⟩
    obtain ⟨fs, hfs, -⟩ := eq_ok_of_map h
    exact ⟨fs, hfs⟩
  · rintro ⟨fs, hfs⟩
    exact ⟨⟨none, fs⟩, by rw [hfs]; rfl⟩

theorem acceptsExpression_operand_iff (hs : ¬StartsFilter s) :
    AcceptsExpression s ↔ ThenFilters readOperand s := by
  constructor
  · rintro ⟨e, h⟩
    rcases read_cases h with ⟨fs, hfs, -⟩ | ⟨v, r, fs, hv, hfs, -⟩
    · exact absurd (AcceptsFilters.startsFilter ⟨fs, hfs⟩) hs
    · exact ⟨v, r, hv, fs, hfs⟩
  · rintro ⟨v, r, hv, fs, hfs⟩
    exact ⟨⟨some v, fs⟩, by rw [FilterExpression.read_operand hs hv, hfs]; rfl⟩

theorem ThenFilters.not_startsFilter (h : ThenFilters readOperand s) : ¬StartsFilter s := by
  obtain ⟨o, r, ho, -⟩ := h
  rw [readOperand_append ho]
  exact not_startsFilter_operand (wellFormed_of_readOperand ho) r

theorem startsFilter_congr (h : x.head? = s.head?) : StartsFilter x ↔ StartsFilter s := by
  rw [StartsFilter, StartsFilter, h]

theorem deadEnd_read (h : FilterExpression.read s = .error stop) :
    ∃ front, DeadEnd AcceptsExpression s front stop := by
  by_cases hs : StartsFilter s
  · rw [FilterExpression.read_filters hs] at h
    obtain ⟨front, hd⟩ := deadEnd_readFilters (error_of_map_eq_error h)
    refine ⟨_, hd.behind [] ?_ ?_⟩
    · exact fun x hx => (acceptsExpression_filters_iff hx.startsFilter).2 hx
    · exact fun x hx => (acceptsExpression_filters_iff ((startsFilter_congr hx).2 hs)).1
  · -- The dead end is in the operand, or in the filters behind it; reading looks one character
    -- ahead, so it is one for both together.
    have hoperand : ∃ front, DeadEnd (ThenFilters readOperand) s front stop := by
      cases hread : readOperand s with
      | error e =>
        rw [FilterExpression.read, if_neg (mt startsFilter_iff.2 hs), hread] at h
        obtain rfl := Except.error.inj h
        exact deadEnd_readOperand hread
      | ok p =>
        rw [FilterExpression.read_operand hs hread] at h
        obtain ⟨front, hd⟩ := deadEnd_readFilters (error_of_map_eq_error h)
        exact looksOneAhead_readOperand.deadEnd hread hd
    obtain ⟨front, hd⟩ := hoperand
    refine ⟨_, hd.behind [] ?_ ?_⟩
    · exact fun x hx => (acceptsExpression_operand_iff hx.not_startsFilter).2 hx
    · exact fun x hx => (acceptsExpression_operand_iff (mt (startsFilter_congr hx).1 hs)).1

theorem viable_iff : Viable s ↔ ∃ w, AcceptsExpression (s ++ w) := by
  simp only [Viable, AcceptsExpression, parse_eq_ok_iff]

/-- **Errors lie at dead ends.** What stands in front of an error can be completed, and what
unexpected input quotes is all that follows. Unless a literal is never closed there, or a sign
has no digit, no text that goes on with the next character can be completed. -/
theorem error_at_dead_end {e : FilterError} (h : FilterExpression.parse s = .error e) :
    ∃ front rest, s = front ++ rest ∧ e.position = byteSize front ∧ Viable front ∧
      (∀ input, e.fault = .unexpectedInput input → input = rest ∧ rest ≠ []) ∧
      (e.fault = .unclosedLiteral → OpensQuote rest) ∧
      (e.fault ≠ .unclosedLiteral → ¬LoneSign rest →
        ∀ c ∈ rest.head?, ¬Viable (front ++ [c])) := by
  rw [FilterExpression.parse] at h
  split at h
  · exact absurd h (by simp)
  · rename_i stop hstop
    obtain rfl := Except.error.inj h
    obtain ⟨front, hd⟩ := deadEnd_read hstop
    refine ⟨front, stop.rest, hd.split, ?_, viable_iff.2 hd.viable, ?_, hd.unclosed, ?_⟩
    · show byteSize s - byteSize stop.rest = byteSize front
      rw [hd.split, byteSize_append, Nat.add_sub_cancel]
    · exact fun input hinput =>
        ⟨((isIn_of_read hstop).input input hinput).symm, hd.input input hinput⟩
    · intro hf hsign c hc hv
      obtain ⟨w, hw⟩ := viable_iff.1 hv
      rw [List.append_assoc] at hw
      exact hd.blocked hf hsign c hc w hw

/-- In `_('a']` the bracket is missing: the error lies behind the literal, and `]` cannot
follow. -/
theorem error_at_dead_end_unclosedTranslation :
    FilterExpression.parse "_('a']".toList = .error ⟨5, .unclosedTranslation⟩ ∧
      Viable "_('a'".toList ∧ ¬Viable "_('a']".toList := by
  have hparse : FilterExpression.parse "_('a']".toList = .error ⟨5, .unclosedTranslation⟩ := by
    decide +kernel
  obtain ⟨front, rest, hs, hsize, hviable, -, -, hblocked⟩ := error_at_dead_end hparse
  -- The byte tells where the text is parted.
  have hat : At "_('a']".toList 5 [']'] := ⟨"_('a'".toList, rfl, rfl⟩
  obtain rfl := hat.unique ⟨front, hs, hsize.symm⟩
  have hfront : "_('a'".toList ++ [']'] = front ++ [']'] := hs
  obtain rfl := List.append_cancel_right hfront
  refine ⟨hparse, hviable, hblocked (by simp) ?_ ']' rfl⟩
  rintro ⟨c, r, hc, hsign, -⟩
  rw [← (List.cons.inj hc).1] at hsign
  exact absurd hsign (by decide)

end TemplateCatalog
