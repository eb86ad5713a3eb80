/-
Reading filter expressions.

Each reader takes its part off the front of the text and returns the rest, or stops with a
fault and the text from the fault on. `FilterExpression.parse` reads a whole text; the position
of an error is the size of what was read before it.

* `readOperand_append`, `readFilters_eq`: what is read is what was written;
* `FilterExpression.toText_of_parse`: an accepted text is the written form of its expression.
-/
import TemplateCatalog.Template.FilterExpression

namespace TemplateCatalog

open Text

/-- A fault and the text from the fault on. -/
structure FilterStop where
  fault : FilterFault
  rest : Text
  deriving DecidableEq, Repr

/-- Word characters and points. -/
def isVariableChar (c : Char) : Bool := isWordChar c || c == '.'

/-- The variable or number in front of a text, and the rest. A sign belongs to it if a decimal
digit follows. -/
def takeVariable : Text → Text × Text
  | c :: d :: r =>
    if (c = '-' ∨ c = '+') ∧ d.isDigit then
      (c :: (d :: r).takeWhile isVariableChar, (d :: r).dropWhile isVariableChar)
    else ((c :: d :: r).takeWhile isVariableChar, (c :: d :: r).dropWhile isVariableChar)
  | s => (s.takeWhile isVariableChar, s.dropWhile isVariableChar)

theorem takeVariable_append (s : Text) : (takeVariable s).1 ++ (takeVariable s).2 = s := by
  fun_cases takeVariable s <;> simp [List.takeWhile_append_dropWhile]

/-- Reads what follows `_(`. -/
def readTranslation (s : Text) : Except FilterStop (Operand × Text) :=
  if startsWithQuote s then
    match Literal.take? s with
    | none => .error ⟨.unclosedLiteral, s⟩
    | some (l, ')' :: r) => .ok (.translation l, r)
    | some (_, r) => .error ⟨.unclosedTranslation, r⟩
  else .error ⟨.translationWithoutLiteral, s⟩

/-- Reads one operand that is no translation. -/
def readPlainOperand (s : Text) : Except FilterStop (Operand × Text) :=
  if startsWithQuote s then
    match Literal.take? s with
    | none => .error ⟨.unclosedLiteral, s⟩
    | some (l, r) => .ok (.literal l, r)
  else
    match takeVariable s with
    | ([], []) => .error ⟨.missingFilterArgument, []⟩
    | ([], r) => .error ⟨.unexpectedInput r, r⟩
    | (name, r) => .ok (.variable name, r)

/-- Reads one operand. -/
def readOperand : Text → Except FilterStop (Operand × Text)
  | '_' :: '(' :: r => readTranslation r
  | s => readPlainOperand s

theorem readTranslation_append {s r : Text} {o : Operand}
    (h : readTranslation s = .ok (o, r)) : translationOpener ++ s = o.toText ++ r := by
  unfold readTranslation at h
  split at h
  · split at h
    · simp at h
    · rename_i l r' hl
      simp only [Except.ok.injEq, Prod.mk.injEq] at h
      obtain ⟨rfl, rfl⟩ := h
      simp [Operand.toText, Literal.take?_eq_some hl]
    · simp at h
  · simp at h

theorem readPlainOperand_append {s r : Text} {o : Operand}
    (h : readPlainOperand s = .ok (o, r)) : s = o.toText ++ r := by
  unfold readPlainOperand at h
  split at h
  · split at h
    · simp at h
    · rename_i l r' hl
      simp only [Except.ok.injEq, Prod.mk.injEq] at h
      obtain ⟨rfl, rfl⟩ := h
      simpa [Operand.toText] using Literal.take?_eq_some hl
  · have hv := takeVariable_append s
    split at h
    · simp at h
    · simp at h
    · rename_i name r' _ hn
      rw [hn] at hv
      simp only [Except.ok.injEq, Prod.mk.injEq] at h
      obtain ⟨rfl, rfl⟩ := h
      simpa [Operand.toText] using hv.symm

/-- An operand that is read is what was written. -/
theorem readOperand_append {s r : Text} {o : Operand} (h : readOperand s = .ok (o, r)) :
    s = o.toText ++ r := by
  unfold readOperand at h
  split at h
  · simpa [translationOpener] using readTranslation_append h
  · exact readPlainOperand_append h

theorem readOperand_length {s r : Text} {o : Operand} (h : readOperand s = .ok (o, r)) :
    r.length ≤ s.length := by
  have := congrArg List.length (readOperand_append h)
  simp only [List.length_append] at this
  omega

/-- Reads filters up to the end of the text. -/
def readFilters : Text → Except FilterStop (List FilterCall)
  | [] => .ok []
  | c :: r =>
    if c = '|' then
      match r.takeWhile isWordChar with
      | [] => .error ⟨.missingFilterName, r⟩
      | name =>
        match _hr : r.dropWhile isWordChar with
        | ':' :: s =>
          match _hs : readOperand s with
          | .error e => .error e
          | .ok (a, t) => (readFilters t).map (⟨name, some a⟩ :: ·)
        | s => (readFilters s).map (⟨name, none⟩ :: ·)
    else .error ⟨.unexpectedInput (c :: r), c :: r⟩
termination_by s => s.length
decreasing_by
  · have h1 := readOperand_length _hs
    have h2 : (r.dropWhile isWordChar).length ≤ r.length :=
      (List.dropWhile_suffix isWordChar).length_le
    rw [_hr] at h2
    simp only [List.length_cons] at h2 ⊢
    omega
  · have h2 : (r.dropWhile isWordChar).length ≤ r.length :=
      (List.dropWhile_suffix isWordChar).length_le
    rw [_hr] at h2
    simp only [List.length_cons]
    omega

theorem eq_ok_of_map {ε α β : Type} {f : α → β} {x : Except ε α} {y : β}
    (h : x.map f = .ok y) : ∃ a, x = .ok a ∧ f a = y := by
  cases x with
  | error e => simp [Except.map] at h
  | ok a => exact ⟨a, rfl, by simpa [Except.map] using h⟩

/-- Filters that are read are what was written. -/
theorem readFilters_eq {s : Text} {fs : List FilterCall} (h : readFilters s = .ok fs) :
    s = fs.flatMap FilterCall.toText := by
  fun_induction readFilters s generalizing fs with
  | case1 => simp_all
  | case2 => simp at h
  | case3 => simp_all
  | case4 r s hr a t hs _ ih =>
    obtain ⟨gs, hg, rfl⟩ := eq_ok_of_map h
    have hw := List.takeWhile_append_dropWhile (p := isWordChar) (l := r)
    rw [hr, readOperand_append hs, ih hg] at hw
    conv => lhs; rw [← hw]
    simp [FilterCall.toText]
  | case5 r _ _ ih =>
    obtain ⟨gs, hg, rfl⟩ := eq_ok_of_map h
    have hw := List.takeWhile_append_dropWhile (p := isWordChar) (l := r)
    rw [ih hg] at hw
    conv => lhs; rw [← hw]
    simp [FilterCall.toText]
  | case6 => simp at h

namespace FilterExpression

/-- Reads the operand in front, if there is one, and the filters. -/
def read (s : Text) : Except FilterStop FilterExpression :=
  if s.isEmpty || s.head? == some '|' then (readFilters s).map (⟨none, ·⟩)
  else
    match readOperand s with
    | .error e => .error e
    | .ok (value, r) => (readFilters r).map (⟨some value, ·⟩)

/-- Reads a text that is exactly one filter expression. -/
def parse (s : Text) : Except FilterError FilterExpression :=
  match read s with
  | .ok e => .ok e
  | .error stop => .error ⟨byteSize s - byteSize stop.rest, stop.fault⟩

/-- An accepted text is the written form of its expression. -/
theorem toText_of_parse {s : Text} {e : FilterExpression} (h : parse s = .ok e) :
    e.toText = s := by
  unfold parse at h
  split at h
  · rename_i e' he
    simp only [Except.ok.injEq] at h
    subst h
    unfold read at he
    split at he
    · obtain ⟨fs, hf, rfl⟩ := eq_ok_of_map he
      simpa [toText] using (readFilters_eq hf).symm
    · split at he
      · simp at he
      · rename_i value r hv
        obtain ⟨fs, hf, rfl⟩ := eq_ok_of_map he
        rw [readOperand_append hv, readFilters_eq hf]
        simp [toText]
  · simp at h

end FilterExpression

end TemplateCatalog
