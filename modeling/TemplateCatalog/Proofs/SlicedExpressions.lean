/-
Filter expressions by byte offsets.

The reader of filter expressions, run on offsets into the expression: it looks at the character
at an offset, passes over it by its size, and slices names and literals out of the text. A
reader on offsets does what the reader on texts does (`Sliced.Follows`): both stop with the
same fault, at the byte where the text is left that the other returns. So every slice is there
(`Sliced.expression?_eq`).
-/
import TemplateCatalog.Proofs.SlicedFragments
import TemplateCatalog.Template.FilterReading

namespace TemplateCatalog

open Text

namespace Sliced

/-! ### Readers on offsets -/

/-- What a reader on offsets returns: a fault and its byte, or what it has read and the byte
behind it. -/
abbrev Read (α : Type) := Except FilterError (α × Nat)

/-- The byte behind the character `c`, if it stands at byte `i`. -/
def eat? (s : Text) (c : Char) (i : Nat) : Option (Option Nat) :=
  (sliceFrom? s i).map fun rest => if rest.head? = some c then some (i + c.utf8Size) else none

/-- The characters with the property `p` from byte `i` on, and the byte behind them. -/
def takeWhile? (s : Text) (p : Char → Bool) (i : Nat) : Option (Text × Nat) := do
  let rest ← sliceFrom? s i
  let length := byteSize (rest.takeWhile p)
  return (← sliceTo? rest length, i + length)

/-- Reads the literal at byte `i`. -/
def readLiteral? (s : Text) (i : Nat) : Option (Read Literal) := do
  match ← closingQuoteEnd? s i with
  | none => return .error ⟨i, .unclosedLiteral⟩
  | some stop => return .ok (← literal? (← slice? s i stop), stop)

/-- Reads what follows `_(`. -/
def readTranslation? (s : Text) (i : Nat) : Option (Read Operand) := do
  if startsWithQuote (← sliceFrom? s i) then
    match ← readLiteral? s i with
    | .error e => return .error e
    | .ok (l, stop) =>
      match ← eat? s ')' stop with
      | none => return .error ⟨stop, .unclosedTranslation⟩
      | some stop => return .ok (.translation l, stop)
  else return .error ⟨i, .translationWithoutLiteral⟩

/-- The byte at which the digits of a signed number start, or byte `i`. -/
def skipSign (i : Nat) : Text → Nat
  | c :: d :: _ => if (c = '-' ∨ c = '+') ∧ d.isDigit then i + c.utf8Size else i
  | _ => i

/-- Reads the variable or number at byte `i`. -/
def readVariable? (s : Text) (i : Nat) : Option (Read Operand) := do
  let (_, stop) ← takeWhile? s isVariableChar (skipSign i (← sliceFrom? s i))
  if stop = i then
    match ← sliceFrom? s stop with
    | [] => return .error ⟨stop, .missingFilterArgument⟩
    | rest => return .error ⟨stop, .unexpectedInput rest⟩
  else return .ok (.variable (← slice? s i stop), stop)

/-- Reads one operand. -/
def readOperand? (s : Text) (i : Nat) : Option (Read Operand) := do
  let rest ← sliceFrom? s i
  if translationOpener.isPrefixOf rest then readTranslation? s (i + byteSize translationOpener)
  else if startsWithQuote rest then
    match ← readLiteral? s i with
    | .error e => return .error e
    | .ok (l, stop) => return .ok (.literal l, stop)
  else readVariable? s i

/-- Reads one filter behind its bar. -/
def readFilter? (s : Text) (i : Nat) : Option (Read FilterCall) := do
  let (name, stop) ← takeWhile? s isWordChar i
  if name = [] then return .error ⟨stop, .missingFilterName⟩
  else
    match ← eat? s ':' stop with
    | none => return .ok (⟨name, none⟩, stop)
    | some stop =>
      match ← readOperand? s stop with
      | .error e => return .error e
      | .ok (a, stop) => return .ok (⟨name, some a⟩, stop)

/-- One more filter. The state is the byte that has been read up to, and the filters in front
of it. -/
def filtersTurn? (s : Text) (value : Option Operand) (state : Nat × List FilterCall) :
    Option (Turn (Nat × List FilterCall) (Except FilterError FilterExpression)) := do
  match ← sliceFrom? s state.1 with
  | [] => return .done (.ok ⟨value, state.2⟩)
  | c :: _ =>
    if c = '|' then
      match ← readFilter? s (state.1 + c.utf8Size) with
      | .error e => return .done (.error e)
      | .ok (f, stop) => return .again (stop, state.2 ++ [f])
    else return .done (.error ⟨state.1, .unexpectedInput (← sliceFrom? s state.1)⟩)

/-- Reads a text that is exactly one filter expression. -/
def expression? (s : Text) : Option (Except FilterError FilterExpression) := do
  let rest ← sliceFrom? s 0
  if rest.isEmpty || rest.head? == some '|' then
    loop? (byteSize s) Prod.fst (filtersTurn? s none) (0, [])
  else
    match ← readOperand? s 0 with
    | .error e => return .error e
    | .ok (value, stop) => loop? (byteSize s) Prod.fst (filtersTurn? s (some value)) (stop, [])

/-! ### Readers on texts -/

/-- A reader on offsets into `s` returned what a reader on texts did: the byte instead of the
text from there on. -/
inductive Follows {α : Type} (s : Text) : Except FilterStop (α × Text) → Option (Read α) → Prop
  | ok {x : α} {r : Text} {i : Nat} (h : At s i r) : Follows s (.ok (x, r)) (some (.ok (x, i)))
  | error {fault : FilterFault} {r : Text} {i : Nat} (h : At s i r) :
      Follows s (.error ⟨fault, r⟩) (some (.error ⟨i, fault⟩))

variable {s r : Text} {i : Nat}

theorem position_eq (h : At s i r) : byteSize s - byteSize r = i := by
  rw [← h.size, Nat.add_sub_cancel]

/-- Both readers stop with a fault, or both go on. -/
theorem Follows.error_or_ok {α : Type} {read : Except FilterStop (α × Text)}
    {read? : Option (Read α)} (h : Follows s read read?) :
    (∃ stop, read = .error stop ∧
      read? = some (.error ⟨byteSize s - byteSize stop.rest, stop.fault⟩)) ∨
      ∃ x rest j, read = .ok (x, rest) ∧ read? = some (.ok (x, j)) ∧ At s j rest := by
  cases h with
  | ok hat => exact Or.inr ⟨_, _, _, rfl, rfl, hat⟩
  | @error fault r i hat =>
    refine Or.inl ⟨⟨fault, r⟩, rfl, ?_⟩
    rw [position_eq hat]

theorem eat?_eq (h : At s i r) (c : Char) :
    eat? s c i = some (if r.head? = some c then some (i + c.utf8Size) else none) := by
  rw [eat?, h.sliceFrom?_eq, Option.map_some]

theorem takeWhile?_eq (h : At s i r) (p : Char → Bool) :
    takeWhile? s p i = some (r.takeWhile p, i + byteSize (r.takeWhile p)) := by
  have hfront : sliceTo? r (byteSize (r.takeWhile p)) = some (r.takeWhile p) :=
    sliceTo?_eq_some_iff.2 ⟨List.takeWhile_prefix p, rfl⟩
  simp only [takeWhile?, h.sliceFrom?_eq, bind, Option.bind, hfront]
  rfl

/-- A literal is read where one can be taken off. -/
theorem readLiteral?_eq (h : At s i r) :
    (Literal.take? r = none ∧ readLiteral? s i = some (.error ⟨i, .unclosedLiteral⟩)) ∨
      ∃ l rest stop, Literal.take? r = some (l, rest) ∧ At s stop rest ∧
        readLiteral? s i = some (.ok (l, stop)) := by
  rw [readLiteral?, closingQuoteEnd?_eq h]
  cases htake : Literal.take? r with
  | none => exact Or.inl ⟨rfl, rfl⟩
  | some p =>
    obtain ⟨l, rest⟩ := p
    rw [Literal.take?_eq_some htake] at h
    refine Or.inr ⟨l, rest, _, rfl, h.add, ?_⟩
    simp only [Option.map_some, bind, Option.bind, h.slice?_eq, literal?_toText]
    rfl

theorem readTranslation?_follows (h : At s i r) :
    Follows s (readTranslation r) (readTranslation? s i) := by
  rw [readTranslation, readTranslation?, h.sliceFrom?_eq]
  dsimp only [bind, Option.bind]
  split_ifs with hquote
  · rcases readLiteral?_eq h with ⟨htake, hread⟩ | ⟨l, rest, stop, htake, hstop, hread⟩
    · rw [htake, hread]
      exact .error h
    · rw [htake, hread]
      dsimp only
      rw [eat?_eq hstop]
      -- Behind the literal the bracket must close.
      cases rest with
      | nil => exact .error hstop
      | cons c rest =>
        by_cases hc : c = ')'
        · subst hc
          exact .ok (hstop.add (t := [')']))
        · have heat :
              (if (c :: rest).head? = some ')' then some (stop + ')'.utf8Size) else none) =
                none :=
            if_neg (by simpa using hc)
          rw [heat]
          split
          · rename_i hnone
            cases hnone
          · rename_i hsome
            cases hsome
            exact absurd rfl hc
          · rename_i hsome
            cases hsome
            exact .error hstop
  · exact .error h

/-- A variable or number starts behind its sign. -/
theorem takeVariable_eq (h : At s i r) :
    ∃ rest, At s (skipSign i r) rest ∧ takeWhile? s isVariableChar (skipSign i r) =
        some (rest.takeWhile isVariableChar, i + byteSize (takeVariable r).1) := by
  fun_cases takeVariable r with
  | case1 c d r hsign =>
    have hrest : At s (i + c.utf8Size) (d :: r) := h.add (t := [c])
    rw [skipSign, if_pos hsign]
    refine ⟨d :: r, hrest, ?_⟩
    rw [takeWhile?_eq hrest, byteSize_cons, Nat.add_assoc]
  | case2 c d r hsign =>
    rw [skipSign, if_neg hsign]
    exact ⟨_, h, takeWhile?_eq h _⟩
  | case3 r hshort =>
    have hsign : skipSign i r = i := by
      rw [skipSign]
      exact hshort
    rw [hsign]
    exact ⟨_, h, takeWhile?_eq h _⟩

theorem readVariable?_follows (h : At s i r) (hquote : startsWithQuote r = false) :
    Follows s (readPlainOperand r) (readVariable? s i) := by
  obtain ⟨rest, -, htake⟩ := takeVariable_eq h
  rw [readVariable?, readPlainOperand, hquote, if_neg Bool.false_ne_true, h.sliceFrom?_eq]
  dsimp only [bind, Option.bind]
  rw [htake]
  dsimp only
  have happ := takeVariable_append r
  rcases hv : takeVariable r with ⟨name, after⟩
  rw [hv] at happ
  -- An empty variable is refused at the place where it was looked for.
  cases name with
  | nil =>
    obtain rfl : after = r := happ
    rw [byteSize_nil, Nat.add_zero, if_pos rfl, h.sliceFrom?_eq]
    cases after with
    | nil => exact .error h
    | cons c r => exact .error h
  | cons c name =>
    have hpos := c.utf8Size_pos
    rw [← happ] at h
    rw [if_neg (by simp; omega), h.slice?_eq]
    exact .ok h.add

theorem readOperand?_follows (h : At s i r) :
    Follows s (readOperand r) (readOperand? s i) := by
  rw [readOperand?, h.sliceFrom?_eq]
  dsimp only [bind, Option.bind]
  fun_cases readOperand r with
  | case1 r => exact readTranslation?_follows (h.add (t := translationOpener))
  | case2 r hopener =>
    have hprefix : ¬translationOpener.isPrefixOf r = true := by
      rw [List.isPrefixOf_iff_prefix]
      rintro ⟨t, rfl⟩
      exact hopener t rfl
    rw [if_neg hprefix]
    cases hquote : startsWithQuote r with
    | false => exact readVariable?_follows h hquote
    | true =>
      rw [readPlainOperand, hquote, if_pos rfl, if_pos rfl]
      rcases readLiteral?_eq h with ⟨htake, hread⟩ | ⟨l, rest, stop, htake, hstop, hread⟩
      · rw [htake, hread]
        exact .error h
      · rw [htake, hread]
        exact .ok hstop

/-! ### Filters -/

/-- Reads one filter behind its bar. -/
def readFilter (r : Text) : Except FilterStop (FilterCall × Text) :=
  match r.takeWhile isWordChar with
  | [] => .error ⟨.missingFilterName, r⟩
  | name =>
    match r.dropWhile isWordChar with
    | ':' :: rest =>
      match readOperand rest with
      | .error e => .error e
      | .ok (a, rest) => .ok (⟨name, some a⟩, rest)
    | rest => .ok (⟨name, none⟩, rest)

/-- Filters are read one after the other. -/
theorem readFilters_bar (r : Text) :
    readFilters ('|' :: r) =
      match readFilter r with
      | .error e => .error e
      | .ok (f, rest) => (readFilters rest).map (f :: ·) := by
  rw [readFilters, if_pos rfl, readFilter]
  cases r.takeWhile isWordChar with
  | nil => rfl
  | cons c name =>
    -- Behind the name comes a colon with its argument, or what belongs to the next filter.
    generalize r.dropWhile isWordChar = rest
    cases rest with
    | nil => rfl
    | cons d rest =>
      by_cases hd : d = ':'
      · subst hd
        simp only []
        split
        · rename_i hread
          rw [hread]
        · rename_i hread
          rw [hread]
      · simp [hd]

theorem readFilter?_follows (h : At s i r) : Follows s (readFilter r) (readFilter? s i) := by
  have hstop := at_dropWhile h isWordChar
  rw [readFilter?, takeWhile?_eq h, readFilter]
  dsimp only [bind, Option.bind]
  cases hname : r.takeWhile isWordChar with
  | nil => exact .error h
  | cons c name =>
    rw [hname] at hstop
    rw [if_neg (List.cons_ne_nil c name), eat?_eq hstop]
    generalize r.dropWhile isWordChar = rest at hstop
    cases rest with
    | nil => exact .ok hstop
    | cons d rest =>
      by_cases hd : d = ':'
      · subst hd
        have hrest := readOperand?_follows (hstop.add (t := [':']))
        have hsize : byteSize [':'] = ':'.utf8Size := Nat.add_zero _
        rw [hsize] at hrest
        simp only [List.head?_cons, if_true]
        -- The argument is read alike by both, whatever it is.
        generalize readOperand rest = read at hrest
        generalize readOperand? s _ = read? at hrest
        cases hrest with
        | ok hat => exact .ok hat
        | error hat => exact .error hat
      · simp only [List.head?_cons, Option.some.injEq, hd, if_false]
        split
        · rename_i hcolon
          cases hcolon
          exact absurd rfl hd
        · exact .ok hstop

/-- The filters from a state on, behind those in front of it, lead to the result. -/
def FiltersLeft (s : Text) (value : Option Operand)
    (result : Except FilterError FilterExpression) (state : Nat × List FilterCall) : Prop :=
  ∃ u, At s state.1 u ∧ result =
    match readFilters u with
    | .ok filters => .ok ⟨value, state.2 ++ filters⟩
    | .error stop => .error ⟨byteSize s - byteSize stop.rest, stop.fault⟩

/-- What is left behind a filter is an end of what was there. -/
theorem suffix_of_readFilter {f : FilterCall} {rest : Text}
    (h : readFilter r = .ok (f, rest)) : rest <:+ r := by
  have hdrop : r.dropWhile isWordChar <:+ r := List.dropWhile_suffix _
  rw [readFilter] at h
  split at h
  · cases h
  · split at h
    · rename_i arg hcolon
      cases hread : readOperand arg with
      | error e =>
        rw [hread] at h
        cases h
      | ok p =>
        rw [hread] at h
        cases h
        rw [hcolon] at hdrop
        refine List.IsSuffix.trans ⟨p.1.toText, ?_⟩ ((List.suffix_cons ':' arg).trans hdrop)
        exact (readOperand_append hread).symm
    · cases h
      exact hdrop

theorem filtersTurn?_cases {value : Option Operand}
    {result : Except FilterError FilterExpression} {state : Nat × List FilterCall}
    (h : FiltersLeft s value result state) :
    (∃ z, filtersTurn? s value state = some (.done z) ∧ z = result) ∨
      ∃ next, filtersTurn? s value state = some (.again next) ∧ state.1 < next.1 ∧
        next.1 ≤ byteSize s ∧
        FiltersLeft s value result next := by
  obtain ⟨i, front⟩ := state
  obtain ⟨u, hu, rfl⟩ := h
  have hu : At s i u := hu
  rw [filtersTurn?, hu.sliceFrom?_eq]
  simp only [bind, Option.bind]
  cases u with
  | nil =>
    refine Or.inl ⟨_, rfl, ?_⟩
    simp [readFilters]
  | cons c r =>
    by_cases hc : c = '|'
    · subst hc
      have hr : At s (i + '|'.utf8Size) r := hu.add (t := ['|'])
      simp only [if_true, readFilters_bar]
      rcases (readFilter?_follows hr).error_or_ok with ⟨e, hread, hread?⟩ | ⟨f, rest, stop,
        hread, hread?, hstop⟩
      · simp only [hread, hread?]
        exact Or.inl ⟨_, rfl, rfl⟩
      · -- The bar is passed over, and nothing that was passed over comes back.
        have hless : i < stop := by
          obtain ⟨passed, rfl⟩ := suffix_of_readFilter hread
          have := hr.size
          have := hstop.size
          have := '|'.utf8Size_pos
          rw [byteSize_append] at *
          omega
        simp only [hread, hread?]
        refine Or.inr ⟨(stop, front ++ [f]), rfl, hless, hstop.le_size, rest, hstop, ?_⟩
        cases readFilters rest <;> simp [Except.map]
    · refine Or.inl ⟨_, if_neg hc, ?_⟩
      rw [readFilters, if_neg hc]
      simp only [position_eq hu]

theorem loop?_filters (value : Option Operand) (h : At s i r) :
    loop? (byteSize s) Prod.fst (filtersTurn? s value) (i, []) =
      some (match readFilters r with
        | .ok filters => .ok ⟨value, filters⟩
        | .error stop => .error ⟨byteSize s - byteSize stop.rest, stop.fault⟩) := by
  obtain ⟨z, hloop, rfl⟩ :=
    exists_loop? (fun _ => filtersTurn?_cases) (⟨r, h, rfl⟩ : FiltersLeft s value _ (i, []))
  exact hloop

/-- A text is read as a filter expression by slices that are there. -/
theorem expression?_eq (s : Text) : expression? s = some (FilterExpression.parse s) := by
  have hs := At.start s
  rw [expression?, hs.sliceFrom?_eq, FilterExpression.parse, FilterExpression.read]
  dsimp only [bind, Option.bind]
  split_ifs with hfilters
  · rw [loop?_filters none hs]
    cases readFilters s <;> rfl
  · rcases (readOperand?_follows hs).error_or_ok with ⟨e, hread, hread?⟩ | ⟨x, rest, stop,
      hread, hread?, hstop⟩
    · simp only [hread, hread?]
      rfl
    · simp only [hread, hread?, loop?_filters _ hstop]
      cases readFilters rest <;> rfl

end Sliced

end TemplateCatalog
