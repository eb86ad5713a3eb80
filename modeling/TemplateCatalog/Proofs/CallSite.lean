/-
Where translations are called.

`Outside s r` says that `r` is a rest of `s` that starts outside of every quoted literal:
reading from the left takes a complete literal as a whole, and any other character alone. A
call site is a place outside of the literals at which `_(` stands, and `callSites base s` lists
those of a text that starts at byte `base`:

* `mem_callSites_iff` — the list has exactly the call sites;
* `callSites_ascending` — it has them in order, each once;
* `callSites_expression` — in a well-formed expression the literal that follows a call site
  directly is that of a translation, and every translation has its call site.
-/
import TemplateCatalog.Proofs.ExpressionForm
import TemplateCatalog.Proofs.Occurrence

namespace TemplateCatalog

open Text

/-! ### Places outside of literals -/

/-- `r` is a rest of `s` that starts outside of every quoted literal. -/
inductive Outside : Text → Text → Prop
  | here {s} : Outside s s
  | literal {s l t r} : Literal.take? s = some (l, t) → Outside t r → Outside s r
  | char {c s r} : Literal.take? (c :: s) = none → Outside s r → Outside (c :: s) r

theorem Outside.suffix {s r : Text} (h : Outside s r) : ∃ a, s = a ++ r := by
  induction h with
  | here => exact ⟨[], rfl⟩
  | @literal s l t r hl _ ih =>
    obtain ⟨a, rfl⟩ := ih
    exact ⟨l.toText ++ a, by rw [Literal.take?_eq_some hl, List.append_assoc]⟩
  | @char c s r _ _ ih =>
    obtain ⟨a, rfl⟩ := ih
    exact ⟨c :: a, rfl⟩

theorem Outside.length_le {s r : Text} (h : Outside s r) : r.length ≤ s.length := by
  obtain ⟨a, rfl⟩ := h.suffix
  simp

/-- Behind a literal in front, a place is outside exactly if it is so in what follows the
literal. -/
theorem outside_literal_iff {s t r : Text} {l : Literal} (h : Literal.take? s = some (l, t))
    (hr : r ≠ s) : Outside s r ↔ Outside t r := by
  refine ⟨fun ho => ?_, .literal h⟩
  cases ho with
  | here => exact absurd rfl hr
  | literal h' ho =>
    rw [h, Option.some.injEq, Prod.mk.injEq] at h'
    rw [h'.2]
    exact ho
  | char h' =>
    rw [h] at h'
    exact absurd h' (by simp)

theorem outside_cons_iff {c : Char} {s r : Text} (h : Literal.take? (c :: s) = none)
    (hr : r ≠ c :: s) : Outside (c :: s) r ↔ Outside s r := by
  refine ⟨fun ho => ?_, .char h⟩
  cases ho with
  | here => exact absurd rfl hr
  | literal h' =>
    rw [h] at h'
    exact absurd h' (by simp)
  | char _ ho => exact ho

/-- A place outside of literals is not inside of a literal that starts at such a place. -/
theorem Outside.not_inside {s r t u : Text} {l : Literal} (hr : Outside s r)
    (hl : Literal.take? r = some (l, t)) (hu : Outside s u) :
    r.length ≤ u.length ∨ u.length ≤ t.length := by
  induction hr with
  -- The step to `r` is the only one, so `u` is here or is reached by it as well.
  | @here s =>
    by_cases he : u = s
    · exact Or.inl (by rw [he])
    · exact Or.inr ((outside_literal_iff hl he).1 hu).length_le
  | @literal s l' t' r hl' hr ih =>
    by_cases he : u = s
    · rw [he]
      exact Or.inl (Outside.literal hl' hr).length_le
    · exact ih hl ((outside_literal_iff hl' he).1 hu)
  | @char c s r hc hr ih =>
    by_cases he : u = c :: s
    · rw [he]
      exact Or.inl (Outside.char hc hr).length_le
    · exact ih hl ((outside_cons_iff hc he).1 hu)

theorem take?_opener (r : Text) : Literal.take? (translationOpener ++ r) = none :=
  Literal.take?_of_not_isQuote (by decide)

/-! ### Call sites -/

/-- A translation opener outside of the literals: its byte, and the text after it. -/
structure CallSite where
  offset : Nat
  after : Text
  deriving DecidableEq, Repr

/-- The call site in front of a text, if there is one. -/
def callHere (base : Nat) (s : Text) : List CallSite :=
  if translationOpener.isPrefixOf s then [⟨base, s.drop translationOpener.length⟩] else []

/-- The call sites of a text that starts at byte `base`. -/
def callSites (base : Nat) (s : Text) : List CallSite :=
  match _h : Literal.take? s with
  | some (l, r) => callSites (base + byteSize l.toText) r
  | none =>
    match s with
    | [] => []
    | c :: r => callHere base (c :: r) ++ callSites (base + c.utf8Size) r
termination_by s.length
decreasing_by
  · exact Literal.take?_length _h
  · simp

theorem callSites_of_take? {base : Nat} {s r : Text} {l : Literal}
    (h : Literal.take? s = some (l, r)) :
    callSites base s = callSites (base + byteSize l.toText) r := by
  rw [callSites]
  split
  · rename_i l' r' h'
    rw [h, Option.some.injEq, Prod.mk.injEq] at h'
    rw [h'.1, h'.2]
  · simp_all

theorem callSites_of_take?_none {base : Nat} {c : Char} {s : Text}
    (h : Literal.take? (c :: s) = none) :
    callSites base (c :: s) = callHere base (c :: s) ++ callSites (base + c.utf8Size) s := by
  rw [callSites]
  split
  · simp_all
  · rfl

theorem callSites_nil (base : Nat) : callSites base [] = [] := by
  rw [callSites]
  rfl

theorem mem_callHere_iff {base : Nat} {s : Text} {x : CallSite} :
    x ∈ callHere base s ↔ s = translationOpener ++ x.after ∧ x.offset = base := by
  rw [callHere]
  split
  · rename_i hp
    have hs := append_drop_of_isPrefixOf hp
    constructor
    · intro hx
      rw [List.mem_singleton] at hx
      subst hx
      exact ⟨hs.symm, rfl⟩
    · rintro ⟨ha, ho⟩
      rw [List.mem_singleton]
      rcases x with ⟨o, a⟩
      simp_all
  · rename_i hp
    constructor
    · intro hx
      exact absurd hx (by simp)
    · rintro ⟨ha, -⟩
      refine absurd ?_ hp
      exact List.isPrefixOf_iff_prefix.2 ⟨x.after, ha.symm⟩

/-- The list has exactly the call sites. -/
theorem mem_callSites_iff {base : Nat} {s : Text} {x : CallSite} : x ∈ callSites base s ↔
    Outside s (translationOpener ++ x.after) ∧
      ∃ a, s = a ++ (translationOpener ++ x.after) ∧ x.offset = base + byteSize a := by
  fun_induction callSites base s with
  | case1 base s l r h ih =>
    -- A literal is in front, so no call site is here, and all are behind the literal.
    have hne : translationOpener ++ x.after ≠ s := by
      rintro rfl
      rw [take?_opener] at h
      exact absurd h (by simp)
    rw [ih, outside_literal_iff h hne]
    refine and_congr_right fun ho => ?_
    have hs := Literal.take?_eq_some h
    constructor
    · rintro ⟨a, ha, hx⟩
      refine ⟨l.toText ++ a, by rw [hs, ha, List.append_assoc], ?_⟩
      rw [hx, byteSize_append, Nat.add_assoc]
    · rintro ⟨a, ha, hx⟩
      obtain ⟨b, hb⟩ := ho.suffix
      have hab : a = l.toText ++ b := by
        rw [hs, hb, ← List.append_assoc] at ha
        exact (List.append_cancel_right ha).symm
      refine ⟨b, hb, ?_⟩
      rw [hx, hab, byteSize_append, Nat.add_assoc]
  | case2 base h =>
    simp only [List.not_mem_nil, false_iff]
    rintro ⟨ho, -⟩
    exact absurd ho.length_le (by simp [translationOpener])
  | case3 base c s h ih =>
    rw [List.mem_append, mem_callHere_iff, ih]
    by_cases hs : c :: s = translationOpener ++ x.after
    · have hlt : ¬ Outside s (translationOpener ++ x.after) := by
        intro ho
        have hl := ho.length_le
        rw [← hs, List.length_cons] at hl
        omega
      rw [hs]
      constructor
      · rintro (⟨-, hx⟩ | ⟨ho, -⟩)
        · exact ⟨.here, [], rfl, by simp [hx]⟩
        · exact absurd ho hlt
      · rintro ⟨-, a, ha, hx⟩
        have ha' : [] = a := List.append_cancel_right ((List.nil_append _).trans ha)
        subst ha'
        exact Or.inl ⟨rfl, by simpa using hx⟩
    · rw [outside_cons_iff h (Ne.symm hs)]
      constructor
      · rintro (⟨ha, -⟩ | ⟨ho, a, rfl, hx⟩)
        · exact absurd ha hs
        · exact ⟨ho, c :: a, rfl, by rw [hx, byteSize_cons, Nat.add_assoc]⟩
      · rintro ⟨ho, a, ha, hx⟩
        refine Or.inr ⟨ho, ?_⟩
        cases a with
        | nil => exact absurd ha hs
        | cons d a =>
          simp only [List.cons_append, List.cons.injEq] at ha
          refine ⟨a, ha.2, ?_⟩
          rw [hx, byteSize_cons, ← ha.1, Nat.add_assoc]

/-! ### Order -/

/-- The numbers grow, and lie from `lo` on up to before `hi`. -/
structure Ascending (lo : Nat) (xs : List Nat) (hi : Nat) : Prop where
  sorted : xs.Pairwise (· < ·)
  bounds : ∀ x ∈ xs, lo ≤ x ∧ x < hi

theorem ascending_nil (lo hi : Nat) : Ascending lo [] hi := ⟨.nil, by simp⟩

theorem Ascending.append {a b c d : Nat} {xs ys : List Nat} (hx : Ascending a xs b)
    (hy : Ascending c ys d) (hac : a ≤ c) (hbc : b ≤ c) (hbd : b ≤ d) :
    Ascending a (xs ++ ys) d := by
  refine ⟨List.pairwise_append.2 ⟨hx.sorted, hy.sorted, ?_⟩, ?_⟩
  · intro x hx' y hy'
    have := hx.bounds x hx'
    have := hy.bounds y hy'
    omega
  · intro x hx'
    rcases List.mem_append.1 hx' with h | h
    · have := hx.bounds x h
      omega
    · have := hy.bounds x h
      omega

theorem Ascending.widen {a b c d : Nat} {xs : List Nat} (h : Ascending b xs c) (hab : a ≤ b)
    (hcd : c ≤ d) : Ascending a xs d := by
  refine ⟨h.sorted, fun x hx => ?_⟩
  have := h.bounds x hx
  omega

/-- The bytes of the call sites in a list. -/
def offsets (xs : List CallSite) : List Nat := xs.map CallSite.offset

theorem ascending_callHere (base : Nat) (c : Char) (s : Text) :
    Ascending base (offsets (callHere base (c :: s))) (base + c.utf8Size) := by
  have := c.utf8Size_pos
  rw [callHere]
  split
  · refine ⟨by simp [offsets], ?_⟩
    intro x hx
    simp only [offsets, List.map_cons, List.map_nil, List.mem_singleton] at hx
    omega
  · exact ascending_nil _ _

/-- The list has the call sites in order, each once. -/
theorem callSites_ascending (base : Nat) (s : Text) :
    Ascending base (offsets (callSites base s)) (base + byteSize s) := by
  fun_induction callSites base s with
  | case1 base s l r h ih =>
    refine ih.widen (Nat.le_add_right _ _) ?_
    rw [Literal.take?_eq_some h, byteSize_append]
    omega
  | case2 base h => exact ascending_nil _ _
  | case3 base c s h ih =>
    rw [offsets, List.map_append, byteSize_cons, ← Nat.add_assoc]
    refine (ascending_callHere base c s).append ih ?_ ?_ ?_ <;> omega

/-! ### Expressions -/

/-- The literal `l` follows the call site directly. -/
def CallSite.Calls (x : CallSite) (l : Literal) : Prop :=
  ∃ r, Literal.take? x.after = some (l, r)

theorem callHere_eq_nil {base : Nat} {c : Char} {s : Text} (h : c ≠ '_' ∨ s.head? ≠ some '(') :
    callHere base (c :: s) = [] := by
  rw [callHere, if_neg]
  intro hp
  obtain ⟨t, ht⟩ := List.isPrefixOf_iff_prefix.1 hp
  simp only [translationOpener, List.cons_append, List.nil_append, List.cons.injEq] at ht
  rcases h with h | h
  · exact h ht.1.symm
  · rw [← ht.2] at h
    exact h rfl

theorem callSites_eq_nil {s : Text} (h : occurs translationOpener s = false) (base : Nat) :
    callSites base s = [] := by
  refine List.eq_nil_iff_forall_not_mem.2 fun x hx => ?_
  obtain ⟨-, a, ha, -⟩ := mem_callSites_iff.1 hx
  have ho : occurs translationOpener s = true :=
    occurs_iff.2 ⟨a, x.after, by rw [ha, List.append_assoc]⟩
  rw [h] at ho
  exact absurd ho (by simp)

/-- Text with neither quotes nor opening brackets has no call site. -/
theorem callSites_plain {s r : Text} (hs : ∀ c ∈ s, isQuote c = false ∧ c ≠ '(')
    (hr : r.head? ≠ some '(') (base : Nat) :
    callSites base (s ++ r) = callSites (base + byteSize s) r := by
  induction s generalizing base with
  | nil => simp
  | cons c s ih =>
    have hc := hs c (List.mem_cons_self ..)
    have ht : (s ++ r).head? ≠ some '(' := by
      cases s with
      | nil => exact hr
      | cons d s =>
        simp only [List.cons_append, List.head?_cons, ne_eq, Option.some.injEq]
        exact (hs d (by simp)).2
    rw [List.cons_append, callSites_of_take?_none (Literal.take?_of_not_isQuote hc.1),
      callHere_eq_nil (Or.inr ht), List.nil_append, ih fun d hd => hs d (by simp [hd])]
    rw [byteSize_cons, Nat.add_assoc]

theorem callSites_sign {c : Char} (hq : isQuote c = false) (hc : c ≠ '_') (base : Nat)
    (r : Text) : callSites base (c :: r) = callSites (base + c.utf8Size) r := by
  rw [callSites_of_take?_none (Literal.take?_of_not_isQuote hq), callHere_eq_nil (Or.inl hc),
    List.nil_append]

theorem callSites_opener (base : Nat) (r : Text) :
    callSites base (translationOpener ++ r) =
      ⟨base, r⟩ :: callSites (base + byteSize translationOpener) r := by
  show callSites base ('_' :: '(' :: r) = _
  rw [callSites_of_take?_none (Literal.take?_of_not_isQuote (by decide)),
    callSites_sign (by decide) (by decide)]
  rfl

theorem plain_of_isVariableChar {c : Char} (h : isVariableChar c = true) :
    isQuote c = false ∧ c ≠ '(' := by
  refine ⟨isQuote_of_isBare (isBare_of_isVariableChar h), ?_⟩
  rintro rfl
  exact absurd h (by decide)

theorem plain_of_isWordChar {c : Char} (h : isWordChar c = true) :
    isQuote c = false ∧ c ≠ '(' :=
  plain_of_isVariableChar (by simp [isVariableChar, h])

theorem IsVariable.plain {s : Text} (h : IsVariable s) :
    ∀ c ∈ s, isQuote c = false ∧ c ≠ '(' := by
  rcases h.chars with hs | ⟨sign, d, r, rfl, hsign, -, hr⟩
  · exact fun c hc => plain_of_isVariableChar (hs c hc)
  · intro c hc
    rcases List.mem_cons.1 hc with rfl | hc
    · rcases hsign with rfl | rfl <;> decide
    · exact plain_of_isVariableChar (hr c hc)

/-- The call sites of an operand: its translation if it is one. -/
theorem callSites_operand {o : Operand} (ho : o.WellFormed) {r : Text}
    (hr : r.head? ≠ some '(') (base : Nat) {ls : List Literal}
    (h : List.Forall₂ CallSite.Calls (callSites (base + byteSize o.toText) r) ls) :
    List.Forall₂ CallSite.Calls (callSites base (o.toText ++ r))
      (o.translation?.toList ++ ls) := by
  cases o with
  | literal l =>
    rw [Operand.toText, callSites_of_take? (Literal.take?_toText_append ho r)]
    exact h
  | translation l =>
    -- The opener is a call site, and the literal behind it has none inside.
    have hl := Literal.take?_toText_append ho (')' :: r)
    have he : (Operand.translation l).toText ++ r =
        translationOpener ++ (l.toText ++ ')' :: r) := by
      simp [Operand.toText]
    rw [he, callSites_opener, callSites_of_take? hl, callSites_sign (by decide) (by decide)]
    show List.Forall₂ CallSite.Calls _ (l :: ls)
    refine .cons ⟨_, hl⟩ ?_
    simp only [Operand.toText, byteSize_append, byteSize_cons, byteSize_nil, Nat.add_zero] at h
    simpa only [Nat.add_assoc] using h
  | «variable» name =>
    rw [Operand.toText, callSites_plain (IsVariable.plain ho) hr]
    exact h

theorem head?_filters (fs : List FilterCall) :
    (fs.flatMap FilterCall.toText).head? ≠ some '(' := by
  cases fs with
  | nil => simp
  | cons f fs =>
    rw [List.flatMap_cons, FilterCall.toText]
    cases f.argument <;> simp

/-- The call sites of filters are the translations among their arguments. -/
theorem callSites_filters {fs : List FilterCall} (h : ∀ f ∈ fs, f.WellFormed) (base : Nat) :
    List.Forall₂ CallSite.Calls (callSites base (fs.flatMap FilterCall.toText))
      ((fs.filterMap FilterCall.argument).filterMap Operand.translation?) := by
  induction fs generalizing base with
  | nil =>
    rw [List.flatMap_nil, callSites_nil]
    exact .nil
  | cons f fs ih =>
    have hf := h f (List.mem_cons_self ..)
    have hrest := ih fun g hg => h g (List.mem_cons_of_mem _ hg)
    have hname : ∀ c ∈ '|' :: f.name, isQuote c = false ∧ c ≠ '(' := by
      intro c hc
      rcases List.mem_cons.1 hc with rfl | hc
      · decide
      · exact plain_of_isWordChar (hf.name.word c hc)
    rw [List.flatMap_cons, List.filterMap_cons, FilterCall.toText]
    cases ha : f.argument with
    | none =>
      simp only
      rw [callSites_plain hname (head?_filters fs)]
      exact hrest _
    | some a =>
      have he : '|' :: f.name ++ ':' :: a.toText ++ fs.flatMap FilterCall.toText =
          '|' :: f.name ++ (':' :: (a.toText ++ fs.flatMap FilterCall.toText)) := by simp
      simp only
      rw [he, callSites_plain hname (by simp), callSites_sign (by decide) (by decide)]
      -- The name and the colon have no call site, so those of the argument come first.
      have hcalls := callSites_operand (hf.argument a ha) (head?_filters fs)
        (base + byteSize ('|' :: f.name) + ':'.utf8Size) (hrest _)
      rw [List.filterMap_cons]
      cases ht : a.translation? with
      | none => simpa [ht] using hcalls
      | some l => simpa [ht] using hcalls

/-- The literals that follow the call sites of an expression are its translations. -/
theorem callSites_expression {e : FilterExpression} (h : e.WellFormed) (base : Nat) :
    List.Forall₂ CallSite.Calls (callSites base e.toText) e.translations := by
  have hf := callSites_filters h.filters
  rw [FilterExpression.toText, FilterExpression.translations]
  cases hv : e.value with
  | none => simpa using hf base
  | some v =>
    have hcalls := callSites_operand (h.value v hv) (head?_filters e.filters) base (hf _)
    cases ht : v.translation? <;> simpa [ht] using hcalls

end TemplateCatalog
