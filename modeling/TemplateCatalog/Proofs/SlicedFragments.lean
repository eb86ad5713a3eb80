/-
Literals and fragments by byte offsets.

The splitter of the contents of a tag, run on offsets: it passes over blanks, over bare text
and over phrases, each time from the slice that starts at the offset it has come to. Every
slice is there, and what is cut off are the fragments, as pieces of the contents
(`Sliced.fragments?_eq`). A literal is read off its slice without the first and the last byte,
which are its quotes (`Sliced.literal?_toText`).
-/
import TemplateCatalog.Proofs.FragmentLayout
import TemplateCatalog.Proofs.Phrasing
import TemplateCatalog.Proofs.Slices

namespace TemplateCatalog

open Text

namespace Sliced

/-! ### Closing quotes -/

/-- The byte behind the closing quote, if the text from byte `i` on has one. -/
def closeFrom (quote : Char) (i : Nat) : Text → Option Nat
  | [] => none
  | c :: r =>
    if c = '\\' then
      match r with
      | [] => none
      | d :: r => if d = '\n' then none else closeFrom quote (i + c.utf8Size + d.utf8Size) r
    else if c = quote then some (i + c.utf8Size)
    else closeFrom quote (i + c.utf8Size) r

/-- The byte behind the closing quote, if a quote opens at byte `i`. -/
def closingQuoteEnd? (s : Text) (i : Nat) : Option (Option Nat) :=
  (sliceFrom? s i).map fun
    | [] => none
    | c :: r => if isQuote c then closeFrom c (i + c.utf8Size) r else none

theorem closeFrom_eq {q : Char} (hq : q ≠ '\\') (i : Nat) (s : Text) :
    closeFrom q i s = (untilQuote q s).map fun (inner, _) => i + byteSize inner +
      q.utf8Size := by
  fun_induction untilQuote q s generalizing i with
  | case1 => rfl
  | case2 => simp [closeFrom, hq]
  | case3 c hc =>
    rw [closeFrom]
    split_ifs <;> rfl
  | case4 d r => simp [closeFrom, hq]
  | case5 r hq' => simp [closeFrom]
  | case6 d r hd hne ih =>
    rw [closeFrom, if_pos rfl]
    simp [hd, ih, Function.comp_def, Nat.add_assoc]
  | case7 c d r hc hc' ih =>
    rw [closeFrom, if_neg hc', if_neg hc, ih]
    simp [Function.comp_def, Nat.add_assoc]

theorem closingQuoteEnd?_eq {s r : Text} {i : Nat} (h : At s i r) :
    closingQuoteEnd? s i =
      some ((Literal.take? r).map fun (l, _) => i + byteSize l.toText) := by
  rw [closingQuoteEnd?, h.sliceFrom?_eq, Option.map_some, Option.some.injEq]
  cases r with
  | nil => rfl
  | cons c r =>
    cases hq : Quote.ofChar? c with
    | none => simp [Literal.take?, isQuote, hq]
    | some q =>
      have hc := Quote.ofChar?_eq_some_iff.1 hq
      have hne : c ≠ '\\' := by
        rw [hc]
        cases q <;> decide
      simp [Literal.take?, isQuote, hq, closeFrom_eq hne, Literal.toText, ← hc,
        Function.comp_def, Nat.add_assoc]

/-! ### Literals -/

/-- The literal that is written as `raw`: its quote, and the slice between the quotes. -/
def literal? (raw : Text) : Option Literal := do
  let quote ← raw.head? >>= Quote.ofChar?
  let inner ← slice? raw 1 (← minus? (byteSize raw) 1)
  return ⟨quote, inner⟩

/-- Reads a text that is exactly one literal. -/
def parseLiteral? (s : Text) : Option (Option Literal) := do
  match ← closingQuoteEnd? s 0 with
  | none => return none
  | some stop => if stop = byteSize s then return some (← literal? s) else return none

theorem literal?_toText (l : Literal) : literal? l.toText = some l := by
  have hsize : l.quote.char.utf8Size = 1 := by cases l.quote <;> decide
  have hquote : l.toText.head? >>= Quote.ofChar? = some l.quote :=
    Quote.ofChar?_eq_some_iff.2 rfl
  have hminus : minus? (byteSize l.toText) 1 = some (1 + byteSize l.inner) := by
    have hbytes : byteSize l.toText = 1 + (1 + byteSize l.inner) := by
      simp [Literal.toText, hsize]
      omega
    rw [hbytes, minus?_add]
  have hat : At l.toText 1 (l.inner ++ [l.quote.char]) :=
    ⟨[l.quote.char], rfl, by simp [hsize]⟩
  rw [literal?, hquote, hminus]
  simp only [bind, Option.bind, hat.slice?_eq]
  rfl

theorem parseLiteral?_eq (s : Text) : parseLiteral? s = some (Literal.parse? s) := by
  rw [parseLiteral?, closingQuoteEnd?_eq (At.start s), Literal.parse?]
  cases h : Literal.take? s with
  | none => rfl
  | some p =>
    obtain ⟨l, r⟩ := p
    have hs := Literal.take?_eq_some h
    have hstop : 0 + byteSize l.toText = byteSize s ↔ r = [] := by
      rw [Nat.zero_add, hs, byteSize_append]
      constructor
      · exact fun hsize => eq_nil_of_byteSize_eq_zero (by omega)
      · rintro rfl
        rfl
    simp only [Option.map_some, bind, Option.bind, hstop]
    cases r with
    | nil =>
      rw [List.append_nil] at hs
      rw [if_pos rfl, hs, literal?_toText]
      rfl
    | cons c r => rfl

/-! ### One fragment -/

/-- The byte behind the characters with the property `p` from byte `i` on. -/
def skipWhile? (p : Char → Bool) (s : Text) (i : Nat) : Option Nat :=
  (sliceFrom? s i).map fun r => i + byteSize (r.takeWhile p)

/-- One phrase and the bare text after it. The state is the byte that the run has come to, and
whether there has been a phrase. -/
def phrasesTurn? (s : Text) (state : Nat × Bool) : Option (Turn (Nat × Bool) (Option Nat)) :=
  do
  match ← closingQuoteEnd? s state.1 with
  | some close => return .again (← skipWhile? isBare s close, true)
  | none => return .done (if state.2 then some state.1 else none)

/-- The byte behind the longest run of bare text and phrases from byte `i` on, if it has a
phrase. -/
def phrasesEnd? (s : Text) (i : Nat) : Option (Option Nat) := do
  loop? (byteSize s) Prod.fst (phrasesTurn? s) (← skipWhile? isBare s i, false)

/-- The byte behind the fragment that starts at byte `i`. -/
def fragmentEnd? (s : Text) (i : Nat) : Option Nat := do
  match ← phrasesEnd? s i with
  | some stop => return stop
  | none => skipWhile? (!isBlank ·) s i

theorem skipWhile?_eq {s r : Text} {i : Nat} (h : At s i r) (p : Char → Bool) :
    skipWhile? p s i = some (i + byteSize (r.takeWhile p)) := by
  rw [skipWhile?, h.sliceFrom?_eq, Option.map_some]

theorem at_dropWhile {s r : Text} {i : Nat} (h : At s i r) (p : Char → Bool) :
    At s (i + byteSize (r.takeWhile p)) (r.dropWhile p) := by
  rw [← List.takeWhile_append_dropWhile (p := p) (l := r)] at h
  exact h.add

/-- The phrases from a state on lead to the result. -/
def PhrasesLeft (s : Text) (result : Option Nat) (state : Nat × Bool) : Prop :=
  ∃ u, At s state.1 u ∧ result =
    if state.2 = false ∧ (takePhrases u).1 = [] then none
    else some (state.1 + byteSize (takePhrases u).1)

theorem phrasesTurn?_cases {s : Text} {result : Option Nat} {state : Nat × Bool}
    (h : PhrasesLeft s result state) :
    (∃ z, phrasesTurn? s state = some (.done z) ∧ z = result) ∨
      ∃ next, phrasesTurn? s state = some (.again next) ∧ state.1 < next.1 ∧
        next.1 ≤ byteSize s ∧ PhrasesLeft s result next := by
  obtain ⟨stop, phrased⟩ := state
  obtain ⟨u, hu, rfl⟩ := h
  rw [phrasesTurn?, closingQuoteEnd?_eq hu]
  cases htake : Literal.take? u with
  | none =>
    -- Without a literal the run of phrases ends here, if it has begun.
    rw [takePhrases_of_none htake]
    cases phrased <;> exact Or.inl ⟨_, rfl, by simp⟩
  | some p =>
    obtain ⟨l, r⟩ := p
    rw [Literal.take?_eq_some htake] at hu
    have hr := hu.add
    have hnext := at_dropWhile hr isBare
    have hl : l.toText ≠ [] := List.cons_ne_nil _ _
    have hpos := byteSize_pos hl
    refine Or.inr ⟨(stop + byteSize l.toText + byteSize (r.takeWhile isBare), true), ?_, ?_,
      hnext.le_size, _, hnext, ?_⟩
    · simp only [Option.map_some, bind, Option.bind, skipWhile?_eq hr]
      rfl
    · dsimp only
      omega
    · rw [takePhrases_of_some htake]
      simp [hl, Nat.add_assoc]

theorem phrasesEnd?_eq {s r : Text} {i : Nat} (h : At s i r) :
    phrasesEnd? s i = some (if (takePhrases (r.dropWhile isBare)).1 = [] then none else
      some (i + byteSize (r.takeWhile isBare) +
        byteSize (takePhrases (r.dropWhile isBare)).1)) := by
  have hstart : PhrasesLeft s _ (i + byteSize (r.takeWhile isBare), false) :=
    ⟨_, at_dropWhile h isBare, rfl⟩
  obtain ⟨z, hloop, rfl⟩ := exists_loop? (fun _ => phrasesTurn?_cases) hstart
  rw [phrasesEnd?, skipWhile?_eq h]
  simpa using hloop

/-- A fragment ends where `takeFragment` ends it. -/
theorem fragmentEnd?_eq {s r : Text} {i : Nat} (h : At s i r) :
    fragmentEnd? s i = some (i + byteSize (takeFragment r).1) := by
  rw [fragmentEnd?, phrasesEnd?_eq h, takeFragment]
  rcases hp : takePhrases (r.dropWhile isBare) with ⟨phrases, rest⟩
  cases phrases with
  | nil => exact skipWhile?_eq h _
  | cons c phrases => simp [Nat.add_assoc]

/-! ### All fragments -/

/-- The next fragment of a text, and the byte behind it. -/
def nextFragment? (s : Slice) (i : Nat) : Option (Option (Slice × Nat)) := do
  let rest ← sliceFrom? s.text i
  let start := i + (← minus? (byteSize rest) (byteSize (trimStart rest)))
  if start < byteSize s.text then
    let stop ← fragmentEnd? s.text start
    return some (← s.sub? start stop, stop)
  else return none

/-- One more fragment. The state is the byte that the splitter has come to, and what it has cut
off so far. -/
def fragmentsTurn? (s : Slice) (state : Nat × List Slice) :
    Option (Turn (Nat × List Slice) (List Slice)) := do
  match ← nextFragment? s state.1 with
  | some (fragment, stop) => return .again (stop, state.2 ++ [fragment])
  | none => return .done state.2

/-- The fragments of a text. -/
def fragments? (s : Slice) : Option (List Slice) :=
  loop? (byteSize s.text) Prod.fst (fragmentsTurn? s) (0, [])

/-- The fragment as a piece of the text at an address. -/
def piece (start : Nat) (f : Fragment) : Slice := ⟨start + f.offset, f.text⟩

theorem nextFragment?_eq {s : Slice} {p : Splitter} (h : At s.text p.offset p.rest) :
    nextFragment? s p.offset =
      some (p.next?.map fun (f, p') => (piece s.start f, p'.offset)) := by
  have hbytes :
      byteSize p.rest = byteSize (trimStart p.rest) + byteSize (leadingBlanks p.rest) := by
    rw [Nat.add_comm, ← byteSize_append, leadingBlanks_append_trimStart]
  have hstart : At s.text (p.offset + byteSize (leadingBlanks p.rest)) (trimStart p.rest) :=
    at_dropWhile h isBlank
  have hsize := hstart.size
  -- The start is reached by a subtraction of sizes, which the blanks make exact.
  simp only [nextFragment?, h.sliceFrom?_eq, bind, Option.bind, hbytes, minus?_add]
  rw [Splitter.next?]
  cases hrest : trimStart p.rest with
  | nil =>
    rw [hrest, byteSize_nil] at hsize
    rw [if_neg (by omega)]
    rfl
  | cons c r =>
    rw [hrest, byteSize_cons] at hsize
    rw [hrest] at hstart
    have hpos := c.utf8Size_pos
    have hparts := hstart
    rw [← takeFragment_append (c :: r)] at hparts
    rw [if_pos (by omega), fragmentEnd?_eq hstart]
    dsimp only
    rw [Slice.sub?_eq hparts]
    rfl

/-- The fragments that are left, behind those cut off so far, are all of them. -/
def FragmentsLeft (s : Slice) (all : List Slice) (state : Nat × List Slice) : Prop :=
  ∃ p : Splitter, p.offset = state.1 ∧ At s.text p.offset p.rest ∧
    all = state.2 ++ p.fragments.map (piece s.start)

theorem fragmentsTurn?_cases {s : Slice} {all : List Slice} {state : Nat × List Slice}
    (h : FragmentsLeft s all state) :
    (∃ z, fragmentsTurn? s state = some (.done z) ∧ z = all) ∨
      ∃ next, fragmentsTurn? s state = some (.again next) ∧ state.1 < next.1 ∧
        next.1 ≤ byteSize s.text ∧ FragmentsLeft s all next := by
  obtain ⟨offset, found⟩ := state
  obtain ⟨p, rfl, hp, rfl⟩ := h
  rw [fragmentsTurn?, nextFragment?_eq hp]
  cases hnext : p.next? with
  | none =>
    rw [Splitter.fragments_of_none hnext]
    exact Or.inl ⟨_, rfl, by simp⟩
  | some q =>
    obtain ⟨f, p'⟩ := q
    obtain ⟨blanks, hrest, -, hne, hoffset, hoffset'⟩ := Splitter.next?_spec hnext
    have hpos := byteSize_pos hne
    rw [hrest] at hp
    have hp' : At s.text p'.offset p'.rest := by
      rw [hoffset', hoffset]
      exact hp.add.add
    -- A fragment is not empty, so the offset grows.
    refine Or.inr ⟨(p'.offset, found ++ [piece s.start f]), rfl, ?_, hp'.le_size, p', rfl, hp',
      ?_⟩
    · dsimp only
      omega
    · simp [Splitter.fragments_of_some hnext]

/-- The fragments are cut off by slices that are there. -/
theorem fragments?_eq (s : Slice) :
    fragments? s = some ((splitFragments s.text).map (piece s.start)) := by
  have hstart : FragmentsLeft s ((splitFragments s.text).map (piece s.start)) (0, []) :=
    ⟨Splitter.start s.text, rfl, At.start s.text, rfl⟩
  obtain ⟨z, hloop, rfl⟩ := exists_loop? (fun _ => fragmentsTurn?_cases) hstart
  exact hloop

end Sliced

end TemplateCatalog
