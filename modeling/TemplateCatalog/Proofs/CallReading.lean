/-
Reading the calls of catalogs.

A call is a function name with arguments in brackets, and an argument is a complete string
literal or `count` (`Call`, `Call.WellFormed`). Every call can be read in one way only:

* `takeArgument?_eq_some_iff` — an argument ends where its own quote closes it, whatever
  follows;
* `Call.read?_eq_some_iff` — a text is read as a call exactly if it is the written form of it;
* `Call.existsUnique_of_wellFormed` — so the written form of a call is that of no other.
-/
import TemplateCatalog.Catalog.Format
import TemplateCatalog.Proofs.CharacterClasses
import TemplateCatalog.Proofs.Phrasing
import TemplateCatalog.Proofs.Quotation

namespace TemplateCatalog

open Text

namespace Catalog

/-! ### Arguments -/

/-- An argument of a call. -/
inductive CallArgument where
  /-- A string literal, by what stands between its quotes. -/
  | literal (body : Text)
  /-- The placeholder of a count. -/
  | count
  deriving DecidableEq, Repr

/-- The argument as it is written. -/
def CallArgument.toText : CallArgument → Text
  | .literal body => '"' :: body ++ ['"']
  | .count => ['c', 'o', 'u', 'n', 't']

/-- The literal of the argument is complete, and on one line. -/
def CallArgument.Complete : CallArgument → Prop
  | .literal body => Quoted '"' body ∧ '\n' ∉ body
  | .count => True

theorem CallArgument.Complete.not_mem_toText {a : CallArgument} (h : a.Complete) :
    '\n' ∉ a.toText := by
  cases a with
  | literal body =>
    rw [toText, List.mem_append, List.mem_cons, List.mem_singleton, not_or, not_or]
    exact ⟨⟨by decide, h.2⟩, by decide⟩
  | count => decide

/-- Takes an argument off the front of a text. -/
def takeArgument? : Text → Option (CallArgument × Text)
  | '"' :: s =>
    match untilQuote '"' s with
    | none => none
    | some (body, r) => if '\n' ∈ body then none else some (.literal body, r)
  | 'c' :: 'o' :: 'u' :: 'n' :: 't' :: r => some (.count, r)
  | _ => none

/-- An argument is taken off whatever follows it, and nothing else is. -/
theorem takeArgument?_eq_some_iff {s r : Text} {a : CallArgument} :
    takeArgument? s = some (a, r) ↔ s = a.toText ++ r ∧ a.Complete := by
  constructor
  · -- The branches of the reader: a quoted text that ends, the count, anything else.
    intro h
    unfold takeArgument? at h
    split at h
    · split at h
      · exact absurd h (by simp)
      · rename_i body t hq
        split at h
        · exact absurd h (by simp)
        · rename_i hn
          simp only [Option.some.injEq, Prod.mk.injEq] at h
          obtain ⟨rfl, rfl⟩ := h
          obtain ⟨hs, hb⟩ := (untilQuote_eq_some_iff (by decide)).1 hq
          exact ⟨by simp [CallArgument.toText, hs], hb, hn⟩
    · simp only [Option.some.injEq, Prod.mk.injEq] at h
      obtain ⟨rfl, rfl⟩ := h
      exact ⟨rfl, trivial⟩
    · exact absurd h (by simp)
  · rintro ⟨rfl, h⟩
    cases a with
    | literal body =>
      obtain ⟨hb, hn⟩ := h
      have hs : (CallArgument.literal body).toText ++ r = '"' :: (body ++ '"' :: r) := by
        simp [CallArgument.toText]
      rw [hs, takeArgument?, untilQuote_append (by decide) hb]
      exact if_neg hn
    | count => rfl

theorem takeArgument?_length {s r : Text} {a : CallArgument}
    (h : takeArgument? s = some (a, r)) : r.length < s.length := by
  rw [(takeArgument?_eq_some_iff.1 h).1, List.length_append]
  cases a <;> simp [CallArgument.toText]

/-- The arguments after the first one, up to the end of the call. -/
def furtherText (arguments : List CallArgument) : Text :=
  arguments.flatMap (fun a => ", ".toList ++ a.toText) ++ ");".toList

/-- Reads the arguments after the first one. -/
def readFurther? : Text → Option (List CallArgument)
  | [')', ';'] => some []
  | ',' :: ' ' :: s =>
    match _h : takeArgument? s with
    | none => none
    | some (a, r) => (readFurther? r).map (a :: ·)
  | _ => none
termination_by s => s.length
decreasing_by
  have := takeArgument?_length _h
  simp only [List.length_cons]
  omega

theorem readFurther?_eq_some_iff {s : Text} {arguments : List CallArgument} :
    readFurther? s = some arguments ↔
      s = furtherText arguments ∧ ∀ a ∈ arguments, a.Complete := by
  constructor
  · intro h
    -- The reader takes a separator and an argument a step.
    fun_induction readFurther? s generalizing arguments with
    | case1 =>
      obtain rfl := Option.some.inj h
      exact ⟨rfl, by simp⟩
    | case2 => exact absurd h (by simp)
    | case3 s a r ha ih =>
      obtain ⟨more, hm, rfl⟩ := Option.map_eq_some_iff.1 h
      obtain ⟨hr, hmore⟩ := ih hm
      obtain ⟨hs, hcomplete⟩ := takeArgument?_eq_some_iff.1 ha
      refine ⟨by simp [furtherText, hs, hr], ?_⟩
      intro b hb
      rcases List.mem_cons.1 hb with rfl | hb
      · exact hcomplete
      · exact hmore b hb
    | case4 => exact absurd h (by simp)
  · rintro ⟨rfl, h⟩
    induction arguments with
    | nil => simp [furtherText, readFurther?]
    | cons a arguments ih =>
      have hs : furtherText (a :: arguments) = ',' :: ' ' ::
          (a.toText ++ furtherText arguments) := by
        simp [furtherText]
      have ha : takeArgument? (a.toText ++ furtherText arguments) =
          some (a, furtherText arguments) :=
        takeArgument?_eq_some_iff.2 ⟨rfl, h a (List.mem_cons_self ..)⟩
      rw [hs, readFurther?]
      split
      · rename_i hn
        rw [ha] at hn
        exact absurd hn (by simp)
      · rename_i hn
        rw [ha, Option.some.injEq, Prod.mk.injEq] at hn
        rw [← hn.1, ← hn.2, ih fun b hb => h b (List.mem_cons_of_mem _ hb)]
        rfl

/-! ### Calls -/

/-- A call of a function. -/
structure Call where
  function : Text
  arguments : List CallArgument
  deriving DecidableEq, Repr

/-- Characters of function names and of the namespaces in front of them. -/
def isFunctionChar (c : Char) : Bool := isWordChar c || c == ':'

namespace Call

/-- The call as it is written. -/
def toText (c : Call) : Text := call c.function (c.arguments.map CallArgument.toText)

/-- The call has a name and at least one argument, and its literals are complete. -/
structure WellFormed (c : Call) : Prop where
  named : c.function ≠ []
  function : ∀ x ∈ c.function, isFunctionChar x = true
  given : c.arguments ≠ []
  complete : ∀ a ∈ c.arguments, a.Complete

theorem toText_cons (function : Text) (a : CallArgument) (arguments : List CallArgument) :
    toText ⟨function, a :: arguments⟩ = function ++ '(' ::
      (a.toText ++ furtherText arguments) := by
  -- Between texts, or in front of each but the first: the separators are the same.
  have hsep : ∀ (s : Text) (ts : List Text),
      ", ".toList.intercalate (s :: ts) = s ++ ts.flatMap (", ".toList ++ ·) := by
    intro s ts
    induction ts generalizing s with
    | nil => simp [List.intercalate]
    | cons t ts ih =>
      rw [List.intercalate_cons_cons, ih, List.flatMap_cons, List.append_assoc,
        List.append_assoc]
  rw [toText, call, List.map_cons, hsep, furtherText, List.flatMap_map]
  simp

/-- Reads the bracket and what follows it, up to the end. -/
def readArguments? : Text → Option (List CallArgument)
  | '(' :: s =>
    match takeArgument? s with
    | none => none
    | some (a, r) => (readFurther? r).map (a :: ·)
  | _ => none

theorem readArguments?_eq_some_iff {s : Text} {arguments : List CallArgument} :
    readArguments? s = some arguments ↔ ∃ a more, arguments = a :: more ∧
      s = '(' :: (a.toText ++ furtherText more) ∧ ∀ b ∈ arguments, b.Complete := by
  constructor
  · intro h
    unfold readArguments? at h
    split at h
    · split at h
      · exact absurd h (by simp)
      · rename_i a r ha
        obtain ⟨more, hm, rfl⟩ := Option.map_eq_some_iff.1 h
        obtain ⟨hs, hcomplete⟩ := takeArgument?_eq_some_iff.1 ha
        obtain ⟨hr, hmore⟩ := readFurther?_eq_some_iff.1 hm
        exact ⟨a, more, rfl, by rw [hs, hr], List.forall_mem_cons.2 ⟨hcomplete, hmore⟩⟩
    · exact absurd h (by simp)
  · rintro ⟨a, more, rfl, rfl, h⟩
    obtain ⟨hcomplete, hmore⟩ := List.forall_mem_cons.1 h
    rw [readArguments?, takeArgument?_eq_some_iff.2 ⟨rfl, hcomplete⟩]
    dsimp only
    rw [readFurther?_eq_some_iff.2 ⟨rfl, hmore⟩]
    rfl

/-- Reads a text that is exactly one call. -/
def read? (s : Text) : Option Call :=
  let function := s.takeWhile isFunctionChar
  if function.isEmpty then none
  else (readArguments? (s.dropWhile isFunctionChar)).map (⟨function, ·⟩)

/-- A text is read as a call exactly if it is the written form of it. -/
theorem read?_eq_some_iff {s : Text} {c : Call} :
    read? s = some c ↔ c.WellFormed ∧ c.toText = s := by
  constructor
  · intro h
    unfold read? at h
    dsimp only at h
    split at h
    · exact absurd h (by simp)
    · rename_i hne
      obtain ⟨arguments, hargs, rfl⟩ := Option.map_eq_some_iff.1 h
      obtain ⟨a, more, rfl, hs, hcomplete⟩ := readArguments?_eq_some_iff.1 hargs
      refine ⟨⟨by simpa using hne, fun x hx => List.mem_takeWhile_imp hx, by simp, hcomplete⟩,
        ?_⟩
      rw [toText_cons, ← hs, List.takeWhile_append_dropWhile]
  · rintro ⟨h, rfl⟩
    obtain ⟨function, arguments⟩ := c
    cases arguments with
    | nil => exact absurd rfl h.given
    | cons a more =>
      -- The name ends at the bracket, which is no character of names.
      have hstop : ∀ x ∈ ('(' :: (a.toText ++ furtherText more)).head?,
          isFunctionChar x = false := by
        intro x hx
        obtain rfl := Option.some.inj hx
        decide
      have hname : function.isEmpty = false := by simpa using h.named
      rw [toText_cons, read?, takeWhile_append_of_stop hstop, dropWhile_append_of_stop hstop,
        List.takeWhile_eq_self_iff.2 h.function, List.dropWhile_eq_nil_iff.2 h.function,
        List.nil_append, readArguments?_eq_some_iff.2 ⟨a, more, rfl, rfl, h.complete⟩]
      simp [hname]

/-- The written form of a call is that of no other call. -/
theorem existsUnique_of_wellFormed {c : Call} (h : c.WellFormed) :
    ∃! c' : Call, c'.WellFormed ∧ c'.toText = c.toText := by
  refine ⟨c, ⟨h, rfl⟩, fun c' hc' => ?_⟩
  have hr := read?_eq_some_iff.2 ⟨h, rfl⟩
  rw [read?_eq_some_iff.2 hc'] at hr
  exact Option.some.inj hr

theorem WellFormed.not_mem_toText {c : Call} (h : c.WellFormed) : '\n' ∉ c.toText := by
  obtain ⟨function, arguments⟩ := c
  have hname : '\n' ∉ function := by
    intro hm
    exact absurd (h.function _ hm) (by decide)
  cases arguments with
  | nil => exact absurd rfl h.given
  | cons a more =>
    obtain ⟨ha, hmore⟩ := List.forall_mem_cons.1 h.complete
    have hfurther : '\n' ∉ furtherText more := by
      simp only [furtherText, List.mem_append, List.mem_flatMap, not_or, not_exists, not_and]
      exact ⟨fun b hb => ⟨by decide, (hmore b hb).not_mem_toText⟩, by decide⟩
    rw [toText_cons, List.mem_append, List.mem_cons, List.mem_append, not_or, not_or, not_or]
    exact ⟨hname, by decide, ha.not_mem_toText, hfurther⟩

end Call

end Catalog

end TemplateCatalog
