/-
A configuration can be read back from its JSON text.

What is printed for a field is read as the value of this field (`readField_append`), and what
is no field is passed over. So reading the members of an object copies the fields that they
hold, one after the other (`readMembers_separated`); which other members are there and in which
order all of them stand makes no difference. What is printed holds every field but an output
that is not given, and for that the default is the same.

The main result, `parse_printed_fields`, says so for the text that is printed, and for any
object that holds the same fields.
-/
import TemplateCatalog.Config.Printing
import TemplateCatalog.Proofs.JsonGrammar
import Mathlib.Data.List.Basic

namespace TemplateCatalog

namespace Json

/-! ### Strings that are printed -/

theorem hexValue?_digitChar {n : Nat} (h : n < 16) : hexValue? (Nat.digitChar n) = some n := by
  have hall : ∀ n < 16, hexValue? (Nat.digitChar n) = some n := by decide
  exact hall n h

theorem isCodeUnit_hexPair {n : Nat} (h : n < 256) :
    IsCodeUnit ('0' :: '0' :: hexPair n) n := by
  have hdigits : ((0 * 16 + 0) * 16 + n / 16) * 16 + n % 16 = n := by omega
  have hunit : IsCodeUnit ['0', '0', Nat.digitChar (n / 16), Nat.digitChar (n % 16)] _ :=
    .digits (hexValue?_digitChar (by decide : 0 < 16))
      (hexValue?_digitChar (by decide : 0 < 16)) (hexValue?_digitChar (by omega))
      (hexValue?_digitChar (by omega))
  rwa [hdigits] at hunit

/-- A character as it is printed, in front of a string. -/
theorem Spells.quotedChar_append {body s : Text} (h : Spells body s) (c : Char) :
    Spells (quotedChar c ++ body) (c :: s) := by
  rw [quotedChar]
  split_ifs with hquote hb hf hn hr ht hcontrol
  · refine .short ?_ h
    rcases hquote with rfl | rfl <;> rfl
  · exact hb ▸ .short rfl h
  · exact hf ▸ .short rfl h
  · exact hn ▸ .short rfl h
  · exact hr ▸ .short rfl h
  · exact ht ▸ .short rfl h
  · have hsmall : c.toNat < 32 := by simpa [isControl] using hcontrol
    have hlow : isLowHalf c.toNat = false := by simp [isLowHalf]; omega
    have hhigh : isHighHalf c.toNat = false := by simp [isHighHalf]; omega
    have hspells := Spells.unit (isCodeUnit_hexPair (by omega)) hlow hhigh h
    rwa [Char.ofNat_toNat] at hspells
  · rw [not_or] at hquote
    exact .plain hquote.1 hquote.2 (Bool.eq_false_iff.2 hcontrol) h

theorem spells_quoted (s : Text) : Spells (s.flatMap quotedChar) s := by
  induction s with
  | nil => exact .nil
  | cons c s ih =>
    rw [List.flatMap_cons]
    exact ih.quotedChar_append c

theorem quote_append (s r : Text) :
    quote s ++ r = '"' :: (s.flatMap quotedChar ++ '"' :: r) := by
  simp [quote]

theorem readString_quoted (s r : Text) :
    readString (s.flatMap quotedChar ++ '"' :: r) = .ok (s, r) :=
  readString_append (spells_quoted s) r

theorem readText_quote {b : Text} (hb : IsBlank b) (s r : Text) :
    readText (b ++ (quote s ++ r)) = .ok (s, r) := by
  rw [readText, quote_append, skipSpaces_append hb rfl]
  exact (if_pos rfl).trans (readString_quoted s r)

/-! ### Lists that are printed -/

theorem isBlank_spaces (n : Nat) : IsBlank (Text.spaces n) := by
  intro c hc
  rw [(List.mem_replicate.1 hc).2]
  rfl

theorem isBlank_newline_spaces (n : Nat) : IsBlank ('\n' :: Text.spaces n) :=
  List.forall_mem_cons.2 ⟨rfl, isBlank_spaces n⟩

/-- Items with a line each are separated. -/
theorem separated_lines (depth : Nat) (u : Text) (us : List Text) :
    Separated (u :: us)
      ('\n' :: ([',', '\n'].intercalate ((u :: us).map (Text.spaces (2 * (depth + 1)) ++ ·)) ++
        '\n' :: Text.spaces (2 * depth))) := by
  induction us generalizing u with
  | nil =>
    have h : Separated [u] _ :=
      .one (isBlank_newline_spaces (2 * (depth + 1))) (isBlank_newline_spaces (2 * depth))
    simpa using h
  | cons v us ih =>
    have h := Separated.more (u := u) (isBlank_newline_spaces (2 * (depth + 1))) isBlank_nil
      (ih v)
    rw [List.map_cons, List.map_cons, List.intercalate_cons_cons, ← List.map_cons]
    simpa using h

theorem exists_bracketed (opening closing : Char) (depth : Nat) {us : List Text}
    (hne : us ≠ []) :
    ∃ s, Separated us s ∧ bracketed opening closing depth us = opening ::
      (s ++ [closing]) := by
  obtain ⟨u, us, rfl⟩ := List.exists_cons_of_ne_nil hne
  exact ⟨_, separated_lines depth u us, by simp [bracketed]⟩

/-- The first of separated parts stands in front. -/
theorem Separated.skipSpaces_append {us : List Text} {s : Text} (h : Separated us s) {c : Char}
    (hus : ∀ u ∈ us, u.head? = some c) (hc : isSpace c = false) (r : Text) :
    ∃ t, skipSpaces (s ++ r) = c :: t := by
  have hfirst {b : Text} (hb : IsBlank b) {u : Text} (hu : u.head? = some c) (t : Text) :
      ∃ t', skipSpaces (b ++ (u ++ t)) = c :: t' := by
    obtain ⟨w, rfl⟩ := List.head?_eq_some_iff.1 hu
    exact ⟨w ++ t, Json.skipSpaces_append hb hc (w ++ t)⟩
  cases h with
  | one hb _ =>
    rw [List.append_assoc, List.append_assoc]
    exact hfirst hb (hus _ List.mem_cons_self) _
  | more hb _ _ =>
    rw [List.append_assoc, List.append_assoc]
    exact hfirst hb (hus _ List.mem_cons_self) _

section Elements

variable {b s t : Text} {xs : List Text}

theorem readElements_eq (first : Bool) (s : Text) :
    readElements first s =
      match skipSpaces s with
      | [] => .error .truncated
      | c :: r =>
        if c = ']' then .ok ([], r)
        else
          match elementStart first c r with
          | .error e => .error e
          | .ok t =>
            match readText t with
            | .error e => .error e
            | .ok (x, u) =>
              match readElements false u with
              | .error e => .error e
              | .ok (xs, v) => .ok (x :: xs, v) := by
  -- The definition carries the proofs that its rests get shorter; without them it is this
  -- match.
  rw [readElements]
  split
  · rename_i hs
    simp only [hs]
  · rename_i c r hs
    simp only [hs]
    by_cases hc : c = ']'
    · rw [if_pos hc, if_pos hc]
    · rw [if_neg hc, if_neg hc]
      split
      · rename_i ht
        simp only [ht]
      · rename_i ht
        simp only [ht]
        split
        · rename_i hx
          simp only [hx]
        · rename_i x u hx
          cases hxs : readElements false u <;> simp only [hx, hxs]

theorem readElements_closer (hb : IsBlank b) (first : Bool) (r : Text) :
    readElements first (b ++ ']' :: r) = .ok ([], r) := by
  rw [readElements_eq, skipSpaces_append hb rfl]
  exact if_pos rfl

/-- A string behind a comma is read, then what is left. -/
theorem readElements_comma {b' r : Text} (hb : IsBlank b) (hb' : IsBlank b') (x : Text)
    (ht : readElements false t = .ok (xs, r)) :
    readElements false (b ++ ',' :: (b' ++ (quote x ++ t))) = .ok (x :: xs, r) := by
  have hstart :
      elementStart false ',' (b' ++ (quote x ++ t)) = .ok (b' ++ (quote x ++ t)) := by
    have hhead : (skipSpaces (b' ++ (quote x ++ t))).head? = some '"' := by
      rw [quote_append, skipSpaces_append hb' rfl]
      rfl
    simp [elementStart, hhead]
  rw [readElements_eq, skipSpaces_append hb rfl]
  simp only [Char.reduceEq, if_false, hstart, readText_quote hb', ht]

/-- The first string is read as if it stood behind a comma. -/
theorem readElements_first {w : Text} (h : skipSpaces t = '"' :: w) :
    readElements true t = readElements false (',' :: t) := by
  have hstart : elementStart false ',' t = .ok t := by simp [elementStart, h]
  have htext : readText ('"' :: w) = readText t := by
    rw [readText, readText, h, skipSpaces_cons rfl]
  rw [readElements_eq, readElements_eq, h, skipSpaces_cons rfl]
  simp only [Char.reduceEq, if_false, hstart]
  rw [← htext]
  rfl

/-- The strings of a list that is left. -/
theorem readElements_separated (hs : Separated (xs.map quote) s) (hb : IsBlank b) (r : Text) :
    readElements false (b ++ ',' :: (s ++ ']' :: r)) = .ok (xs, r) := by
  generalize hus : xs.map quote = us at hs
  induction hs generalizing xs b with
  | @one u b1 b2 hb1 hb2 =>
    obtain ⟨x, rfl, rfl⟩ := List.map_eq_singleton_iff.1 hus
    rw [List.append_assoc, List.append_assoc]
    exact readElements_comma hb hb1 x (readElements_closer hb2 false r)
  | @more us u b1 b2 s hb1 hb2 _ ih =>
    obtain ⟨x, xs, rfl, rfl, rfl⟩ := List.map_eq_cons_iff.1 hus
    rw [List.append_assoc, List.append_assoc, List.append_assoc]
    exact readElements_comma hb hb1 x (ih hb2 rfl)

theorem readElements_list (hs : Separated (xs.map quote) s) (r : Text) :
    readElements true (s ++ ']' :: r) = .ok (xs, r) := by
  have hquote : ∀ u ∈ xs.map quote, u.head? = some '"' := by
    intro u hu
    obtain ⟨x, -, rfl⟩ := List.mem_map.1 hu
    rfl
  -- A list is read like one that goes on, as if a comma stood behind the bracket.
  obtain ⟨w, hw⟩ := hs.skipSpaces_append hquote rfl (']' :: r)
  rw [readElements_first hw]
  exact readElements_separated hs isBlank_nil r

theorem readTexts_list (hb : IsBlank b) (depth : Nat) (xs : List Text) (r : Text) :
    readTexts (b ++ (list depth xs ++ r)) = .ok (xs, r) := by
  obtain ⟨s, hlist, hs⟩ : ∃ s, list depth xs = '[' :: (s ++ [']']) ∧
      readElements true (s ++ ']' :: r) = .ok (xs, r) := by
    by_cases hnil : xs = []
    · refine ⟨[], by rw [hnil]; rfl, ?_⟩
      rw [hnil]
      exact readElements_closer isBlank_nil true r
    · have hquotes : xs.map quote ≠ [] := List.map_eq_nil_iff.not.2 hnil
      obtain ⟨s, hs, hbracketed⟩ := exists_bracketed '[' ']' depth hquotes
      exact ⟨s, hbracketed, readElements_list hs r⟩
  rw [hlist, readTexts, List.cons_append, skipSpaces_append hb rfl, List.append_assoc]
  exact (if_pos rfl).trans hs

end Elements

/-! ### Other values that are printed -/

section Values

variable {b : Text}

theorem readFormat_name (hb : IsBlank b) (f : CatalogFormat) (r : Text) :
    readFormat (b ++ (quote f.name ++ r)) = .ok (f, r) := by
  have hname : CatalogFormat.ofName? f.name = some f := by cases f <;> rfl
  rw [readFormat, quote_append, skipSpaces_append hb rfl]
  refine (if_pos rfl).trans ?_
  rw [readFormatName, readString_quoted]
  simp only [hname]

theorem readFlag_flag (hb : IsBlank b) (v : Bool) (r : Text) :
    readFlag (b ++ (Config.flag v ++ r)) = .ok (v, r) := by
  cases v with
  | true =>
    have hspaces : skipSpaces (b ++ (Config.flag true ++ r)) = 't' :: ("rue".toList ++ r) :=
      skipSpaces_append hb rfl _
    rw [readFlag, hspaces]
    refine (if_pos rfl).trans ?_
    rw [expectWord_append]
    rfl
  | false =>
    have hspaces : skipSpaces (b ++ (Config.flag false ++ r)) = 'f' :: ("alse".toList ++ r) :=
      skipSpaces_append hb rfl _
    rw [readFlag, hspaces]
    refine (if_neg (by decide)).trans ((if_pos rfl).trans ?_)
    rw [expectWord_append]
    rfl

theorem readOptionalText_quote (hb : IsBlank b) (s r : Text) :
    readOptionalText (b ++ (quote s ++ r)) = .ok (some s, r) := by
  have hspaces : skipSpaces (b ++ (quote s ++ r)) = quote s ++ r := by
    rw [quote_append]
    exact skipSpaces_append hb rfl _
  have htext : readText (quote s ++ r) = .ok (s, r) := readText_quote isBlank_nil s r
  rw [readOptionalText, hspaces]
  split
  · rename_i hn
    rw [quote_append] at hn
    cases hn
  · rw [htext]

end Values

end Json

/-! ### Fields -/

namespace Config

open Json

variable {c d : Config} {f g : ConfigField}

/-- Two configurations have the same value in a field. -/
def Agree (f : ConfigField) (c d : Config) : Prop :=
  match f with
  | .includes => c.includes = d.includes
  | .ignores => c.ignores = d.ignores
  | .extensions => c.extensions = d.extensions
  | .format => c.format = d.format
  | .originComments => c.originComments = d.originComments
  | .output => c.output = d.output

theorem eq_of_agree (h : ∀ f, Agree f c d) : c = d := by
  cases c
  cases d
  rw [Config.mk.injEq]
  exact ⟨h .includes, h .ignores, h .extensions, h .format, h .originComments, h .output⟩

/-- The configuration `d` with a field of `c`. -/
def copyField (f : ConfigField) (c d : Config) : Config :=
  match f with
  | .includes => { d with includes := c.includes }
  | .ignores => { d with ignores := c.ignores }
  | .extensions => { d with extensions := c.extensions }
  | .format => { d with format := c.format }
  | .originComments => { d with originComments := c.originComments }
  | .output => { d with output := c.output }

theorem agree_copyField (h : f = g ∨ Agree f c d) : Agree f c (copyField g c d) := by
  rcases h with rfl | h
  · cases f <;> rfl
  · cases g <;> cases f <;> first | exact h | rfl

/-- The configuration `d` with fields of `c`. -/
def copyFields (c : Config) (fs : List ConfigField) (d : Config) : Config :=
  fs.foldl (fun d f => copyField f c d) d

theorem agree_copyFields {fs : List ConfigField} (h : f ∈ fs ∨ Agree f c d) :
    Agree f c (copyFields c fs d) := by
  induction fs generalizing d with
  | nil => exact h.resolve_left List.not_mem_nil
  | cons g fs ih =>
    refine ih ?_
    rw [List.mem_cons, or_assoc] at h
    rcases h with h | h | h
    · exact Or.inr (agree_copyField (Or.inl h))
    · exact Or.inl h
    · exact Or.inr (agree_copyField (Or.inr h))

/-- What is not printed has its default. -/
theorem agree_default (h : c.fieldValue? f = none) : Agree f c {} := by
  cases f with
  | output => exact Option.map_eq_none_iff.1 h
  | _ => cases h

/-- The value that is printed for a field is read. -/
theorem readField_append {v b : Text} (h : c.fieldValue? f = some v) (hb : IsBlank b)
    (d : Config) (r : Text) : readField f d (b ++ (v ++ r)) = .ok (copyField f c d, r) := by
  cases f with
  | output =>
    obtain ⟨s, hs, rfl⟩ := Option.map_eq_some_iff.1 h
    rw [readField, readOptionalText_quote hb, onValue, copyField, hs]
  | format =>
    cases h
    rw [readField, readFormat_name hb, onValue, copyField]
  | originComments =>
    cases h
    rw [readField, readFlag_flag hb, onValue, copyField]
  | _ =>
    cases h
    rw [readField, readTexts_list hb, onValue, copyField]

end Config

/-! ### Members -/

namespace Json

/-- A member whose key stands for a name. -/
structure NamedMember extends Member where
  name : Text
  spells : Spells key name

namespace NamedMember

/-- The field that the member is for. -/
def field? (m : NamedMember) : Option ConfigField := ConfigField.ofKey? m.name

/-- The name and the value of the member. -/
def entry (m : NamedMember) : Text × Text := (m.name, m.value)

/-- A member as it is printed. -/
def printed (entry : Text × Text) : NamedMember where
  key := entry.1.flatMap quotedChar
  value := entry.2
  before := []
  after := [' ']
  isBody := (spells_quoted entry.1).isBody
  isBlank_before := isBlank_nil
  isBlank_after := isBlank_spaces 1
  name := entry.1
  spells := spells_quoted entry.1

theorem text_printed (name value : Text) :
    (printed (name, value)).text = member name value := by
  simp [printed, Member.text, member, quote]

end NamedMember

end Json

namespace Config

open Json

variable {c : Config} {p : PartialConfig} {m : NamedMember} {ms : List NamedMember}
    {b s r : Text}

/-- A member may stand in an object for `c`: it holds what is printed for its field, or a value
that is passed over. -/
structure Fits (c : Config) (m : NamedMember) : Prop where
  field : ∀ f, m.field? = some f → c.fieldValue? f = some m.value
  other : m.field? = none → IsValue m.value

/-- What is known after a member of an object for `c`. -/
def absorb (c : Config) (p : PartialConfig) (m : NamedMember) : PartialConfig :=
  ⟨copyFields c m.field?.toList p.config, m.field?.toList ++ p.given⟩

theorem readMember_append (hm : c.Fits m) (hnew : ∀ f, m.field? = some f → f ∉ p.given)
    (hr : Ends r) :
    readMember p (m.key ++ '"' :: (m.before ++ ':' :: (m.after ++ (m.value ++ r)))) =
      .ok (absorb c p m, r) := by
  rw [readMember, readString_append m.spells, absorb]
  cases hf : m.field? with
  | none =>
    have hkey : ConfigField.ofKey? m.name = none := hf
    simp only [hkey, expect_append m.isBlank_before (rfl : isSpace ':' = false),
      skipValue_append m.isBlank_after (hm.other hf) hr]
    rfl
  | some f =>
    have hkey : ConfigField.ofKey? m.name = some f := hf
    simp only [hkey, if_neg (hnew f hf),
      expect_append m.isBlank_before (rfl : isSpace ':' = false),
      readField_append (hm.field f hf) m.isBlank_after]
    rfl

theorem readMembers_eq (first : Bool) (p : PartialConfig) (s : Text) :
    readMembers first p s =
      match skipSpaces s with
      | [] => .error .truncated
      | d :: r =>
        if d = '\x7d' then .ok (p.config, r)
        else
          match memberStart first d r with
          | .error e => .error e
          | .ok t =>
            match readMember p t with
            | .error e => .error e
            | .ok (q, u) => readMembers false q u := by
  rw [readMembers]
  grind

theorem readMembers_closer (hb : IsBlank b) (first : Bool) (p : PartialConfig) (r : Text) :
    readMembers first p (b ++ '\x7d' :: r) = .ok (p.config, r) := by
  rw [readMembers_eq, skipSpaces_append hb rfl]
  exact if_pos rfl

/-- A member behind a comma is read, then what is left. -/
theorem readMembers_comma {b' : Text} (hb : IsBlank b) (hb' : IsBlank b') (hm : c.Fits m)
    (hnew : ∀ f, m.field? = some f → f ∉ p.given) (hr : Ends r) :
    readMembers false p (b ++ ',' :: (b' ++ (m.text ++ r))) = readMembers false (absorb c p m)
    r := by
  have hstart (t : Text) : memberStart false ',' (b' ++ '"' :: t) = .ok t :=
    expect_append hb' rfl t
  rw [readMembers_eq, skipSpaces_append hb rfl, m.text_append]
  simp only [Char.reduceEq, if_false, hstart, readMember_append hm hnew hr]

/-- The first member is read as if it stood behind a comma. -/
theorem readMembers_first {t w : Text} (p : PartialConfig) (h : skipSpaces t = '"' :: w) :
    readMembers true p t = readMembers false p (',' :: t) := by
  have hstart : memberStart false ',' t = .ok w := by
    rw [memberStart, if_neg Bool.false_ne_true, if_pos rfl, expect, h]
    exact if_pos rfl
  rw [readMembers_eq, readMembers_eq, h, skipSpaces_cons rfl]
  simp only [Char.reduceEq, if_false, hstart]
  rfl

theorem filterMap_field?_cons (m : NamedMember) (ms : List NamedMember) :
    (m :: ms).filterMap NamedMember.field? = m.field?.toList ++
      ms.filterMap NamedMember.field? := by
  rw [List.filterMap_cons]
  cases m.field? <;> rfl

/-- After a member its field is set, and the fields of those behind it are still to be set. -/
theorem nodup_absorb (h : ((m :: ms).filterMap NamedMember.field? ++ p.given).Nodup)
    (c : Config) : (∀ f, m.field? = some f → f ∉ p.given) ∧
      (ms.filterMap NamedMember.field? ++ (absorb c p m).given).Nodup := by
  rw [filterMap_field?_cons, List.append_assoc] at h
  refine ⟨fun f hf hgiven => ?_, (List.perm_append_comm_assoc _ _ _).nodup_iff.1 h⟩
  rw [hf, Option.toList_some, List.singleton_append] at h
  exact (List.nodup_cons.1 h).1 (List.mem_append_right _ hgiven)

theorem copyFields_cons (c : Config) (m : NamedMember) (ms : List NamedMember) (d : Config) :
    copyFields c (ms.filterMap NamedMember.field?) (copyFields c m.field?.toList d) =
      copyFields c ((m :: ms).filterMap NamedMember.field?) d := by
  rw [filterMap_field?_cons, copyFields, copyFields, copyFields, List.foldl_append]

/-- The fields that members hold are set one after the other, if none of them is set before. -/
theorem readMembers_separated (hs : Separated (ms.map (·.text)) s) (hms : ∀ m ∈ ms, c.Fits m)
    (hnodup : (ms.filterMap NamedMember.field? ++ p.given).Nodup) (hb : IsBlank b) (r : Text) :
    readMembers false p (b ++ ',' :: (s ++ '\x7d' :: r)) =
      .ok (copyFields c (ms.filterMap NamedMember.field?) p.config, r) := by
  generalize hus : ms.map (·.text) = us at hs
  induction hs generalizing ms p b with
  | @one u b1 b2 hb1 hb2 =>
    obtain ⟨m, rfl, rfl⟩ := List.map_eq_singleton_iff.1 hus
    obtain ⟨hnew, -⟩ := nodup_absorb hnodup c
    have hends : Ends (b2 ++ '\x7d' :: r) := ends_append hb2 (ends_closer .object r)
    rw [List.append_assoc, List.append_assoc,
      readMembers_comma hb hb1 (hms m List.mem_cons_self) hnew hends, readMembers_closer hb2,
      ← copyFields_cons]
    rfl
  | @more us u b1 b2 s hb1 hb2 _ ih =>
    obtain ⟨m, ms, rfl, rfl, rfl⟩ := List.map_eq_cons_iff.1 hus
    obtain ⟨hfits, hms⟩ := List.forall_mem_cons.1 hms
    -- The member's own field moves over to those that are given; together they stay without
    -- repetition.
    obtain ⟨hnew, hrest⟩ := nodup_absorb hnodup c
    have hends := ends_append hb2 (ends_comma (s ++ '\x7d' :: r))
    rw [List.append_assoc, List.append_assoc, List.append_assoc, List.cons_append,
      readMembers_comma hb hb1 hfits hnew hends, ih hms hrest hb2 rfl, ← copyFields_cons]
    rfl

theorem readMembers_object (hs : Separated (ms.map (·.text)) s) (hms : ∀ m ∈ ms, c.Fits m)
    (hnodup : (ms.filterMap NamedMember.field?).Nodup) (r : Text) :
    readMembers true {} (s ++ '\x7d' :: r) =
      .ok (copyFields c (ms.filterMap NamedMember.field?) {}, r) := by
  have hquote : ∀ u ∈ ms.map (·.text), u.head? = some '"' := by
    intro u hu
    obtain ⟨m, -, rfl⟩ := List.mem_map.1 hu
    rfl
  have hnodup : (ms.filterMap NamedMember.field? ++ ({} : PartialConfig).given).Nodup := by
    rwa [List.append_nil]
  obtain ⟨w, hw⟩ := hs.skipSpaces_append hquote rfl ('\x7d' :: r)
  rw [readMembers_first {} hw]
  exact readMembers_separated hs hms hnodup isBlank_nil r

/-! ### Objects with the printed fields -/

/-- The members that are printed, each with the name and the value of its field. -/
def printedFields (c : Config) : List (Text × Text) :=
  ConfigField.all.filterMap fun f => (c.fieldValue? f).map (f.key, ·)

/-- The members that are fields are those that are printed, in any order; the others hold any
values. -/
structure Rearranges (c : Config) (ms : List NamedMember) : Prop where
  fields : ((ms.filter (·.field?.isSome)).map NamedMember.entry).Perm c.printedFields
  others : ∀ m ∈ ms, m.field? = none → IsValue m.value

/-- The order of the members makes no difference. -/
theorem Rearranges.perm {ms' : List NamedMember} (h : c.Rearranges ms) (hperm : ms.Perm ms') :
    c.Rearranges ms' where
  fields := ((hperm.symm.filter _).map _).trans h.fields
  others m hm := h.others m (hperm.mem_iff.2 hm)

/-- A member may be added that is no field. -/
theorem Rearranges.cons (h : c.Rearranges ms) (hm : m.field? = none)
    (hvalue : IsValue m.value) : c.Rearranges (m :: ms) where
  fields := by
    rw [List.filter_cons_of_neg (by simp [hm])]
    exact h.fields
  others := List.forall_mem_cons.2 ⟨fun _ => hvalue, h.others⟩

theorem ofKey?_key (f : ConfigField) : ConfigField.ofKey? f.key = some f := by cases f <;> rfl

/-- The fields of the members are those that are printed. -/
theorem Rearranges.fields_perm (h : c.Rearranges ms) :
    (ms.filterMap NamedMember.field?).Perm (ConfigField.all.filter fun f =>
      (c.fieldValue? f).isSome) := by
  have hprinted : c.printedFields.filterMap (fun e => ConfigField.ofKey? e.1) =
      ConfigField.all.filter fun f => (c.fieldValue? f).isSome := by
    rw [printedFields, List.filterMap_filterMap, ← List.filterMap_eq_filter]
    refine List.filterMap_congr fun f _ => ?_
    cases hv : c.fieldValue? f <;> simp [hv, ofKey?_key, Option.guard]
  have hfields : ((ms.filter (·.field?.isSome)).map NamedMember.entry).filterMap
      (fun e => ConfigField.ofKey? e.1) = ms.filterMap NamedMember.field? := by
    rw [List.filterMap_map, List.filterMap_filter]
    refine List.filterMap_congr fun m _ => ?_
    cases hf : m.field? with
    | none => rfl
    | some f => exact hf
  rw [← hprinted, ← hfields]
  exact h.fields.filterMap _

theorem Rearranges.fits (h : c.Rearranges ms) (hm : m ∈ ms) : c.Fits m := by
  refine ⟨fun f hf => ?_, h.others m hm⟩
  have hentry : m.entry ∈ c.printedFields :=
    h.fields.subset (List.mem_map_of_mem (List.mem_filter.2 ⟨hm, hf ▸ rfl⟩))
  obtain ⟨g, -, hg⟩ := List.mem_filterMap.1 hentry
  obtain ⟨v, hv, hgv⟩ := Option.map_eq_some_iff.1 hg
  obtain ⟨hkey, hvalue⟩ := Prod.mk.inj hgv
  have hfg : ConfigField.ofKey? m.name = some g := hkey ▸ ofKey?_key g
  obtain rfl := Option.some.inj (hf.symm.trans hfg)
  rw [hv, hvalue]

theorem skipSpaces_blank (hb : IsBlank b) : skipSpaces b = [] := List.dropWhile_eq_nil_iff.2 hb

theorem parse_of_rearranges (h : c.Rearranges ms) (hs : Separated (ms.map (·.text)) s)
    {b b' : Text} (hb : IsBlank b) (hb' : IsBlank b') :
    Config.parse (b ++ '\x7b' :: (s ++ '\x7d' :: b')) = .ok c := by
  have hperm := h.fields_perm
  have hnodup : (ms.filterMap NamedMember.field?).Nodup :=
    hperm.nodup_iff.2 ((by decide : ConfigField.all.Nodup).filter _)
  have hread := readMembers_object hs (fun m hm => h.fits hm) hnodup b'
  have hc : copyFields c (ms.filterMap NamedMember.field?) {} = c := by
    refine (eq_of_agree fun f => agree_copyFields ?_).symm
    cases hv : c.fieldValue? f with
    -- What no member holds is not printed, and then the default is right.
    | none => exact Or.inr (agree_default hv)
    | some v =>
      have hall : f ∈ ConfigField.all := by cases f <;> decide
      exact Or.inl (hperm.symm.subset (List.mem_filter.2 ⟨hall, hv ▸ rfl⟩))
  rw [hc] at hread
  have hconfig : readConfig (b ++ '\x7b' :: (s ++ '\x7d' :: b')) = .ok (c, b') := by
    rw [readConfig, skipSpaces_append hb rfl]
    exact (if_pos rfl).trans hread
  rw [Config.parse, hconfig]
  simp only [skipSpaces_blank hb', List.isEmpty_nil, if_true]

/-- The members that are printed, as they are printed. -/
theorem rearranges_printed (c : Config) :
    c.Rearranges (c.printedFields.map NamedMember.printed) := by
  have hfield : ∀ m ∈ c.printedFields.map NamedMember.printed, m.field?.isSome = true := by
    intro m hm
    obtain ⟨e, he, rfl⟩ := List.mem_map.1 hm
    obtain ⟨f, -, hf⟩ := List.mem_filterMap.1 he
    obtain ⟨v, -, rfl⟩ := Option.map_eq_some_iff.1 hf
    have hkey : (NamedMember.printed (f.key, v)).field? = some f := ofKey?_key f
    rw [hkey]
    rfl
  refine ⟨?_, fun m hm hnone => ?_⟩
  · have hentries :
        (c.printedFields.map NamedMember.printed).map NamedMember.entry = c.printedFields := by
      rw [List.map_map]
      exact List.map_id _
    rw [List.filter_eq_self.2 hfield, hentries]
  · have hsome := hfield m hm
    rw [hnone] at hsome
    cases hsome

/-- The printed text is an object of the members that are printed. -/
theorem exists_toJson (c : Config) :
    ∃ s, Separated ((c.printedFields.map NamedMember.printed).map (·.text)) s ∧
      c.toJson = '\x7b' :: (s ++ ['\x7d']) := by
  have htexts : ConfigField.all.filterMap (fun f => (c.fieldValue? f).map (member f.key)) =
      (c.printedFields.map NamedMember.printed).map (·.text) := by
    rw [printedFields, List.map_map, List.map_filterMap]
    refine List.filterMap_congr fun f _ => ?_
    cases c.fieldValue? f with
    | none => rfl
    | some v => exact congrArg some (NamedMember.text_printed f.key v).symm
  rw [toJson, htexts]
  exact exists_bracketed '\x7b' '\x7d' 0 nofun

/-- **The printed configuration is read back**, whatever texts are in it and whether there is
an output or not. Any object is read as the same configuration that holds the printed fields in
any order, and between them members with other names and any values, with any blanks between
its parts. -/
theorem parse_printed_fields (c : Config) :
    Config.parse c.toJson = .ok c ∧
      ∀ ms s b b', c.Rearranges ms → Separated (ms.map (·.text)) s → IsBlank b → IsBlank b' →
        Config.parse (b ++ '\x7b' :: (s ++ '\x7d' :: b')) = .ok c := by
  refine ⟨?_, fun ms s b b' h hs => parse_of_rearranges h hs⟩
  obtain ⟨s, hs, htext⟩ := c.exists_toJson
  rw [htext]
  exact parse_of_rearranges c.rearranges_printed hs isBlank_nil isBlank_nil

/-- A configuration whose texts need escapes. -/
def escapedConfig : Config := { includes := ["\"\\\n".toList], output := some ['\x01'] }

/-- A member with a name that is no field. -/
def otherMember : NamedMember := .printed ("version".toList, "[null]".toList)

/-- The fields are given in the other order, behind a member that is no field. -/
theorem parse_printed_fields_reversed :
    Config.parse escapedConfig.toJson = .ok escapedConfig ∧
      otherMember.field? = none ∧ IsValue otherMember.value ∧
      Config.parse (bracketed '\x7b' '\x7d' 0
        ((otherMember :: (escapedConfig.printedFields.map NamedMember.printed).reverse).map
          (·.text))) = .ok escapedConfig := by
  obtain ⟨hprinted, hobject⟩ := parse_printed_fields escapedConfig
  have hfield : otherMember.field? = none := by decide
  have hnull : ∀ v ∈ ["null".toList], IsValue v := by
    rw [List.forall_mem_singleton]
    exact .word List.mem_cons_self
  have hvalue : IsValue otherMember.value := .list (.one isBlank_nil isBlank_nil) hnull
  refine ⟨hprinted, hfield, hvalue, ?_⟩
  have h := escapedConfig.rearranges_printed.perm (List.reverse_perm _).symm
  obtain ⟨s, hs, htext⟩ := exists_bracketed '\x7b' '\x7d' 0 (List.cons_ne_nil otherMember.text
    (List.map (·.text) (escapedConfig.printedFields.map NamedMember.printed).reverse))
  rw [List.map_cons, htext]
  exact hobject _ s [] [] (h.cons hfield hvalue) hs isBlank_nil isBlank_nil

end Config

end TemplateCatalog
