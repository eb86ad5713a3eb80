/-
The grammar of JSON, and passing over values.

The grammar says which texts are JSON values (`IsValue`), whatever they hold and whatever
blanks stand between their parts, and which text a string stands for (`Spells`). A string that
is read gives this text (`readString_append`), and a value of any kind is passed over as a
whole (`skipValue_append`), whatever follows it.

Lists and objects are passed over alike: what stands between their brackets is `Separated` by
commas, and each part is passed over on its own (`Passes`).
-/
import TemplateCatalog.Config.JsonValue
import Mathlib.Data.List.TakeWhile

namespace TemplateCatalog

namespace Json

/-! ### Blanks and words -/

/-- Nothing but blanks. -/
def IsBlank (s : Text) : Prop := ∀ c ∈ s, isSpace c = true

theorem isBlank_nil : IsBlank [] := nofun

theorem skipSpaces_cons {c : Char} (hc : isSpace c = false) (r : Text) :
    skipSpaces (c :: r) = c :: r :=
  List.dropWhile_cons_of_neg (Bool.eq_false_iff.1 hc)

/-- The first character behind blanks. -/
theorem skipSpaces_append {b : Text} (hb : IsBlank b) {c : Char} (hc : isSpace c = false)
    (r : Text) : skipSpaces (b ++ c :: r) = c :: r := by
  rw [skipSpaces, List.dropWhile_append_of_pos hb]
  exact skipSpaces_cons hc r

theorem expect_append {b : Text} (hb : IsBlank b) {c : Char} (hc : isSpace c = false)
    (r : Text) : expect c (b ++ c :: r) = .ok r := by
  rw [expect, skipSpaces_append hb hc]
  exact if_pos rfl

theorem expectWord_append (w r : Text) : expectWord w (w ++ r) = .ok r := by
  induction w with
  | nil => rfl
  | cons c w ih =>
    rw [List.cons_append, expectWord, if_pos rfl]
    exact ih

/-! ### Strings -/

/-- Four hexadecimal digits, and the code unit that they spell. -/
inductive IsCodeUnit : Text → Nat → Prop
  | digits {a b c d : Char} {w x y z : Nat} (ha : hexValue? a = some w)
      (hb : hexValue? b = some x) (hc : hexValue? c = some y) (hd : hexValue? d = some z) :
      IsCodeUnit [a, b, c, d] (((w * 16 + x) * 16 + y) * 16 + z)

theorem readUnit_append {ds : Text} {n : Nat} (h : IsCodeUnit ds n) (r : Text) :
    readUnit (ds ++ r) = .ok (n, r) := by
  obtain ⟨ha, hb, hc, hd⟩ := h
  rename_i a b c d _ _ _ _
  have hsize : ¬Text.byteSize ((a :: b :: c :: d :: r).take 4) < 4 := by
    have hbytes : Text.byteSize ((a :: b :: c :: d :: r).take 4) =
        a.utf8Size + (b.utf8Size + (c.utf8Size + (d.utf8Size + 0))) := rfl
    have := a.utf8Size_pos
    have := b.utf8Size_pos
    have := c.utf8Size_pos
    have := d.utf8Size_pos
    omega
  simp only [List.cons_append, List.nil_append]
  rw [readUnit, if_neg hsize, ha, hb, hc, hd]

/-- What may stand between the quotes of a string. -/
inductive IsBody : Text → Prop
  | nil : IsBody []
  | plain {c : Char} {body : Text} (hquote : c ≠ '"') (hback : c ≠ '\\')
      (hcontrol : isControl c = false) (rest : IsBody body) : IsBody (c :: body)
  | short {c d : Char} {body : Text} (hc : shortEscape? c = some d) (rest : IsBody body) :
      IsBody ('\\' :: c :: body)
  | unit {ds body : Text} {n : Nat} (hds : IsCodeUnit ds n) (rest : IsBody body) :
      IsBody ('\\' :: 'u' :: (ds ++ body))

theorem ne_u_of_shortEscape? {c d : Char} (h : shortEscape? c = some d) : c ≠ 'u' := by
  rintro rfl
  cases h

theorem skipString_escape {u r : Text} (h : skipEscape u = .ok r) :
    skipString ('\\' :: u) = skipString r := by
  rw [skipString, if_neg (by decide), if_pos rfl]
  split
  · rename_i he
    cases h.symm.trans he
  · rename_i hr
    cases h.symm.trans hr
    rfl

theorem skipString_append {body : Text} (h : IsBody body) (r : Text) :
    skipString (body ++ '"' :: r) = .ok r := by
  induction h with
  | nil =>
    rw [List.nil_append, skipString]
    exact if_pos rfl
  | plain hquote hback hcontrol _ ih =>
    rw [List.cons_append, skipString, if_neg hquote, if_neg hback, hcontrol,
      if_neg Bool.false_ne_true]
    exact ih
  | short hc _ ih =>
    refine (skipString_escape ?_).trans ih
    rw [List.append_eq, List.cons_append, skipEscape, if_neg (ne_u_of_shortEscape? hc), hc]
    rfl
  | unit hds _ ih =>
    refine (skipString_escape ?_).trans ih
    rw [List.append_eq, List.cons_append, skipEscape, if_pos rfl, List.append_assoc,
      readUnit_append hds]
    rfl

/-- What stands between the quotes of a string, and the text that it stands for. -/
inductive Spells : Text → Text → Prop
  | nil : Spells [] []
  | plain {c : Char} {body s : Text} (hquote : c ≠ '"') (hback : c ≠ '\\')
      (hcontrol : isControl c = false) (rest : Spells body s) : Spells (c :: body) (c :: s)
  | short {c d : Char} {body s : Text} (hc : shortEscape? c = some d) (rest : Spells body s) :
      Spells ('\\' :: c :: body) (d :: s)
  | unit {ds body s : Text} {n : Nat} (hds : IsCodeUnit ds n) (hlow : isLowHalf n = false)
      (hhigh : isHighHalf n = false) (rest : Spells body s) :
      Spells ('\\' :: 'u' :: (ds ++ body)) (Char.ofNat n :: s)
  | pair {ds es body s : Text} {n m : Nat} (hds : IsCodeUnit ds n) (hes : IsCodeUnit es m)
      (hhigh : isHighHalf n = true) (hlow : isLowHalf m = true) (rest : Spells body s) :
      Spells ('\\' :: 'u' :: (ds ++ '\\' :: 'u' :: (es ++ body)))
        (Char.ofNat ((n - 0xD800) * 0x400 + (m - 0xDC00) + 0x10000) :: s)

theorem Spells.isBody {body s : Text} (h : Spells body s) : IsBody body := by
  induction h with
  | nil => exact .nil
  | plain hquote hback hcontrol _ ih => exact .plain hquote hback hcontrol ih
  | short hc _ ih => exact .short hc ih
  | unit hds _ _ _ ih => exact .unit hds ih
  | pair hds hes _ _ _ ih => exact .unit hds (.unit hes ih)

theorem isLowHalf_of_isHighHalf {n : Nat} (h : isHighHalf n = true) : isLowHalf n = false := by
  simp only [isHighHalf, isLowHalf, Bool.and_eq_true, decide_eq_true_eq] at h ⊢
  simp only [Bool.and_eq_false_iff, decide_eq_false_iff_not]
  omega

/-- The character of an escape that is read in front of a string. -/
theorem readString_escape {u r t s : Text} {d : Char} (hd : readEscape u = .ok (d, r))
    (hs : readString r = .ok (s, t)) : readString ('\\' :: u) = .ok (d :: s, t) := by
  rw [readString, if_neg (by decide), if_pos rfl]
  split
  · rename_i he
    cases hd.symm.trans he
  · rename_i hr
    cases hd.symm.trans hr
    rw [hs]

theorem readString_append {body s : Text} (h : Spells body s) (r : Text) :
    readString (body ++ '"' :: r) = .ok (s, r) := by
  induction h with
  | nil =>
    rw [List.nil_append, readString]
    exact if_pos rfl
  | plain hquote hback hcontrol _ ih =>
    rw [List.cons_append, readString, if_neg hquote, if_neg hback, hcontrol,
      if_neg Bool.false_ne_true, ih]
  | short hc _ ih =>
    refine readString_escape ?_ ih
    rw [List.append_eq, List.cons_append, readEscape, if_neg (ne_u_of_shortEscape? hc), hc]
  | unit hds hlow hhigh _ ih =>
    refine readString_escape ?_ ih
    rw [List.append_eq, List.cons_append, readEscape, if_pos rfl, List.append_assoc,
      readUnicode, readUnit_append hds]
    simp only [hlow, hhigh, Bool.false_eq_true, if_false]
  | pair hds hes hhigh hlow _ ih =>
    refine readString_escape ?_ ih
    rw [List.append_eq, List.cons_append, readEscape, if_pos rfl, List.append_assoc,
      readUnicode, readUnit_append hds]
    -- A high half is no low one, so the second escape is read for it.
    simp only [isLowHalf_of_isHighHalf hhigh, hhigh, Bool.false_eq_true, if_false, if_true,
      List.cons_append, ne_eq, not_true_eq_false, List.append_assoc, readUnit_append hes, hlow]

/-! ### Numbers -/

/-- Digits, at least one. -/
def IsDigits (ds : Text) : Prop := ds ≠ [] ∧ ∀ c ∈ ds, c.isDigit = true

/-- The digits in front of the point: a zero alone, or digits that do not start with one. -/
def IsWhole (ds : Text) : Prop := ds = ['0'] ∨ IsDigits ds ∧ ds.head? ≠ some '0'

/-- A point and digits, or nothing. -/
def IsFraction (s : Text) : Prop := s = [] ∨ ∃ ds, IsDigits ds ∧ s = '.' :: ds

/-- An exponent with or without a sign, or nothing. -/
def IsExponent (s : Text) : Prop :=
  s = [] ∨ ∃ e sign ds, (e = 'e' ∨ e = 'E') ∧ (sign = [] ∨ sign = ['+'] ∨ sign = ['-']) ∧
    IsDigits ds ∧
    s = e :: (sign ++ ds)

/-- A number without its sign. -/
inductive IsUnsigned : Text → Prop
  | parts {whole fraction exponent : Text} (hwhole : IsWhole whole)
      (hfraction : IsFraction fraction) (hexponent : IsExponent exponent) :
      IsUnsigned (whole ++ (fraction ++ exponent))

/-- What stands behind a value does not go on with a number. -/
def Ends (r : Text) : Prop :=
  ∀ c, r.head? = some c → c.isDigit = false ∧ c ≠ '.' ∧ c ≠ 'e' ∧ c ≠ 'E'

/-- No digit stands in front. -/
def NoDigit (r : Text) : Prop := ∀ c, r.head? = some c → c.isDigit = false

theorem takeDigits_append {ds r : Text} (hds : ∀ c ∈ ds, c.isDigit = true) (hr : NoDigit r) :
    takeDigits (ds ++ r) = ds ∧ dropDigits (ds ++ r) = r := by
  have htake : r.takeWhile Char.isDigit = [] ∧ r.dropWhile Char.isDigit = r := by
    cases r with
    | nil => exact ⟨rfl, rfl⟩
    | cons c r =>
      have hc : c.isDigit = false := hr c rfl
      simp [hc]
  rw [takeDigits, dropDigits, List.takeWhile_append_of_pos hds,
    List.dropWhile_append_of_pos hds, htake.1, htake.2]
  exact ⟨List.append_nil ds, rfl⟩

theorem readDigits_append {ds r : Text} (h : IsDigits ds) (hr : NoDigit r) :
    readDigits (ds ++ r) = .ok (ds, r) := by
  obtain ⟨htake, hdrop⟩ := takeDigits_append h.2 hr
  unfold readDigits
  rw [htake, hdrop]
  split
  · exact absurd rfl h.1
  · exact absurd rfl h.1
  · rfl

theorem readIntegerDigits_append {ds r : Text} (h : IsWhole ds) (hr : NoDigit r) :
    readIntegerDigits (ds ++ r) = .ok (ds, r) := by
  rcases h with rfl | ⟨hds, hzero⟩
  · have htake : takeDigits ([] ++ r) = [] := (takeDigits_append (List.forall_mem_nil _) hr).1
    rw [List.nil_append] at htake
    rw [List.singleton_append, readIntegerDigits, htake]
    rfl
  · rw [← readDigits_append hds hr]
    obtain ⟨c, ds, rfl⟩ := List.exists_cons_of_ne_nil hds.1
    have hc : c ≠ '0' := fun hc => hzero (hc ▸ rfl)
    rw [List.cons_append, readIntegerDigits]
    rintro r' hr'
    exact hc (List.cons.inj hr').1

theorem readFraction_append {s r : Text} (h : IsFraction s) (hr : NoDigit r)
    (hpoint : r.head? ≠ some '.') : ∃ ds, readFraction (s ++ r) = .ok (ds, r) := by
  rcases h with rfl | ⟨ds, hds, rfl⟩
  · refine ⟨[], ?_⟩
    rw [List.nil_append, readFraction]
    rintro r' rfl
    exact hpoint rfl
  · exact ⟨ds, readDigits_append hds hr⟩

theorem ne_of_isDigit {c d : Char} (hc : c.isDigit = true) (hd : d.isDigit = false) :
    c ≠ d := by
  rintro rfl
  cases hc.symm.trans hd

theorem readExponent_append {s r : Text} (h : IsExponent s) (hr : Ends r) :
    ∃ n, readExponent (s ++ r) = .ok (n, r) := by
  rcases h with rfl | ⟨e, sign, ds, he, hsign, hds, rfl⟩
  -- Without an exponent the rest must not look like one.
  · refine ⟨0, ?_⟩
    rw [List.nil_append, readExponent]
    · rintro r' rfl
      exact (hr _ rfl).2.2.1 rfl
    · rintro r' rfl
      exact (hr _ rfl).2.2.2 rfl
  · have hread : ∃ n, readSigned (sign ++ ds ++ r) = .ok (n, r) := by
      have htake : (takeSign (sign ++ ds ++ r)).2 = ds ++ r := by
        rcases hsign with rfl | rfl | rfl
        · obtain ⟨c, ds, rfl⟩ := List.exists_cons_of_ne_nil hds.1
          have hc := hds.2 c List.mem_cons_self
          rw [List.nil_append, List.cons_append, takeSign]
          · rintro r' hr'
            exact ne_of_isDigit hc rfl (List.cons.inj hr').1
          · rintro r' hr'
            exact ne_of_isDigit hc rfl (List.cons.inj hr').1
        · rfl
        · rfl
      rw [readSigned, htake, readDigits_append hds fun c hc => (hr c hc).1]
      exact ⟨_, rfl⟩
    rcases he with rfl | rfl
    · exact hread
    · exact hread

/-- A fraction or an exponent starts with no digit, and only a fraction with a point. -/
theorem head?_fraction_append {fraction exponent r : Text} (hfraction : IsFraction fraction)
    (hexponent : IsExponent exponent) (hr : Ends r) :
    NoDigit (fraction ++ (exponent ++ r)) ∧ NoDigit (exponent ++ r) ∧
      (exponent ++ r).head? ≠ some '.' := by
  have hafter : NoDigit (exponent ++ r) ∧ (exponent ++ r).head? ≠ some '.' := by
    rcases hexponent with rfl | ⟨e, sign, ds, he | he, -, -, rfl⟩
    · exact ⟨fun c hc => (hr c hc).1, fun hc => (hr _ hc).2.1 rfl⟩
    · subst he
      exact ⟨fun c hc => Option.some.inj hc ▸ rfl, by simp⟩
    · subst he
      exact ⟨fun c hc => Option.some.inj hc ▸ rfl, by simp⟩
  -- A fraction starts with a point, and without one the exponent comes first.
  refine ⟨?_, hafter⟩
  rcases hfraction with rfl | ⟨ds, -, rfl⟩
  · exact hafter.1
  · exact fun c hc => Option.some.inj hc ▸ rfl

theorem skipNumber_append {s r : Text} (h : IsUnsigned s) (hr : Ends r) :
    skipNumber (s ++ r) = .ok r := by
  obtain ⟨hwhole, hfraction, hexponent⟩ := h
  rename_i whole fraction exponent
  obtain ⟨hdigit, hdigit', hpoint⟩ := head?_fraction_append hfraction hexponent hr
  obtain ⟨ds, hds⟩ := readFraction_append hfraction hdigit' hpoint
  obtain ⟨n, hn⟩ := readExponent_append hexponent hr
  rw [skipNumber, readNumber, List.append_assoc, List.append_assoc,
    readIntegerDigits_append hwhole hdigit]
  simp only [hds, hn]

theorem isSpace_eq_false_of_isDigit {c : Char} (hc : c.isDigit = true) :
    isSpace c = false := by
  simp [isSpace, ne_of_isDigit hc]

/-- The first character of a number is a digit. -/
theorem IsUnsigned.head {s : Text} (h : IsUnsigned s) :
    ∃ c r, s = c :: r ∧ c.isDigit = true := by
  obtain ⟨hwhole, -, -⟩ := h
  rcases hwhole with rfl | ⟨⟨hne, hds⟩, -⟩
  · exact ⟨'0', _, rfl, rfl⟩
  · obtain ⟨c, ds, rfl⟩ := List.exists_cons_of_ne_nil hne
    exact ⟨c, _, rfl, hds c List.mem_cons_self⟩

/-! ### Values -/

/-- The character that opens a bracket. -/
def Bracket.opener : Bracket → Char
  | .list => '['
  | .object => '\x7b'

/-- Parts with commas between them, and blanks around each. -/
inductive Separated : List Text → Text → Prop
  | one {u b b' : Text} (hb : IsBlank b) (hb' : IsBlank b') : Separated [u] (b ++ (u ++ b'))
  | more {us : List Text} {u b b' s : Text} (hb : IsBlank b) (hb' : IsBlank b')
      (rest : Separated us s) : Separated (u :: us) (b ++ (u ++ (b' ++ ',' :: s)))

/-- A member of an object: what stands between the quotes of its key, its value, and the blanks
around the colon. -/
structure Member where
  key : Text
  value : Text
  before : Text
  after : Text
  isBody : IsBody key
  isBlank_before : IsBlank before
  isBlank_after : IsBlank after

/-- The member as it is written. -/
def Member.text (m : Member) : Text :=
  '"' :: (m.key ++ '"' :: (m.before ++ ':' :: (m.after ++ m.value)))

theorem Member.text_append (m : Member) (r : Text) :
    m.text ++ r = '"' ::
      (m.key ++ '"' :: (m.before ++ ':' :: (m.after ++ (m.value ++ r)))) := by
  simp [text]

/-- The JSON values. -/
inductive IsValue : Text → Prop
  | word {w : Text} (hw : w ∈ ["null".toList, "true".toList, "false".toList]) : IsValue w
  | number {s : Text} (hs : IsUnsigned s) : IsValue s
  | negative {s : Text} (hs : IsUnsigned s) : IsValue ('-' :: s)
  | string {body : Text} (hbody : IsBody body) : IsValue ('"' :: (body ++ ['"']))
  | empty {b : Bracket} {s : Text} (hs : IsBlank s) : IsValue (b.opener :: (s ++ [b.closer]))
  | list {vs : List Text} {s : Text} (hs : Separated vs s) (hvs : ∀ v ∈ vs, IsValue v) :
      IsValue (Bracket.list.opener :: (s ++ [Bracket.list.closer]))
  | object {ms : List Member} {s : Text} (hs : Separated (ms.map Member.text) s)
      (hms : ∀ m ∈ ms, IsValue m.value) :
      IsValue (Bracket.object.opener :: (s ++ [Bracket.object.closer]))

/-! ### The steps of passing over -/

section Steps

variable {s r t : Text} {c : Char} {b : Bracket} {bs : List Bracket}

theorem skipFrom_value_eq (bs : List Bracket) (s : Text) :
    skipFrom .value bs s =
      match skipSpaces s with
      | [] => .error .truncated
      | c :: r =>
        if c = '[' then skipFrom .opened (.list :: bs) r
        else if c = '\x7b' then skipFrom .opened (.object :: bs) r
        else
          match skipScalar c r with
          | .error e => .error e
          | .ok t => skipFrom .closed bs t := by
  rw [skipFrom]
  grind

theorem skipFrom_opened_eq (b : Bracket) (bs : List Bracket) (s : Text) :
    skipFrom .opened (b :: bs) s =
      match skipSpaces s with
      | [] => .error .truncated
      | c :: r =>
        if c = b.closer then skipFrom .closed bs r
        else
          match b.skipKey (c :: r) with
          | .error e => .error e
          | .ok t => skipFrom .value (b :: bs) t := by
  rw [skipFrom]
  grind

theorem skipFrom_closed_eq (b : Bracket) (bs : List Bracket) (s : Text) :
    skipFrom .closed (b :: bs) s =
      match skipSpaces s with
      | [] => .error .truncated
      | c :: r =>
        if c = b.closer then skipFrom .closed bs r
        else if c = ',' then
          match b.skipKey r with
          | .error e => .error e
          | .ok t => skipFrom .value (b :: bs) t
        else .error .malformed := by
  rw [skipFrom]
  grind

theorem skipFrom_opener (h : skipSpaces s = b.opener :: r) :
    skipFrom .value bs s = skipFrom .opened (b :: bs) r := by
  rw [skipFrom_value_eq, h]
  cases b <;> rfl

theorem skipFrom_scalar (h : skipSpaces s = c :: r) (hc : ∀ b : Bracket, c ≠ b.opener)
    (ht : skipScalar c r = .ok t) : skipFrom .value bs s = skipFrom .closed bs t := by
  have hlist : c ≠ '[' := hc .list
  have hobject : c ≠ '\x7b' := hc .object
  rw [skipFrom_value_eq, h]
  simp only [hlist, hobject, if_false, ht]

theorem skipFrom_opened_closer (h : skipSpaces s = b.closer :: r) :
    skipFrom .opened (b :: bs) s = skipFrom .closed bs r := by
  rw [skipFrom_opened_eq, h]
  exact if_pos rfl

theorem skipFrom_opened (h : skipSpaces s = c :: r) (hc : c ≠ b.closer)
    (ht : b.skipKey (c :: r) = .ok t) :
    skipFrom .opened (b :: bs) s = skipFrom .value (b :: bs) t := by
  rw [skipFrom_opened_eq, h]
  simp only [hc, if_false, ht]

theorem skipFrom_closed_closer (h : skipSpaces s = b.closer :: r) :
    skipFrom .closed (b :: bs) s = skipFrom .closed bs r := by
  rw [skipFrom_closed_eq, h]
  exact if_pos rfl

theorem skipFrom_closed (h : skipSpaces s = ',' :: r) (ht : b.skipKey r = .ok t) :
    skipFrom .closed (b :: bs) s = skipFrom .value (b :: bs) t := by
  have hcloser : ',' ≠ b.closer := by cases b <;> decide
  rw [skipFrom_closed_eq, h]
  simp only [hcloser, if_false, if_true, ht]

end Steps

/-! ### Brackets -/

theorem isSpace_closer (b : Bracket) : isSpace b.closer = false := by cases b <;> rfl

theorem isSpace_opener (b : Bracket) : isSpace b.opener = false := by cases b <;> rfl

/-- A value may be followed by blanks and a comma or the end of a bracket. -/
theorem ends_append {b r : Text} (hb : IsBlank b) {c : Char} (hc : Ends (c :: r)) :
    Ends (b ++ c :: r) := by
  cases b with
  | nil => exact hc
  | cons d b =>
    have hd : isSpace d = true := hb d List.mem_cons_self
    rintro e he
    obtain rfl := Option.some.inj he
    have hcases : d = ' ' ∨ d = '\n' ∨ d = '\t' ∨ d = '\r' := by
      simpa [isSpace, or_assoc] using hd
    rcases hcases with rfl | rfl | rfl | rfl <;> decide

theorem ends_comma (r : Text) : Ends (',' :: r) := by
  rintro c hc
  obtain rfl := Option.some.inj hc
  decide

theorem ends_closer (b : Bracket) (r : Text) : Ends (b.closer :: r) := by
  rintro c hc
  obtain rfl := Option.some.inj hc
  cases b <;> decide

/-- A part of a bracket that is passed over on its own. -/
structure Passes (b : Bracket) (u : Text) : Prop where
  head : ∃ c r, u = c :: r ∧ isSpace c = false ∧ c ≠ b.closer
  pass : ∀ blank r brackets, IsBlank blank → Ends r →
    ∃ t, b.skipKey (blank ++ (u ++ r)) = .ok t ∧
      skipFrom .value brackets t = skipFrom .closed brackets r

section Brackets

variable {b : Bracket} {us : List Text} {s : Text}

/-- What follows a part of a bracket is passed over up to the end of the bracket. -/
theorem skipFrom_closed_separated (hs : Separated us s) (hus : ∀ u ∈ us, Passes b u)
    {blank : Text} (hblank : IsBlank blank) (r : Text) (bs : List Bracket) :
    skipFrom .closed (b :: bs) (blank ++ ',' :: (s ++ b.closer :: r)) =
      skipFrom .closed bs r := by
  -- Each part is passed over up to its comma; the last one up to the bracket.
  induction hs generalizing blank with
  | @one u b1 b2 hb1 hb2 =>
    have hends := ends_append hb2 (ends_closer b r)
    obtain ⟨t, hkey, ht⟩ := (hus u List.mem_cons_self).pass b1 _ (b :: bs) hb1 hends
    rw [List.append_assoc, List.append_assoc,
      skipFrom_closed (skipSpaces_append hblank rfl _) hkey, ht]
    exact skipFrom_closed_closer (skipSpaces_append hb2 (isSpace_closer b) r)
  | @more us u b1 b2 s hb1 hb2 _ ih =>
    obtain ⟨hu, hus⟩ := List.forall_mem_cons.1 hus
    have hends := ends_append hb2 (ends_comma (s ++ b.closer :: r))
    obtain ⟨t, hkey, ht⟩ := hu.pass b1 _ (b :: bs) hb1 hends
    rw [List.append_assoc, List.append_assoc, List.append_assoc, List.cons_append,
      skipFrom_closed (skipSpaces_append hblank rfl _) hkey, ht]
    exact ih hus hb2

/-- A bracket is passed over if each part of it is. -/
theorem skipFrom_opened_separated (hs : Separated us s) (hus : ∀ u ∈ us, Passes b u) (r : Text)
    (bs : List Bracket) : skipFrom .opened (b :: bs) (s ++ b.closer :: r) =
      skipFrom .closed bs r := by
  -- The blanks in front of the first part are passed before it, so it is taken without them.
  cases hs with
  | @one u b1 b2 hb1 hb2 =>
    obtain ⟨⟨c, w, rfl, hspace, hcloser⟩, hpass⟩ := hus _ List.mem_cons_self
    obtain ⟨t, hkey, ht⟩ :=
      hpass [] _ (b :: bs) isBlank_nil (ends_append hb2 (ends_closer b r))
    rw [List.append_assoc, List.append_assoc]
    refine (skipFrom_opened (skipSpaces_append hb1 hspace _) hcloser hkey).trans (ht.trans ?_)
    exact skipFrom_closed_closer (skipSpaces_append hb2 (isSpace_closer b) r)
  | @more us u b1 b2 s hb1 hb2 hs =>
    obtain ⟨⟨⟨c, w, rfl, hspace, hcloser⟩, hpass⟩, hrest⟩ := List.forall_mem_cons.1 hus
    have hends := ends_append hb2 (ends_comma (s ++ b.closer :: r))
    obtain ⟨t, hkey, ht⟩ := hpass [] _ (b :: bs) isBlank_nil hends
    rw [List.append_assoc, List.append_assoc, List.append_assoc]
    refine (skipFrom_opened (skipSpaces_append hb1 hspace _) hcloser hkey).trans (ht.trans ?_)
    exact skipFrom_closed_separated hs hrest hb2 r bs

end Brackets

/-! ### Passing over values -/

/-- A value is passed over, whatever brackets are open around it. -/
def PassedOver (v : Text) : Prop :=
  ∀ blank r bs, IsBlank blank → Ends r → skipFrom .value bs (blank ++ (v ++ r)) =
    skipFrom .closed bs r

theorem passedOver_scalar {c : Char} {w : Text} (hspace : isSpace c = false)
    (hc : ∀ b : Bracket, c ≠ b.opener) (h : ∀ r, Ends r → skipScalar c (w ++ r) = .ok r) :
    PassedOver (c :: w) :=
  fun _ r _ hblank hr => skipFrom_scalar (skipSpaces_append hblank hspace (w ++ r)) hc (h r hr)

theorem skipScalar_digit {c : Char} (hc : c.isDigit = true) (r : Text) :
    skipScalar c r = skipNumber (c :: r) := by
  have hne (d : Char) (hd : d.isDigit = false) : c ≠ d := ne_of_isDigit hc hd
  rw [skipScalar, if_neg (hne 'n' rfl), if_neg (hne 't' rfl), if_neg (hne 'f' rfl),
    if_neg (hne '"' rfl), if_neg (hne '-' rfl), if_pos hc]

theorem passedOver_number {s : Text} (hs : IsUnsigned s) : PassedOver s := by
  obtain ⟨c, w, rfl, hc⟩ := hs.head
  have hopener (b : Bracket) : c ≠ b.opener := ne_of_isDigit hc (by cases b <;> rfl)
  refine passedOver_scalar (isSpace_eq_false_of_isDigit hc) hopener fun r hr => ?_
  rw [skipScalar_digit hc]
  exact skipNumber_append hs hr

theorem passedOver_word {w : Text} (hw : w ∈ ["null".toList, "true".toList, "false".toList]) :
    PassedOver w := by
  simp only [List.mem_cons, List.not_mem_nil, or_false] at hw
  rcases hw with rfl | rfl | rfl
  · exact passedOver_scalar rfl (fun b => by cases b <;> decide) fun r _ =>
      expectWord_append "ull".toList r
  · exact passedOver_scalar rfl (fun b => by cases b <;> decide) fun r _ =>
      expectWord_append "rue".toList r
  · exact passedOver_scalar rfl (fun b => by cases b <;> decide) fun r _ =>
      expectWord_append "alse".toList r

theorem passedOver_string {body : Text} (h : IsBody body) :
    PassedOver ('"' :: (body ++ ['"'])) := by
  refine passedOver_scalar rfl (fun b => by cases b <;> decide) fun r _ => ?_
  rw [List.append_assoc]
  exact skipString_append h r

theorem passedOver_bracket {b : Bracket} {s : Text}
    (h : ∀ r bs, skipFrom .opened (b :: bs) (s ++ b.closer :: r) = skipFrom .closed bs r) :
    PassedOver (b.opener :: (s ++ [b.closer])) := by
  intro blank r bs hblank _
  have hspaces := skipSpaces_append hblank (isSpace_opener b) (s ++ [b.closer] ++ r)
  rw [List.cons_append, skipFrom_opener hspaces, List.append_assoc]
  exact h r bs

/-- No value starts with a blank or with the end of a list. -/
theorem IsValue.head {v : Text} (h : IsValue v) :
    ∃ c r, v = c :: r ∧ isSpace c = false ∧ c ≠ Bracket.list.closer := by
  have hopener (b : Bracket) (s : Text) : ∃ c r, b.opener :: s = c :: r ∧ isSpace c = false ∧
      c ≠ Bracket.list.closer := ⟨_, s, rfl, isSpace_opener b, by cases b <;> decide⟩
  cases h with
  | word hw =>
    simp only [List.mem_cons, List.not_mem_nil, or_false] at hw
    rcases hw with rfl | rfl | rfl <;> exact ⟨_, _, rfl, rfl, by decide⟩
  | number hs =>
    obtain ⟨c, r, rfl, hc⟩ := hs.head
    exact ⟨c, r, rfl, isSpace_eq_false_of_isDigit hc, ne_of_isDigit hc rfl⟩
  | negative => exact ⟨'-', _, rfl, rfl, by decide⟩
  | string => exact ⟨'"', _, rfl, rfl, by decide⟩
  | empty => exact hopener _ _
  | list => exact hopener _ _
  | object => exact hopener _ _

theorem passes_value {v : Text} (hv : IsValue v) (h : PassedOver v) : Passes .list v :=
  ⟨hv.head, fun blank r bs hblank hr => ⟨_, rfl, h blank r bs hblank hr⟩⟩

/-- The key of a member is passed over up to the value. -/
theorem passes_member {m : Member} (h : PassedOver m.value) : Passes .object m.text := by
  refine ⟨⟨'"', _, rfl, rfl, by decide⟩, fun blank r bs hblank hr =>
    ⟨m.after ++ (m.value ++ r), ?_, ?_⟩⟩
  · rw [Bracket.skipKey, skipKey, m.text_append, expect_append hblank rfl]
    simp only [skipString_append m.isBody]
    exact expect_append m.isBlank_before rfl _
  · exact h m.after r bs m.isBlank_after hr

theorem IsValue.passedOver {v : Text} (h : IsValue v) : PassedOver v := by
  induction h with
  | word hw => exact passedOver_word hw
  | number hs => exact passedOver_number hs
  | negative hs =>
    exact passedOver_scalar rfl (fun b => by cases b <;> decide) fun r hr =>
      skipNumber_append hs hr
  | string hbody => exact passedOver_string hbody
  | @empty b s hs =>
    exact passedOver_bracket fun r bs =>
      skipFrom_opened_closer (skipSpaces_append hs (isSpace_closer b) r)
  -- The parts of a bracket are values themselves, so they are passed over by induction.
  | list hs hvs ih =>
    exact passedOver_bracket (skipFrom_opened_separated hs fun v hv =>
      passes_value (hvs v hv) (ih v hv))
  | object hs _ ih =>
    refine passedOver_bracket (skipFrom_opened_separated hs fun u hu => ?_)
    obtain ⟨m, hm, rfl⟩ := List.mem_map.1 hu
    exact passes_member (ih m hm)

/-- A value of any kind is passed over as a whole, with the blanks in front of it. -/
theorem skipValue_append {b v r : Text} (hb : IsBlank b) (hv : IsValue v) (hr : Ends r) :
    skipValue (b ++ (v ++ r)) = .ok r := by
  rw [skipValue, hv.passedOver b r [] hb hr, skipFrom]

end Json

end TemplateCatalog
