/-
Origins in catalogs.

An origin is the text of a path, and names of files may hold any character but `/`. It is
written as it is into the comments of gettext catalogs, and as the first literal of Linguist
calls. The main result, `origins_in_catalogs`, says when this does no harm: the comments keep
to their lines exactly if the origin has no line feed (`commentsKeepApart_iff`), and the
literal stands for the origin exactly if it has no backslash (`literalValue?_stringLiteral`),
as `stringLiteral` copies the escapes of templates, and takes the backslashes of a path for
such escapes.

Values are those of C (`unescape?`). An escape is longer than what it stands for
(`unescape?_length`), so with a backslash in it the origin gets shorter, or its literal does
not end.
-/
import TemplateCatalog.Config.Json
import TemplateCatalog.Proofs.LineEnds
import TemplateCatalog.Proofs.Places
import Mathlib.Tactic.Ring

namespace TemplateCatalog

open Text

namespace Catalog

/-! ### The values of C literals -/

/-- The escapes of one character, with what they stand for. -/
def simpleEscapes : List (Char × Char) :=
  [('\'', '\''), ('"', '"'), ('?', '?'), ('\\', '\\'), ('a', '\x07'), ('b', '\x08'),
    ('f', '\x0c'), ('n', '\n'), ('r', '\r'), ('t', '\t'), ('v', '\x0b')]

/-- Is the character a digit to the base 16? -/
def isHexDigit (c : Char) : Bool := (Json.hexValue? c).isSome

/-- Is the character a digit to the base 8? -/
def isOctalDigit (c : Char) : Bool := '0' ≤ c && c ≤ '7'

/-- The character with a code of the given digits. -/
def charOfDigits? (base : Nat) (digits : Text) : Option Char :=
  let n := digits.foldl (fun n d => base * n + (Json.hexValue? d).getD 0) 0
  if n.isValidChar then some (Char.ofNat n) else none

/-- Reads a code of at least `least` and at most `most` digits. -/
def readCode? (base : Nat) (digit : Char → Bool) (least most : Nat) (s : Text) :
    Option (Char × Text) :=
  let digits := (s.take most).takeWhile digit
  if digits.length < least then none
  else (charOfDigits? base digits).map (·, s.drop digits.length)

/-- Reads what stands behind a backslash. -/
def readEscape? : Text → Option (Char × Text)
  | [] => none
  | c :: r =>
    if c = 'x' then readCode? 16 isHexDigit 1 r.length r
    else if c = 'u' then readCode? 16 isHexDigit 4 4 r
    else if c = 'U' then readCode? 16 isHexDigit 8 8 r
    else if isOctalDigit c then readCode? 8 isOctalDigit 1 3 (c :: r)
    else (simpleEscapes.lookup c).map (·, r)

/-- A code is a run of digits. -/
theorem readCode?_eq_some {base least most : Nat} {digit : Char → Bool} {s rest : Text}
    {d : Char} (h : readCode? base digit least most s = some (d, rest)) :
    ∃ digits, s = digits ++ rest ∧ least ≤ digits.length ∧ ∀ c ∈ digits, digit c = true := by
  rw [readCode?] at h
  split_ifs at h with hleast
  obtain ⟨e, -, heq⟩ := Option.map_eq_some_iff.1 h
  have hfront := (List.takeWhile_prefix digit).trans (List.take_prefix most s)
  have happend := append_drop_of_isPrefixOf (List.isPrefixOf_iff_prefix.2 hfront)
  exact ⟨_, (Prod.mk.inj heq).2 ▸ happend.symm, Nat.le_of_not_lt hleast,
    fun c hc => List.mem_takeWhile_imp hc⟩

/-- An escape has one character, and then digits at most. -/
theorem readEscape?_eq_some {s rest : Text} {d : Char} (h : readEscape? s = some (d, rest)) :
    ∃ c code, s = c :: code ++ rest ∧ '\\' ∉ code := by
  have hcode {base least most : Nat} {digit : Char → Bool} {r : Text}
      (hdigit : digit '\\' = false) (h : readCode? base digit least most r = some (d, rest)) :
      ∃ code, r = code ++ rest ∧ least ≤ code.length ∧ '\\' ∉ code := by
    obtain ⟨code, hr, hleast, hall⟩ := readCode?_eq_some h
    refine ⟨code, hr, hleast, fun hmem => ?_⟩
    rw [hall _ hmem] at hdigit
    cases hdigit
  cases s with
  | nil => cases h
  | cons c r =>
    rw [readEscape?] at h
    split_ifs at h
    · obtain ⟨code, hr, -, hb⟩ := hcode (by decide) h
      exact ⟨c, code, congrArg _ hr, hb⟩
    · obtain ⟨code, hr, -, hb⟩ := hcode (by decide) h
      exact ⟨c, code, congrArg _ hr, hb⟩
    · obtain ⟨code, hr, -, hb⟩ := hcode (by decide) h
      exact ⟨c, code, congrArg _ hr, hb⟩
    · -- The first digit is not behind another character.
      obtain ⟨code, hr, hleast, hb⟩ := hcode (by decide) h
      cases code with
      | nil => exact absurd hleast (by decide)
      | cons c' code =>
        rw [List.mem_cons, not_or] at hb
        exact ⟨c', code, hr, hb.2⟩
    · obtain ⟨e, -, heq⟩ := Option.map_eq_some_iff.1 h
      cases heq
      exact ⟨c, [], rfl, List.not_mem_nil⟩

theorem readEscape?_length {s rest : Text} {d : Char} (h : readEscape? s = some (d, rest)) :
    rest.length < s.length := by
  obtain ⟨c, code, rfl, -⟩ := readEscape?_eq_some h
  rw [List.cons_append, List.length_cons, List.length_append]
  omega

/-- What stands between the quotes of a C literal, with its escapes replaced by what they stand
for. -/
def unescape? (s : Text) : Option Text :=
  match s with
  | [] => some []
  | c :: r =>
    if c = '\\' then
      match _h : readEscape? r with
      | none => none
      | some (d, rest) => (unescape? rest).map (d :: ·)
    else (unescape? r).map (c :: ·)
termination_by s.length
decreasing_by
  · have := readEscape?_length _h
    simp only [List.length_cons]
    omega
  · simp

theorem unescape?_plain {c : Char} (hc : c ≠ '\\') (r : Text) :
    unescape? (c :: r) = (unescape? r).map (c :: ·) := by
  rw [unescape?, if_neg hc]

theorem unescape?_escape {d : Char} {r rest : Text} (h : readEscape? r = some (d, rest)) :
    unescape? ('\\' :: r) = (unescape? rest).map (d :: ·) := by
  rw [unescape?, if_pos rfl]
  split
  · rename_i hnone
    cases h.symm.trans hnone
  · rename_i hsome
    cases h.symm.trans hsome
    rfl

/-- The value of a C literal, if that is all of the text. -/
def literalValue? (s : Text) : Option Text :=
  match takeArgument? s with
  | some (.literal body, []) => unescape? body
  | _ => none

theorem literalValue?_eq_some_iff {body v : Text} :
    literalValue? ('"' :: body ++ ['"']) = some v ↔
      (CallArgument.literal body).Complete ∧ unescape? body = some v := by
  rw [literalValue?]
  constructor
  · intro h
    split at h
    · rename_i body' htake
      obtain ⟨htext, hcomplete⟩ := takeArgument?_eq_some_iff.1 htake
      obtain rfl : body = body' := by simpa [CallArgument.toText] using htext
      exact ⟨hcomplete, h⟩
    · cases h
  · rintro ⟨hcomplete, hv⟩
    have htake : takeArgument? ('"' :: body ++ ['"']) = some (.literal body, []) :=
      takeArgument?_eq_some_iff.2 ⟨(List.append_nil _).symm, hcomplete⟩
    rw [htake]
    exact hv

/-! ### Escapes are longer than what they stand for -/

/-- The number of characters that backslashes take along. -/
def escapes : Text → Nat
  | [] => 0
  | [_] => 0
  | c :: d :: r => if c = '\\' then escapes r + 1 else escapes (d :: r)

theorem escapes_plain {c : Char} (hc : c ≠ '\\') (r : Text) :
    escapes (c :: r) = escapes r := by
  cases r with
  | nil => rfl
  | cons d r => rw [escapes, if_neg hc]

theorem escapes_append {code : Text} (h : '\\' ∉ code) (r : Text) :
    escapes (code ++ r) = escapes r := by
  induction code with
  | nil => rfl
  | cons c code ih =>
    rw [List.mem_cons, not_or] at h
    rw [List.cons_append, escapes_plain (Ne.symm h.1), ih h.2]

/-- Every escape stands for one character. -/
theorem unescape?_length {s v : Text} (h : unescape? s = some v) :
    v.length + escapes s ≤ s.length := by
  fun_induction unescape? s generalizing v with
  | case1 =>
    cases h
    exact Nat.le_refl 0
  | case2 => cases h
  | case3 r d rest hread ih =>
    obtain ⟨w, hw, rfl⟩ := Option.map_eq_some_iff.1 h
    obtain ⟨c, code, rfl, hb⟩ := readEscape?_eq_some hread
    have ih := ih hw
    rw [List.cons_append, escapes, if_pos rfl, escapes_append hb]
    simp only [List.length_cons, List.length_append]
    omega
  | case4 c r hc ih =>
    obtain ⟨w, hw, rfl⟩ := Option.map_eq_some_iff.1 h
    have ih := ih hw
    rw [escapes_plain hc]
    simp only [List.length_cons]
    omega

theorem escapes_pos {s : Text} (h : Paired s) (hb : '\\' ∈ s) : 0 < escapes s := by
  induction h with
  | nil => cases hb
  | plain hc _ ih =>
    rw [escapes_plain hc]
    exact ih (List.mem_of_ne_of_mem (Ne.symm hc) hb)
  | escape _ _ _ =>
    rw [escapes, if_pos rfl]
    exact Nat.succ_pos _

theorem escapes_escapedChar_append {c : Char} (hc : c ≠ '\\') (r : Text) :
    escapes (escapedChar c ++ r) + 1 = (escapedChar c).length + escapes r := by
  rw [escapedChar]
  split_ifs
  · exact Nat.add_comm _ 2
  · exact Nat.add_comm _ 2
  · exact Nat.add_comm _ 2
  · rw [List.singleton_append, escapes_plain hc]
    exact Nat.add_comm _ 1

/-- Writing a text as a literal makes it longer by as many characters as it adds escapes. -/
theorem literalBody_length :
    ∀ s : Text, (literalBody s).length + escapes s = s.length + escapes (literalBody s)
  | [] => rfl
  | c :: r => by
    by_cases hc : c = '\\'
    · subst hc
      cases r with
      | nil => rfl
      | cons d r =>
        have ih := literalBody_length r
        rw [literalBody_escape, escapes, if_pos rfl, escapes, if_pos rfl]
        simp only [List.length_cons]
        omega
    · have ih := literalBody_length r
      have hadded := escapes_escapedChar_append hc (literalBody r)
      rw [literalBody_plain hc, escapes_plain hc]
      simp only [List.length_append, List.length_cons]
      omega

/-! ### Texts as literals -/

theorem quoted_cons_iff {c : Char} (hc : c ≠ '\\') {r : Text} :
    Quoted '"' (c :: r) ↔ c ≠ '"' ∧ Quoted '"' r := by
  constructor
  · intro h
    cases h with
    | plain hq _ h => exact ⟨hq, h⟩
    | escape => exact absurd rfl hc
  · exact fun ⟨hq, h⟩ => .plain hq hc h

theorem quoted_escape_iff {d : Char} {r : Text} :
    Quoted '"' ('\\' :: d :: r) ↔ d ≠ '\n' ∧ Quoted '"' r := by
  constructor
  · intro h
    cases h with
    | plain _ hb => exact absurd rfl hb
    | escape hd h => exact ⟨hd, h⟩
  · exact fun ⟨hd, h⟩ => .escape hd h

theorem quoted_of_escapedChar_append {c : Char} (hc : c ≠ '\\') {r : Text}
    (h : Quoted '"' (escapedChar c ++ r)) : Quoted '"' r := by
  rw [escapedChar] at h
  split_ifs at h
  · exact (quoted_escape_iff.1 h).2
  · exact (quoted_escape_iff.1 h).2
  · exact (quoted_escape_iff.1 h).2
  · exact ((quoted_cons_iff hc).1 h).2

/-- No literal of another text is complete. -/
theorem paired_of_quoted : ∀ {s : Text}, Quoted '"' (literalBody s) → Paired s
  | [], _ => .nil
  | c :: r, h => by
    by_cases hc : c = '\\'
    · subst hc
      cases r with
      | nil =>
        cases h with
        | plain _ hb => exact absurd rfl hb
      | cons d r =>
        rw [literalBody_escape, quoted_escape_iff] at h
        exact .escape h.1 (paired_of_quoted h.2)
    · rw [literalBody_plain hc] at h
      exact .plain hc (paired_of_quoted (quoted_of_escapedChar_append hc h))

theorem unescape?_escapedChar_append {c : Char} (hc : c ≠ '\\') (r : Text) :
    unescape? (escapedChar c ++ r) = (unescape? r).map (c :: ·) := by
  rw [escapedChar]
  split_ifs with hq hn hr
  · subst hq
    exact unescape?_escape rfl
  · subst hn
    exact unescape?_escape rfl
  · subst hr
    exact unescape?_escape rfl
  · exact unescape?_plain hc r

theorem unescape?_literalBody {s : Text} (h : '\\' ∉ s) :
    unescape? (literalBody s) = some s := by
  induction s with
  | nil =>
    rw [literalBody, unescape?]
  | cons c r ih =>
    rw [List.mem_cons, not_or] at h
    rw [literalBody_plain (Ne.symm h.1), unescape?_escapedChar_append (Ne.symm h.1), ih h.2]
    rfl

/-- The literal of a text stands for that text exactly if there is no backslash in it. -/
theorem literalValue?_stringLiteral (s : Text) :
    literalValue? (stringLiteral s) = some s ↔ '\\' ∉ s := by
  rw [stringLiteral, literalValue?_eq_some_iff]
  constructor
  · rintro ⟨⟨hquoted, -⟩, hv⟩ hb
    have hpos := escapes_pos (paired_of_quoted hquoted) hb
    have hshorter := unescape?_length hv
    have hlength := literalBody_length s
    omega
  · exact fun hb =>
      ⟨CallArgument.complete_ofText (paired_of_not_mem hb), unescape?_literalBody hb⟩

/-! ### Comments -/

/-- Is the line a comment with an origin? -/
def isOriginComment (line : Text) : Bool := "// i18n: file: ".toList.isPrefixOf line

/-- The comments of a gettext catalog keep to their lines: there are two lines for each entry,
and without the comments there are those of the catalog without comments. -/
structure CommentsKeepApart (origin : Text) (x : Extraction) : Prop where
  lines : (render ⟨.gettext, true⟩ origin x).count '\n' = 2 * x.size
  calls : ((render ⟨.gettext, true⟩ origin x).splitOn '\n').filter
    (fun l => !isOriginComment l) = (render ⟨.gettext, false⟩ origin x).splitOn '\n'

theorem isOriginComment_originComment (origin : Text) :
    isOriginComment (originComment origin) = true :=
  List.isPrefixOf_iff_prefix.2 (List.prefix_append _ _)

theorem isOriginComment_gettextCall (e : Entry) : isOriginComment (gettextCall e) = false := by
  rw [gettextCall, gettextFunction]
  cases e.hasContext <;> cases e.hasPlural <;> rfl

section Comments

variable {origin : Text} {x : Extraction}

theorem count_line (s : Text) : (line s).count '\n' = s.count '\n' + 1 := by
  rw [line, List.count_append, List.count_singleton_self]

theorem count_append_of_not_mem {front : Text} (h : '\n' ∉ front) (s : Text) :
    (front ++ s).count '\n' = s.count '\n' := by
  rw [List.count_append, List.count_eq_zero_of_not_mem h, Nat.zero_add]

theorem count_originComment (origin : Text) :
    (originComment origin).count '\n' = origin.count '\n' :=
  count_append_of_not_mem (by decide) origin

/-- Line feeds of the origin come with every entry. -/
theorem count_render_comments (h : ∀ e ∈ entries x, '\n' ∉ gettextCall e) :
    (render ⟨.gettext, true⟩ origin x).count '\n' = x.size * (2 + origin.count '\n') := by
  rw [← length_entries, render]
  generalize entries x = es at h ⊢
  induction es with
  | nil => rw [List.flatMap_nil, List.count_nil, List.length_nil, Nat.zero_mul]
  | cons e es ih =>
    obtain ⟨he, hes⟩ := List.forall_mem_cons.1 h
    have hlines : (entryLines ⟨.gettext, true⟩ origin e).flatMap line =
        line (originComment origin) ++ line (gettextCall e) :=
      congrArg _ (List.append_nil _)
    rw [List.flatMap_cons, List.count_append, ih hes, hlines, List.count_append, count_line,
      count_line, count_originComment, List.count_eq_zero_of_not_mem he, List.length_cons]
    ring

theorem filter_comments (origin : Text) (calls : List Text)
    (h : ∀ call ∈ calls, isOriginComment call = false) :
    (calls.flatMap fun call => [originComment origin, call]).filter
      (fun l => !isOriginComment l) = calls := by
  induction calls with
  | nil => rfl
  | cons call calls ih =>
    obtain ⟨hcall, hcalls⟩ := List.forall_mem_cons.1 h
    rw [List.flatMap_cons, List.cons_append, List.singleton_append,
      List.filter_cons_of_neg (by simp [isOriginComment_originComment]),
      List.filter_cons_of_pos (by simp [hcall]), ih hcalls]

/-- The comments keep to their lines exactly if there is no line feed in the origin. -/
theorem commentsKeepApart_iff (h : ∀ e ∈ entries x, e.Paired) :
    CommentsKeepApart origin x ↔ x.size = 0 ∨ '\n' ∉ origin := by
  have hcount :
      (render ⟨.gettext, true⟩ origin x).count '\n' = x.size * (2 + origin.count '\n') :=
    count_render_comments fun e he => not_mem_gettextCall (h e he)
  constructor
  · rintro ⟨hlines, -⟩
    -- Each entry has two lines, and a line feed in the origin would add one.
    refine or_iff_not_imp_left.2 fun hsize => ?_
    have htwo : 2 + origin.count '\n' = 2 :=
      Nat.eq_of_mul_eq_mul_left (Nat.pos_of_ne_zero hsize)
      (by rw [← hcount, hlines, Nat.mul_comm])
    rw [← List.count_eq_zero]
    omega
  · rintro (hsize | hn)
    · have hnil : entries x = [] :=
        List.eq_nil_of_length_eq_zero ((length_entries x).trans hsize)
      refine ⟨by rw [hcount, hsize, Nat.zero_mul], ?_⟩
      rw [render, render, hnil]
      rfl
    · refine ⟨by rw [hcount, List.count_eq_zero_of_not_mem hn, Nat.mul_comm], ?_⟩
      rw [splitOn_render_comments hn h, splitOn_render_gettext h, List.filter_append,
        filter_comments]
      · rfl
      · intro call hcall
        obtain ⟨e, -, rfl⟩ := List.mem_map.1 hcall
        exact isOriginComment_gettextCall e

end Comments

/-! ### Origins -/

theorem mem_iff_mem_segments {c : Char} (hc : c ≠ '/') (p : Text) :
    c ∈ p ↔ ∃ s ∈ Path.segments p, c ∈ s := by
  have hsep : c ∉ ['/'] := mt List.mem_singleton.1 hc
  rw [← mem_intercalate_iff hsep, Path.segments_eq_splitOn, List.intercalate_splitOn]

theorem mem_segments_of_name {p s : Text} (h : .name s ∈ Path.components p) :
    s ∈ Path.segments p := by
  have hrest (h : .name s ∈ (Path.segments p).filterMap Path.ofSegment) :
      s ∈ Path.segments p := by
    obtain ⟨t, ht, hname⟩ := List.mem_filterMap.1 h
    rw [Path.ofSegment] at hname
    split_ifs at hname
    · cases hname
    · exact Component.name.inj (Option.some.inj hname) ▸ ht
  simp only [Path.components] at h
  split_ifs at h
  · exact hrest ((List.mem_cons.1 h).resolve_left Component.noConfusion)
  · exact hrest ((List.mem_cons.1 h).resolve_left Component.noConfusion)
  · exact hrest h

/-- The origin of a file has its characters from the path of the file. -/
theorem mem_of_mem_origin {c : Char} (hslash : c ≠ '/') (hpoint : c ≠ '.') {root file : Text}
    (h : c ∈ Path.origin root file) : c ∈ file := by
  rw [Path.origin, mem_intercalate_iff (mt List.mem_singleton.1 hslash)] at h
  obtain ⟨piece, hpiece, hc⟩ := h
  obtain ⟨component, hbelow, hlabel⟩ := List.mem_filterMap.1 hpiece
  have hcomponent : component ∈ Path.components file := by
    rw [Path.below] at hbelow
    split_ifs at hbelow
    · exact List.mem_of_mem_drop hbelow
    · exact hbelow
  cases component with
  | root =>
    cases hlabel
    cases hc
  | current => cases hlabel
  | parent =>
    cases hlabel
    simp [hpoint] at hc
  | name s =>
    cases hlabel
    exact (mem_iff_mem_segments hslash file).2 ⟨_, mem_segments_of_name hcomponent, hc⟩

/-- The first argument of a call stands behind the bracket, and the others follow. -/
theorem exists_call_eq (function a b : Text) (arguments : List Text) :
    ∃ rest, call function (a :: b :: arguments) =
      function ++ '(' :: (a ++ (", ".toList ++ rest)) := by
  refine ⟨", ".toList.intercalate (b :: arguments) ++ ");".toList, ?_⟩
  rw [call, List.intercalate_cons_cons, List.append_assoc, List.cons_append, List.append_assoc,
    List.append_assoc]

/-- **Origins in the catalogs of a template.** The comments of the gettext catalog keep to
their lines exactly if there is no line feed in the origin. The first argument of a Linguist
call is a literal for the origin exactly if there is no backslash in it, and the call is on one
line unless a backslash takes a line feed along. For files without a line feed and a backslash
in their path nothing of this goes wrong. -/
theorem origins_in_catalogs (root file : Text) {template : Text} {x : Extraction}
    (hx : extract template = .ok x) :
    let origin := Path.origin root file
    (CommentsKeepApart origin x ↔ x.size = 0 ∨ '\n' ∉ origin) ∧
    (∀ e ∈ entries x,
      (∃ rest, linguistCall origin e =
        linguistFunction ++ '(' :: (stringLiteral origin ++ (", ".toList ++ rest))) ∧
      (literalValue? (stringLiteral origin) = some origin ↔ '\\' ∉ origin) ∧
      ('\n' ∈ linguistCall origin e ↔ Takes '\n' origin)) ∧
    ('\n' ∉ file → '\n' ∉ origin) ∧ ('\\' ∉ file → '\\' ∉ origin) := by
  refine ⟨commentsKeepApart_iff (paired_of_mem_entries hx), fun e he => ⟨?_, ?_, ?_⟩,
    mt (mem_of_mem_origin (by decide) (by decide)),
    mt (mem_of_mem_origin (by decide) (by decide))⟩
  · exact exists_call_eq linguistFunction (stringLiteral _) (stringLiteral e.message) _
  · exact literalValue?_stringLiteral _
  · exact feed_mem_linguistCall_iff (paired_of_mem_entries hx e he) _

/-- A double quote in the name of a file does no harm. -/
theorem origins_in_catalogs_quotedName :
    extract "\x7b\x7b _(\"x\") \x7d\x7d".toList = .ok ⟨[['x']], [], []⟩ ∧
      CommentsKeepApart (Path.origin ['.'] "a\"b.html".toList) ⟨[['x']], [], []⟩ ∧
      literalValue? (stringLiteral (Path.origin ['.'] "a\"b.html".toList)) =
        some "a\"b.html".toList := by
  have hx : extract "\x7b\x7b _(\"x\") \x7d\x7d".toList = .ok ⟨[['x']], [], []⟩ := by
    decide +kernel
  have horigin : Path.origin ['.'] "a\"b.html".toList = "a\"b.html".toList := by
    decide
  obtain ⟨hcomments, hcalls, hn, hb⟩ := origins_in_catalogs ['.'] "a\"b.html".toList hx
  obtain ⟨-, hvalue, -⟩ := hcalls { message := ['x'] } (by simp [entries])
  refine ⟨hx, hcomments.2 (Or.inr (hn (by decide))), ?_⟩
  rw [hvalue.2 (hb (by decide)), horigin]

/-- A line feed in the name of a file breaks its comment, and a backslash in it is taken for an
escape. -/
theorem origins_in_catalogs_lineFeed :
    extract "\x7b\x7b _(\"x\") \x7d\x7d".toList = .ok ⟨[['x']], [], []⟩ ∧
      ¬CommentsKeepApart (Path.origin ['.'] "a\nb.html".toList) ⟨[['x']], [], []⟩ ∧
      Path.origin ['.'] "a\\nb.html".toList = "a\\nb.html".toList ∧
      literalValue? (stringLiteral (Path.origin ['.'] "a\\nb.html".toList)) =
        some "a\nb.html".toList := by
  refine ⟨by decide +kernel, fun h => ?_, by decide, by decide +kernel⟩
  exact absurd h.lines (by decide)

end Catalog

end TemplateCatalog
