/-
Reading a configuration from a JSON text.

A configuration is an object whose known members set its fields; other members are passed over,
and a field that is not set keeps its default. It may also be a list that gives the fields in
their order, from the first on. Every value must have the type of its field, only the output
may be `null`.
-/
import TemplateCatalog.Config.Basic
import TemplateCatalog.Config.JsonValue

namespace TemplateCatalog

open Json

/-! ### Fields -/

/-- The fields of a configuration. -/
inductive ConfigField where
  | includes
  | ignores
  | extensions
  | format
  | originComments
  | output
  deriving DecidableEq, Repr

namespace ConfigField

/-- The fields in their order. -/
def all : List ConfigField := [.includes, .ignores, .extensions, .format, .originComments, .output]

/-- The name of a field in an object. -/
def key : ConfigField → Text
  | .includes => "includes".toList
  | .ignores => "ignores".toList
  | .extensions => "extensions".toList
  | .format => "format".toList
  | .originComments => "originComments".toList
  | .output => "output".toList

/-- The field of a name. -/
def ofKey? (s : Text) : Option ConfigField := all.find? (·.key == s)

end ConfigField

/-! ### Values -/

/-- Reads a string. -/
def readText (s : Text) : Json.Result Text :=
  match skipSpaces s with
  | [] => .error .truncated
  | c :: r => if c = '"' then readString r else .error (wrongType c r)

theorem readText_length {s r t : Text} (h : readText s = .ok (t, r)) : r.length < s.length := by
  have hl := skipSpaces_length_le s
  unfold readText at h
  split at h
  · simp at h
  · rename_i hs
    rw [hs] at hl
    split at h
    · have := readString_length h
      simp only [List.length_cons] at hl
      omega
    · simp at h

/-- The text from the next element of a list on. `c` and `r` are what follows the opening
bracket, if the element is the `first`, or what follows the element before. -/
def elementStart (first : Bool) (c : Char) (r : Text) : Except Fault Text :=
  if first then .ok (c :: r)
  else if c = ',' then if (skipSpaces r).head? = some ']' then .error .malformed else .ok r
  else .error .malformed

theorem elementStart_length {first : Bool} {c : Char} {r t : Text}
    (h : elementStart first c r = .ok t) : t.length ≤ r.length + 1 := by
  unfold elementStart at h
  grind

/-- Reads the elements of a list of strings that are left, and the closing bracket. -/
def readElements (first : Bool) (s : Text) : Json.Result (List Text) :=
  match _h : skipSpaces s with
  | [] => .error .truncated
  | c :: r =>
    if c = ']' then .ok ([], r)
    else
      match _hs : elementStart first c r with
      | .error e => .error e
      | .ok r =>
        match _ht : readText r with
        | .error e => .error e
        | .ok (t, r) =>
          match readElements false r with
          | .error e => .error e
          | .ok (ts, r) => .ok (t :: ts, r)
termination_by s.length
decreasing_by
  have hl := skipSpaces_length_le s
  rw [_h] at hl
  have := elementStart_length _hs
  have := readText_length _ht
  simp only [List.length_cons] at hl
  omega

theorem readElements_length {first : Bool} {s r : Text} {ts : List Text}
    (h : readElements first s = .ok (ts, r)) : r.length < s.length := by
  fun_induction readElements first s generalizing ts r <;>
    grind [skipSpaces_length_le, → elementStart_length, → readText_length]

/-- Reads a list of strings. -/
def readTexts (s : Text) : Json.Result (List Text) :=
  match skipSpaces s with
  | [] => .error .truncated
  | c :: r => if c = '[' then readElements true r else .error (wrongType c r)

theorem readTexts_length {s r : Text} {ts : List Text} (h : readTexts s = .ok (ts, r)) :
    r.length < s.length := by
  unfold readTexts at h
  grind [skipSpaces_length_le, → readElements_length]

/-- Reads `true` or `false`. -/
def readFlag (s : Text) : Json.Result Bool :=
  match skipSpaces s with
  | [] => .error .truncated
  | c :: r =>
    if c = 't' then (expectWord "rue".toList r).map (true, ·)
    else if c = 'f' then (expectWord "alse".toList r).map (false, ·)
    else .error (wrongType c r)

theorem snd_of_map_eq_ok {α : Type} {x : Except Fault Text} {a b : α} {r : Text}
    (h : x.map (a, ·) = .ok (b, r)) : x = .ok r := by
  cases x <;> simp_all [Except.map]

theorem readFlag_length {s r : Text} {b : Bool} (h : readFlag s = .ok (b, r)) :
    r.length < s.length := by
  unfold readFlag at h
  grind [skipSpaces_length_le, → expectWord_length, → snd_of_map_eq_ok]

/-- Reads a string or `null`. -/
def readOptionalText (s : Text) : Json.Result (Option Text) :=
  match skipSpaces s with
  | 'n' :: r => (expectWord "ull".toList r).map (none, ·)
  | r =>
    match readText r with
    | .error e => .error e
    | .ok (t, r) => .ok (some t, r)

theorem readOptionalText_length {s r : Text} {t : Option Text}
    (h : readOptionalText s = .ok (t, r)) : r.length < s.length := by
  unfold readOptionalText at h
  grind [skipSpaces_length_le, → expectWord_length, → snd_of_map_eq_ok, → readText_length]

/-- Reads the name of a format after its opening quote. -/
def readFormatName (s : Text) : Json.Result CatalogFormat :=
  match readString s with
  | .error e => .error e
  | .ok (t, r) =>
    match CatalogFormat.ofName? t with
    | none => .error .mismatch
    | some f => .ok (f, r)

theorem readFormatName_length {s r : Text} {f : CatalogFormat}
    (h : readFormatName s = .ok (f, r)) : r.length < s.length := by
  unfold readFormatName at h
  grind [→ readString_length]

/-- Reads the `null` that an object holds for the name of a format. -/
def readNull (s : Text) : Except Fault Text :=
  match skipSpaces s with
  | [] => .error .truncated
  | c :: r => if c = 'n' then expectWord "ull".toList r else .error (wrongType c r)

theorem readNull_length {s r : Text} (h : readNull s = .ok r) : r.length < s.length := by
  unfold readNull at h
  grind [skipSpaces_length_le, → expectWord_length]

/-- Reads what follows the name of a format in an object: a colon, `null`, and the closing
brace. -/
def readNullMember (s : Text) : Except Fault Text :=
  match expect ':' s with
  | .error e => .error e
  | .ok r =>
    match readNull r with
    | .error e => .error e
    | .ok r => expect '\x7d' r

theorem readNullMember_length {s r : Text} (h : readNullMember s = .ok r) :
    r.length < s.length := by
  unfold readNullMember at h
  grind [→ expect_length, → readNull_length]

/-- Reads the member of an object that stands for a format, and the closing brace. -/
def readFormatObject (s : Text) : Json.Result CatalogFormat :=
  match skipSpaces s with
  | [] => .error .truncated
  | c :: r =>
    if c = '"' then
      match readFormatName r with
      | .error e => .error e
      | .ok (f, r) => (readNullMember r).map (f, ·)
    else .error (wrongType c r)

theorem readFormatObject_length {s r : Text} {f : CatalogFormat}
    (h : readFormatObject s = .ok (f, r)) : r.length < s.length := by
  unfold readFormatObject at h
  grind [skipSpaces_length_le, → readFormatName_length, → readNullMember_length,
    → snd_of_map_eq_ok]

/-- Reads a format: its name, or an object with the name as its only member. -/
def readFormat (s : Text) : Json.Result CatalogFormat :=
  match skipSpaces s with
  | [] => .error .truncated
  | c :: r =>
    if c = '"' then readFormatName r
    else if c = '\x7b' then readFormatObject r
    else .error .malformed

theorem readFormat_length {s r : Text} {f : CatalogFormat} (h : readFormat s = .ok (f, r)) :
    r.length < s.length := by
  unfold readFormat at h
  grind [skipSpaces_length_le, → readFormatName_length, → readFormatObject_length]

/-! ### Members -/

/-- Changes the value that was read. -/
def onValue {α β : Type} (g : α → β) : Json.Result α → Json.Result β
  | .error e => .error e
  | .ok (a, r) => .ok (g a, r)

theorem exists_of_onValue_eq_ok {α β : Type} {g : α → β} {x : Json.Result α} {b : β} {r : Text}
    (h : onValue g x = .ok (b, r)) : ∃ a, x = .ok (a, r) := by
  unfold onValue at h
  grind

/-- Reads the value of a field into a configuration. -/
def readField (f : ConfigField) (c : Config) (s : Text) : Json.Result Config :=
  match f with
  | .includes => onValue (fun v => { c with includes := v }) (readTexts s)
  | .ignores => onValue (fun v => { c with ignores := v }) (readTexts s)
  | .extensions => onValue (fun v => { c with extensions := v }) (readTexts s)
  | .format => onValue (fun v => { c with format := v }) (readFormat s)
  | .originComments => onValue (fun v => { c with originComments := v }) (readFlag s)
  | .output => onValue (fun v => { c with output := v }) (readOptionalText s)

theorem readField_length {f : ConfigField} {c d : Config} {s r : Text}
    (h : readField f c s = .ok (d, r)) : r.length < s.length := by
  cases f <;> obtain ⟨_, hv⟩ := exists_of_onValue_eq_ok h
  · exact readTexts_length hv
  · exact readTexts_length hv
  · exact readTexts_length hv
  · exact readFormat_length hv
  · exact readFlag_length hv
  · exact readOptionalText_length hv

/-- A configuration that is being read, and the fields that are set so far. -/
structure PartialConfig where
  config : Config := {}
  given : List ConfigField := []
  deriving Repr

/-- Reads a member after the opening quote of its key. A field is set once; a member that is no
field is passed over. -/
def readMember (p : PartialConfig) (s : Text) : Json.Result PartialConfig :=
  match readString s with
  | .error e => .error e
  | .ok (key, r) =>
    match ConfigField.ofKey? key with
    | none =>
      match expect ':' r with
      | .error e => .error e
      | .ok r => (skipValue r).map (p, ·)
    | some f =>
      if f ∈ p.given then .error .mismatch
      else
        match expect ':' r with
        | .error e => .error e
        | .ok r =>
          match readField f p.config r with
          | .error e => .error e
          | .ok (c, r) => .ok (⟨c, f :: p.given⟩, r)

theorem skipFrom_length_le {stage : Stage} {brackets : List Bracket} {s r : Text}
    (h : skipFrom stage brackets s = .ok r) : r.length ≤ s.length := by
  fun_induction skipFrom stage brackets s <;>
    grind [skipSpaces_length_le, → skipScalar_length, → Bracket.skipKey_length]

theorem readMember_length {p q : PartialConfig} {s r : Text} (h : readMember p s = .ok (q, r)) :
    r.length < s.length := by
  unfold readMember skipValue at h
  grind [→ readString_length, → expect_length, → readField_length, → snd_of_map_eq_ok,
    → skipFrom_length_le]

/-- The text after the opening quote of the next key of an object. `c` and `r` are what follows
the opening brace, if the member is the `first`, or what follows the member before. -/
def memberStart (first : Bool) (c : Char) (r : Text) : Except Fault Text :=
  if first then if c = '"' then .ok r else .error .malformed
  else if c = ',' then expect '"' r
  else .error .malformed

theorem memberStart_length {first : Bool} {c : Char} {r t : Text}
    (h : memberStart first c r = .ok t) : t.length ≤ r.length := by
  unfold memberStart at h
  grind [→ expect_length]

/-- Reads the members of an object that are left, and the closing brace. -/
def readMembers (first : Bool) (p : PartialConfig) (s : Text) : Json.Result Config :=
  match _h : skipSpaces s with
  | [] => .error .truncated
  | c :: r =>
    if c = '\x7d' then .ok (p.config, r)
    else
      match _hs : memberStart first c r with
      | .error e => .error e
      | .ok r =>
        match _hm : readMember p r with
        | .error e => .error e
        | .ok (q, r) => readMembers false q r
termination_by s.length
decreasing_by
  have hl := skipSpaces_length_le s
  rw [_h] at hl
  have := memberStart_length _hs
  have := readMember_length _hm
  simp only [List.length_cons] at hl
  omega

/-- Reads the values of a list that are left into the fields that are left, and the closing
bracket. -/
def readValues (first : Bool) (fs : List ConfigField) (c : Config) (s : Text) :
    Json.Result Config :=
  match fs with
  | [] => (expect ']' s).map (c, ·)
  | f :: fs =>
    match skipSpaces s with
    | [] => .error .truncated
    | d :: r =>
      if d = ']' then .ok (c, r)
      else
        match elementStart first d r with
        | .error e => .error e
        | .ok r =>
          match readField f c r with
          | .error e => .error e
          | .ok (c, r) => readValues false fs c r

/-! ### Configurations -/

/-- Reads a configuration in front of a text. -/
def readConfig (s : Text) : Json.Result Config :=
  match skipSpaces s with
  | [] => .error .truncated
  | c :: r =>
    if c = '\x7b' then readMembers true {} r
    else if c = '[' then readValues true ConfigField.all {} r
    else .error (wrongType c r)

/-- Reads a text that is exactly one configuration. -/
def Config.parse (s : Text) : Except Fault Config :=
  match readConfig s with
  | .error e => .error e
  | .ok (c, r) => if (skipSpaces r).isEmpty then .ok c else .error .malformed

end TemplateCatalog
