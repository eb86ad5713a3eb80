/-
Text as a list of characters, measured in UTF-8 bytes.

* `byteSize s` is the number of bytes of `s` in UTF-8, `byteSize_append` makes offsets
  additive;
* `splitAtByte n s` cuts `s` at the last character boundary not beyond byte `n`
  (`splitAtByte_append`: nothing is lost);
* `cut? needle s` cuts `s` around the first occurrence of `needle`
  (`cut?_eq_some`: the parts join to `s` again);
* `sortDistinct xs` lists the members of `xs` once each, in code point order, which is also the
  order of their UTF-8 bytes.
-/
namespace TemplateCatalog

/-- A text is the list of its characters. -/
abbrev Text := List Char

namespace Text

/-! ### Sizes in bytes -/

/-- The number of bytes of a text in UTF-8. -/
def byteSize : Text → Nat
  | [] => 0
  | c :: r => c.utf8Size + byteSize r

@[simp] theorem byteSize_nil : byteSize [] = 0 := rfl

@[simp] theorem byteSize_cons (c : Char) (r : Text) :
    byteSize (c :: r) = c.utf8Size + byteSize r := rfl

@[simp] theorem byteSize_append (s t : Text) : byteSize (s ++ t) = byteSize s + byteSize t := by
  induction s with
  | nil => simp
  | cons c r ih => simp [ih, Nat.add_assoc]

theorem length_le_byteSize (s : Text) : s.length ≤ byteSize s := by
  induction s with
  | nil => simp
  | cons c r ih =>
    have := c.utf8Size_pos
    simp only [List.length_cons, byteSize_cons]
    omega

/-- The longest prefix of at most `n` bytes, and the rest. -/
def splitAtByte : Nat → Text → Text × Text
  | _, [] => ([], [])
  | n, c :: r =>
    if c.utf8Size ≤ n then
      let (front, back) := splitAtByte (n - c.utf8Size) r
      (c :: front, back)
    else ([], c :: r)

theorem splitAtByte_append (n : Nat) (s : Text) :
    (splitAtByte n s).1 ++ (splitAtByte n s).2 = s := by
  fun_induction splitAtByte n s with
  | case1 => rfl
  | case2 n c r h front back e ih => rw [e] at ih; simpa using ih
  | case3 => rfl

/-- A text is cut where another one ends that it starts with. -/
theorem splitAtByte_byteSize (front back : Text) :
    splitAtByte (byteSize front) (front ++ back) = (front, back) := by
  induction front with
  | nil =>
    cases back with
    | nil => rfl
    | cons c back =>
      have := c.utf8Size_pos
      rw [byteSize_nil, List.nil_append, splitAtByte, if_neg (by omega)]
  | cons c front ih =>
    rw [byteSize_cons, List.cons_append, splitAtByte, if_pos (Nat.le_add_right _ _),
      Nat.add_sub_cancel_left, ih]

/-! ### Searching -/

/-- Does `needle` occur in the text? -/
def occurs (needle : Text) : Text → Bool
  | [] => needle.isEmpty
  | c :: r => needle.isPrefixOf (c :: r) || occurs needle r

/-- The text before the first occurrence of `needle`, and the text after that occurrence. -/
def cut? (needle : Text) : Text → Option (Text × Text)
  | [] => if needle.isEmpty then some ([], []) else none
  | c :: r =>
    if needle.isPrefixOf (c :: r) then some ([], (c :: r).drop needle.length)
    else (cut? needle r).map fun (before, after) => (c :: before, after)

theorem append_drop_of_isPrefixOf {needle s : Text} (h : needle.isPrefixOf s = true) :
    needle ++ s.drop needle.length = s := by
  obtain ⟨t, rfl⟩ := List.isPrefixOf_iff_prefix.1 h
  simp

/-- The two parts of a cut join to the text again, the needle between them. -/
theorem cut?_eq_some {needle s before after : Text} (h : cut? needle s = some (before, after)) :
    s = before ++ needle ++ after := by
  fun_induction cut? needle s generalizing before after with
  | case1 hn =>
    obtain ⟨rfl, rfl⟩ := h
    simpa using hn
  | case2 => simp at h
  | case3 c r hp =>
    obtain ⟨rfl, rfl⟩ := h
    simpa using (append_drop_of_isPrefixOf hp).symm
  | case4 c r _ ih =>
    obtain ⟨⟨b, a⟩, hb, hp⟩ := Option.map_eq_some_iff.1 h
    simp only [Prod.mk.injEq] at hp
    obtain ⟨rfl, rfl⟩ := hp
    simp [ih hb]

/-! ### Order -/

/-- The members of a list once each, in code point order. -/
def sortDistinct (xs : List Text) : List Text :=
  (xs.mergeSort fun a b => !decide (b < a)).eraseReps

/-! ### Lines and numbers -/

/-- A line with its line feed. -/
def line (s : Text) : Text := s ++ ['\n']

/-- A number in decimal digits. -/
def decimal (n : Nat) : Text := Nat.toDigits 10 n

/-- `n` spaces. -/
def spaces (n : Nat) : Text := List.replicate n ' '

end Text

end TemplateCatalog
