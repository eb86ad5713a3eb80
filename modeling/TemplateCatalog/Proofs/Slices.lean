/-
Slices of a text, by bytes.

The readers of this library take a text apart from the front. They can also be run on byte
offsets into one text, which they slice: a slice is there if its ends are in order and each
stands between two characters (`slice?_eq_some_iff`), and no byte offset can be less than zero
(`minus?`). The modules that import this one say that no such run ever asks for a slice that is
not there.

Loops over offsets are run by `loop?`, which also stops without a result when a turn does not
lead on; what one turn keeps up holds at the end (`exists_loop?`).
-/
import TemplateCatalog.Proofs.LineColumn

namespace TemplateCatalog

namespace Text

theorem byteSize_pos {s : Text} (h : s ≠ []) : 0 < byteSize s :=
  Nat.pos_of_ne_zero fun hzero => h (eq_nil_of_byteSize_eq_zero hzero)

/-! ### Slicing -/

/-- The text in front of byte `n` and the text from there on, if the byte is in the text and
starts a character. -/
def cutAt? (n : Nat) (s : Text) : Option (Text × Text) :=
  if byteSize (splitAtByte n s).1 = n then some (splitAtByte n s) else none

/-- The text from byte `i` on. -/
def sliceFrom? (s : Text) (i : Nat) : Option Text := (cutAt? i s).map Prod.snd

/-- The text in front of byte `j`. -/
def sliceTo? (s : Text) (j : Nat) : Option Text := (cutAt? j s).map Prod.fst

/-- The text from byte `i` to byte `j`. -/
def slice? (s : Text) (i j : Nat) : Option Text :=
  if i ≤ j then (sliceTo? s j).bind (sliceFrom? · i) else none

/-- The difference of two byte offsets. -/
def minus? (n m : Nat) : Option Nat := if m ≤ n then some (n - m) else none

theorem minus?_add (m n : Nat) : minus? (m + n) m = some n := by
  rw [minus?, if_pos (Nat.le_add_right m n), Nat.add_sub_cancel_left]

theorem cutAt?_eq_some_iff {n : Nat} {s front back : Text} :
    cutAt? n s = some (front, back) ↔ s = front ++ back ∧ byteSize front = n := by
  constructor
  · intro h
    rw [cutAt?] at h
    split_ifs at h with hsize
    have happ := splitAtByte_append n s
    rw [Option.some.inj h] at hsize happ
    exact ⟨happ.symm, hsize⟩
  · rintro ⟨rfl, rfl⟩
    rw [cutAt?, splitAtByte_byteSize, if_pos rfl]

theorem sliceFrom?_eq_some_iff {s r : Text} {i : Nat} :
    sliceFrom? s i = some r ↔ At s i r := by
  rw [sliceFrom?, Option.map_eq_some_iff]
  constructor
  · rintro ⟨⟨front, back⟩, hcut, rfl⟩
    exact ⟨front, cutAt?_eq_some_iff.1 hcut⟩
  · rintro ⟨front, hparts⟩
    exact ⟨(front, r), cutAt?_eq_some_iff.2 hparts, rfl⟩

theorem sliceTo?_eq_some_iff {s front : Text} {j : Nat} :
    sliceTo? s j = some front ↔ front <+: s ∧ byteSize front = j := by
  rw [sliceTo?, Option.map_eq_some_iff]
  constructor
  · rintro ⟨⟨front, back⟩, hcut, rfl⟩
    obtain ⟨rfl, hsize⟩ := cutAt?_eq_some_iff.1 hcut
    exact ⟨List.prefix_append _ _, hsize⟩
  · rintro ⟨⟨back, rfl⟩, hsize⟩
    exact ⟨(front, back), cutAt?_eq_some_iff.2 ⟨rfl, hsize⟩, rfl⟩

/-- A slice is there if its ends are in order and stand between characters of the text. -/
theorem slice?_eq_some_iff {s m : Text} {i j : Nat} :
    slice? s i j = some m ↔ ∃ r, At s i (m ++ r) ∧ i + byteSize m = j := by
  rw [slice?]
  constructor
  · intro h
    split_ifs at h with hij
    obtain ⟨front, hfront, hm⟩ := Option.bind_eq_some_iff.1 h
    obtain ⟨⟨r, rfl⟩, rfl⟩ := sliceTo?_eq_some_iff.1 hfront
    have hat := sliceFrom?_eq_some_iff.1 hm
    exact ⟨r, hat.append_right r, hat.size⟩
  · rintro ⟨r, ⟨front, rfl, rfl⟩, rfl⟩
    have hfront :
        sliceTo? (front ++ (m ++ r)) (byteSize front + byteSize m) = some (front ++ m) :=
      sliceTo?_eq_some_iff.2 ⟨⟨r, by simp⟩, byteSize_append front m⟩
    rw [if_pos (Nat.le_add_right _ _), hfront]
    exact sliceFrom?_eq_some_iff.2 ⟨front, rfl, rfl⟩

namespace At

variable {s r m : Text} {i : Nat}

theorem sliceFrom?_eq (h : At s i r) : sliceFrom? s i = some r := sliceFrom?_eq_some_iff.2 h

theorem slice?_eq (h : At s i (m ++ r)) : slice? s i (i + byteSize m) = some m :=
  slice?_eq_some_iff.2 ⟨r, h, rfl⟩

theorem le_size (h : At s i r) : i ≤ byteSize s := h.size ▸ Nat.le_add_right i _

/-- From further on there is less text. -/
theorem suffix_of_le {r' : Text} {j : Nat} (h : At s i r) (h' : At s j r') (hij : i ≤ j) :
    r' <:+ r := by
  have hsize := h.size
  have hsize' := h'.size
  obtain ⟨front, rfl, -⟩ := h
  obtain ⟨front', heq, -⟩ := h'
  rcases List.suffix_or_suffix_of_suffix ⟨front', heq.symm⟩
    ⟨front, rfl⟩ with hsuffix | ⟨passed, rfl⟩
  · exact hsuffix
  · have hpassed : passed = [] :=
      eq_nil_of_byteSize_eq_zero (by rw [byteSize_append passed] at hsize'; omega)
    rw [hpassed]
    exact List.suffix_refl r

end At

/-! ### Searching -/

/-- The byte at which the first occurrence of `needle` from byte `i` on starts. -/
def findFrom? (s needle : Text) (i : Nat) : Option (Option Nat) :=
  (sliceFrom? s i).map fun rest => (cut? needle rest).map fun (before, _) =>
    i + byteSize before

theorem findFrom?_eq {s r : Text} {i : Nat} (h : At s i r) (needle : Text) :
    findFrom? s needle i =
      some ((cut? needle r).map fun (before, _) => i + byteSize before) := by
  rw [findFrom?, h.sliceFrom?_eq, Option.map_some]

/-- The first occurrence of a character, if there is one. -/
theorem cut?_char (c : Char) (s : Text) : (cut? [c] s = none ∧ c ∉ s) ∨
    ∃ before after, cut? [c] s = some (before, after) ∧ c ∉ before ∧
      s = before ++ c :: after := by
  cases hcut : cut? [c] s with
  | none =>
    refine Or.inl ⟨rfl, fun hmem => cut?_eq_none_iff.1 hcut ?_⟩
    obtain ⟨a, b, rfl⟩ := List.append_of_mem hmem
    exact ⟨a, b, by simp⟩
  | some p =>
    obtain ⟨before, after⟩ := p
    have hfirst := cut?_eq_some_iff.1 hcut
    refine Or.inr ⟨before, after, rfl, fun hmem => ?_, by simpa using hfirst.parts⟩
    obtain ⟨a, b, rfl⟩ := List.append_of_mem hmem
    have hle := hfirst.first a (b ++ c :: after) (by rw [hfirst.parts]; simp)
    rw [List.length_append, List.length_cons] at hle
    omega

/-! ### Pieces of a text -/

/-- A text that lies somewhere in memory: the address of its first byte, and the text. -/
structure Slice where
  start : Nat
  text : Text
  deriving DecidableEq, Repr

namespace Slice

/-- The part of a slice from byte `i` to byte `j`. -/
def sub? (s : Slice) (i j : Nat) : Option Slice := (slice? s.text i j).map (⟨s.start + i, ·⟩)

/-- The slice without the blanks at its ends. -/
def trim (s : Slice) : Slice := ⟨s.start + byteSize (leadingBlanks s.text), Text.trim s.text⟩

/-- The byte of `whole` that `part` starts at, by their addresses. -/
def offsetIn? (whole part : Slice) : Option Nat := minus? part.start whole.start

theorem sub?_eq {s : Slice} {i : Nat} {m r : Text} (h : At s.text i (m ++ r)) :
    s.sub? i (i + byteSize m) = some ⟨s.start + i, m⟩ := by
  rw [sub?, h.slice?_eq, Option.map_some]

end Slice

/-! ### Loops -/

/-- What one turn of a loop leads to: another turn, or the end of the loop with its result. -/
inductive Turn (σ β : Type) where
  | again (state : σ)
  | done (result : β)

section Loops

variable {σ β : Type} (size : Nat) (offset : σ → Nat) (turn : σ → Option (Turn σ β))

/-- Runs a loop over the offsets of a text of `size` bytes. A turn must lead further into the
text. -/
def loop? (state : σ) : Option β :=
  match turn state with
  | none => none
  | some (.done result) => some result
  | some (.again next) =>
    if offset state < offset next ∧ offset next ≤ size then loop? next else none
termination_by size - offset state
decreasing_by
  rename_i hnext
  omega

variable {size offset turn}

/-- If every turn from a state with the property leads on to one or ends with the wanted
result, so does the loop. -/
theorem exists_loop? {Keeps : σ → Prop} {Wanted : β → Prop}
    (hturn : ∀ state, Keeps state →
      (∃ result, turn state = some (.done result) ∧ Wanted result) ∨
        ∃ next, turn state = some (.again next) ∧ offset state < offset next ∧
          offset next ≤ size ∧ Keeps next)
    {state : σ} (hstate : Keeps state) :
    ∃ result, loop? size offset turn state = some result ∧ Wanted result := by
  -- The loop stops without a result if a slice fails or the offset does not grow, which no
  -- turn does here.
  fun_induction loop? size offset turn state with
  | case1 state hnone =>
    rcases hturn state hstate with ⟨_, hdone, -⟩ | ⟨_, hagain, -⟩
    · cases hnone.symm.trans hdone
    · cases hnone.symm.trans hagain
  | case2 state result hresult =>
    rcases hturn state hstate with ⟨_, hdone, hwanted⟩ | ⟨_, hagain, -⟩
    · cases hresult.symm.trans hdone
      exact ⟨result, rfl, hwanted⟩
    · cases hresult.symm.trans hagain
  | case3 state next hnext _ ih =>
    rcases hturn state hstate with ⟨_, hdone, -⟩ | ⟨_, hagain, -, -, hkeeps⟩
    · cases hnext.symm.trans hdone
    · cases hnext.symm.trans hagain
      exact ih hkeeps
  | case4 state next hnext hstuck =>
    rcases hturn state hstate with ⟨_, hdone, -⟩ | ⟨_, hagain, hless, hle, -⟩
    · cases hnext.symm.trans hdone
    · cases hnext.symm.trans hagain
      exact absurd ⟨hless, hle⟩ hstuck

end Loops

end Text

end TemplateCatalog
