/-
Splitting the contents of a tag into fragments.

Blanks separate fragments, except inside a quoted phrase: `"a b"` stays together, and so does
text glued to a phrase, as in `key="a b"`. A fragment is the longest run of bare text and
complete phrases if it has at least one phrase; otherwise a quote means nothing and the
fragment is the longest run without a blank. Splitting never fails.

* `takeFragment_append`: a fragment and the rest join to the whole;
* `Splitter.next?_rest_length`: every fragment takes something off the text.
-/
import TemplateCatalog.Template.Literal

namespace TemplateCatalog

open Text

/-- Characters that are neither blank nor a quote. -/
def isBare (c : Char) : Bool := !isBlank c && !isQuote c

/-! ### One fragment -/

/-- The longest run of phrases, each with the bare text after it, and the rest. -/
def takePhrases (s : Text) : Text × Text :=
  match _h : Literal.take? s with
  | none => ([], s)
  | some (l, r) =>
    let (more, rest) := takePhrases (r.dropWhile isBare)
    (l.toText ++ r.takeWhile isBare ++ more, rest)
termination_by s.length
decreasing_by
  have := Literal.take?_length _h
  have : (r.dropWhile isBare).length ≤ r.length := (List.dropWhile_suffix isBare).length_le
  omega

theorem takePhrases_append (s : Text) : (takePhrases s).1 ++ (takePhrases s).2 = s := by
  fun_induction takePhrases s with
  | case1 => rfl
  | case2 s l r h more rest e ih =>
    rw [e] at ih
    simp only [List.append_assoc]
    rw [ih, List.takeWhile_append_dropWhile, ← Literal.take?_eq_some h]

/-- The fragment that a text starts with, and the rest. -/
def takeFragment (s : Text) : Text × Text :=
  match takePhrases (s.dropWhile isBare) with
  | ([], _) => (s.takeWhile (!isBlank ·), s.dropWhile (!isBlank ·))
  | (phrases, rest) => (s.takeWhile isBare ++ phrases, rest)

/-- A fragment and the rest join to the whole. -/
theorem takeFragment_append (s : Text) : (takeFragment s).1 ++ (takeFragment s).2 = s := by
  have h := takePhrases_append (s.dropWhile isBare)
  unfold takeFragment
  split
  · exact List.takeWhile_append_dropWhile
  · rename_i e
    rw [e] at h
    simp only [List.append_assoc]
    rw [h, List.takeWhile_append_dropWhile]

/-- In front of a character that is not blank the fragment is not empty. -/
theorem takeFragment_ne_nil {c : Char} {r : Text} (hc : isBlank c = false) :
    (takeFragment (c :: r)).1 ≠ [] := by
  unfold takeFragment
  split
  · simp [hc]
  · rename_i phrases rest hp _
    exact fun h => hp (List.append_eq_nil_iff.1 h).2

/-! ### All fragments -/

/-- A fragment, and the byte of the whole text it starts at. -/
structure Fragment where
  offset : Nat
  text : Text
  deriving DecidableEq, Repr

/-- A place in a text that is being split: its byte, and the text from there on. -/
structure Splitter where
  offset : Nat
  rest : Text
  deriving DecidableEq, Repr

namespace Splitter

/-- The splitter in front of a text. -/
def start (s : Text) : Splitter := ⟨0, s⟩

/-- Takes one fragment off the text, with the blanks in front of it. -/
def next? (p : Splitter) : Option (Fragment × Splitter) :=
  match trimStart p.rest with
  | [] => none
  | c :: r =>
    let offset := p.offset + byteSize (leadingBlanks p.rest)
    let (fragment, rest) := takeFragment (c :: r)
    some (⟨offset, fragment⟩, ⟨offset + byteSize fragment, rest⟩)

/-- Every fragment takes something off the text. -/
theorem next?_rest_length {p p' : Splitter} {f : Fragment} (h : p.next? = some (f, p')) :
    p'.rest.length < p.rest.length := by
  unfold next? at h
  split at h
  · simp at h
  · rename_i c r hs
    -- What follows the blanks starts with a character that is none.
    have hc : isBlank c = false := by
      have := List.head?_dropWhile_not isBlank p.rest
      unfold trimStart at hs
      simpa [hs] using this
    have hn := takeFragment_ne_nil (r := r) hc
    have hl := congrArg List.length (takeFragment_append (c :: r))
    have hd : (trimStart p.rest).length ≤ p.rest.length :=
      (List.dropWhile_suffix isBlank).length_le
    simp only [Option.some.injEq, Prod.mk.injEq] at h
    rw [← h.2]
    rw [hs] at hd
    simp only [List.length_append] at hl
    have := List.length_pos_iff.2 hn
    simp only
    omega

/-- All fragments that are left. -/
def fragments (p : Splitter) : List Fragment :=
  match _h : p.next? with
  | none => []
  | some (f, p') => f :: p'.fragments
termination_by p.rest.length
decreasing_by exact next?_rest_length _h

end Splitter

/-- Splits a text into its fragments. -/
def splitFragments (s : Text) : List Fragment := (Splitter.start s).fragments

end TemplateCatalog
