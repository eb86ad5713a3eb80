/-
Where the fragments of a text lie.

`Spread i fs j` says that the fragments `fs` lie one after another between byte `i` and byte
`j`. The fragments that a splitter cuts off lie so in its text (`Splitter.fragments_spread`),
and each stands there at its own byte (`Splitter.fragments_at`). What lies so stays apart:
`Spread.pairwise`.
-/
import TemplateCatalog.Proofs.Lists
import TemplateCatalog.Proofs.Occurrence
import TemplateCatalog.Template.Fragment
import Mathlib.Data.List.TakeWhile

namespace TemplateCatalog

open Text

/-! ### One step of the splitter -/

namespace Splitter

/-- What one step does: it passes over blanks, and takes off a fragment that is not empty. -/
theorem next?_spec {p p' : Splitter} {f : Fragment} (h : p.next? = some (f, p')) :
    ∃ blanks, p.rest = blanks ++ (f.text ++ p'.rest) ∧ (∀ c ∈ blanks, isBlank c = true) ∧
      f.text ≠ [] ∧ f.offset = p.offset + byteSize blanks ∧
      p'.offset = f.offset + byteSize f.text := by
  rw [next?] at h
  split at h
  · exact absurd h (by simp)
  · rename_i c r hs
    -- Where the blanks end a character stands that is none.
    have hc : isBlank c = false := by
      have hd := List.head?_dropWhile_not isBlank p.rest
      rw [trimStart] at hs
      simpa [hs] using hd
    simp only [Option.some.injEq, Prod.mk.injEq] at h
    rw [← h.1, ← h.2]
    refine ⟨leadingBlanks p.rest, ?_, fun d hd => List.mem_takeWhile_imp hd,
      takeFragment_ne_nil hc, rfl, rfl⟩
    rw [takeFragment_append, ← hs, leadingBlanks_append_trimStart]

theorem next?_eq_none_iff {p : Splitter} :
    p.next? = none ↔ ∀ c ∈ p.rest, isBlank c = true := by
  rw [← List.dropWhile_eq_nil_iff]
  rw [next?, trimStart]
  split <;> simp_all

theorem fragments_of_none {p : Splitter} (h : p.next? = none) : p.fragments = [] := by
  rw [fragments]
  split <;> simp_all

theorem fragments_of_some {p p' : Splitter} {f : Fragment} (h : p.next? = some (f, p')) :
    p.fragments = f :: p'.fragments := by
  rw [fragments]
  split <;> simp_all

end Splitter

/-! ### Spread fragments -/

/-- The byte after a fragment. -/
def Fragment.stop (f : Fragment) : Nat := f.offset + byteSize f.text

/-- Is the byte `i` in the fragment? -/
def Fragment.Covers (f : Fragment) (i : Nat) : Prop := f.offset ≤ i ∧ i < f.stop

/-- The fragments lie one after another between byte `i` and byte `j`. -/
def Spread : Nat → List Fragment → Nat → Prop
  | i, [], j => i ≤ j
  | i, f :: fs, j => i ≤ f.offset ∧ Spread f.stop fs j

theorem Spread.le {i j : Nat} {fs : List Fragment} (h : Spread i fs j) : i ≤ j := by
  induction fs generalizing i with
  | nil => exact h
  | cons f fs ih =>
    have := h.1
    have := ih h.2
    rw [Fragment.stop] at this
    omega

theorem Spread.widen {i i' j j' : Nat} {fs : List Fragment} (h : Spread i fs j) (hi : i' ≤ i)
    (hj : j ≤ j') : Spread i' fs j' := by
  induction fs generalizing i i' with
  | nil => exact Nat.le_trans hi (Nat.le_trans h hj)
  | cons f fs ih => exact ⟨Nat.le_trans hi h.1, ih h.2 (Nat.le_refl _)⟩

theorem Spread.sublist {i j : Nat} {fs gs : List Fragment} (h : Spread i fs j)
    (hs : gs.Sublist fs) : Spread i gs j := by
  induction hs generalizing i with
  | slnil => exact h
  | cons f _ ih =>
    refine (ih h.2).widen ?_ (Nat.le_refl _)
    have := h.1
    rw [Fragment.stop]
    omega
  | cons_cons f _ ih => exact ⟨h.1, ih h.2⟩

theorem Spread.bounds {i j : Nat} {fs : List Fragment} (h : Spread i fs j) {f : Fragment}
    (hf : f ∈ fs) : i ≤ f.offset ∧ f.stop ≤ j := by
  induction fs generalizing i with
  | nil => exact absurd hf (by simp)
  | cons g fs ih =>
    rcases List.mem_cons.1 hf with rfl | hf
    · exact ⟨h.1, h.2.le⟩
    · have hi := ih h.2 hf
      have hg := h.1
      refine ⟨?_, hi.2⟩
      rw [Fragment.stop] at hi
      omega

/-- Each fragment ends before the later ones start. -/
theorem Spread.pairwise {i j : Nat} {fs : List Fragment} (h : Spread i fs j) :
    fs.Pairwise fun f g => f.stop ≤ g.offset := by
  induction fs generalizing i with
  | nil => exact .nil
  | cons f fs ih => exact List.pairwise_cons.2 ⟨fun g hg => (h.2.bounds hg).1, ih h.2⟩

/-- In two parts of spread fragments, those of the first lie before those of the second. -/
theorem Spread.before {i j : Nat} {fs gs : List Fragment} (h : Spread i (fs ++ gs) j) :
    ∀ f ∈ fs, ∀ g ∈ gs, f.stop ≤ g.offset := (List.pairwise_append.1 h.pairwise).2.2

theorem Spread.unique {i j : Nat} {fs : List Fragment} (h : Spread i fs j) {f g : Fragment}
    (hf : f ∈ fs) (hg : g ∈ fs) {n : Nat} (hfn : f.Covers n) (hgn : g.Covers n) : f = g := by
  rw [Fragment.Covers] at hfn hgn
  rcases pairwise_cases h.pairwise hf hg with h | h | h
  · exact h
  · omega
  · omega

/-- The fragment in a text that starts `n` bytes later. -/
def Fragment.shift (n : Nat) (f : Fragment) : Fragment := ⟨n + f.offset, f.text⟩

theorem Spread.shift {i j : Nat} {fs : List Fragment} (h : Spread i fs j) (n : Nat) :
    Spread (n + i) (fs.map (Fragment.shift n)) (n + j) := by
  induction fs generalizing i with
  | nil => exact Nat.add_le_add_left h n
  | cons f fs ih =>
    refine ⟨Nat.add_le_add_left h.1 n, ?_⟩
    have hs : Fragment.stop (f.shift n) = n + f.stop := Nat.add_assoc ..
    rw [hs]
    exact ih h.2

/-! ### The fragments of a text -/

namespace Splitter

theorem fragments_spread (p : Splitter) :
    Spread p.offset p.fragments (p.offset + byteSize p.rest) := by
  fun_induction fragments p with
  | case1 p hn => exact Nat.le_add_right _ _
  | case2 p f p' hn ih =>
    -- One step leads from the splitter over the blanks and the fragment to the next one.
    obtain ⟨blanks, hrest, -, -, ho, ho'⟩ := next?_spec hn
    refine ⟨by omega, ?_⟩
    have he : p.offset + byteSize p.rest = p'.offset + byteSize p'.rest := by
      rw [hrest, byteSize_append, byteSize_append]
      omega
    rw [he, Fragment.stop, ← ho']
    exact ih

theorem fragments_at {p : Splitter} {s : Text} (h : At s p.offset p.rest) {f : Fragment}
    (hf : f ∈ p.fragments) : ∃ r, At s f.offset (f.text ++ r) := by
  fun_induction fragments p with
  | case1 p hn => exact absurd hf (by simp)
  | case2 p g p' hn ih =>
    obtain ⟨blanks, hrest, -, -, ho, ho'⟩ := next?_spec hn
    have hg : At s g.offset (g.text ++ p'.rest) := by
      rw [ho]
      exact (hrest ▸ h).add
    rcases List.mem_cons.1 hf with rfl | hf
    · exact ⟨_, hg⟩
    · refine ih ?_ hf
      rw [ho']
      exact hg.add

end Splitter

theorem splitFragments_spread (s : Text) : Spread 0 (splitFragments s) (byteSize s) := by
  have h := (Splitter.start s).fragments_spread
  rwa [show (Splitter.start s).offset = 0 from rfl, Nat.zero_add] at h

theorem splitFragments_at {s : Text} {f : Fragment} (hf : f ∈ splitFragments s) :
    ∃ r, At s f.offset (f.text ++ r) :=
  Splitter.fragments_at (At.start s) hf

end TemplateCatalog
