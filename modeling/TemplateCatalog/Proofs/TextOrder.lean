/-
Texts in byte order.

Texts are compared by code points, names of files by their bytes. In UTF-8 this is one order
(`bytes_lt_of_lt`): the first byte of a longer code is the greater one, and codes of one length
are compared like the numbers they are cut from (`utf8EncodeChar_append_lt`). So `sortDistinct
xs` lists the members of `xs` once each in byte order (`isSortedSet_sortDistinct`), and as only
one list does that (`IsSortedSet.unique`), neither the order of `xs` nor its repetitions matter
(`sortDistinct_congr`).
-/
import TemplateCatalog.Files.Tree
import Mathlib.Data.List.Destutter
import Mathlib.Data.List.Sort

namespace TemplateCatalog

open Text

/-! ### Bytes of texts -/

/-- The bytes of a text in UTF-8. -/
def Text.bytes (s : Text) : List UInt8 := (encodeText s).data.toList

theorem bytes_eq_flatMap (s : Text) : bytes s = s.flatMap String.utf8EncodeChar :=
  List.toList_data_toByteArray

theorem bytes_cons (c : Char) (s : Text) :
    bytes (c :: s) = String.utf8EncodeChar c ++ bytes s := by
  simp only [bytes_eq_flatMap, List.flatMap_cons]

theorem nil_lt_bytes_cons (c : Char) (s : Text) : bytes [] < bytes (c :: s) := by
  rw [bytes_cons, bytes_eq_flatMap, List.flatMap_nil]
  simp only [String.utf8EncodeChar]
  split_ifs <;> exact List.nil_lt_cons _ _

theorem uint8_ofNat_lt_iff {m n : Nat} (hm : m < 256) (hn : n < 256) :
    UInt8.ofNat m < UInt8.ofNat n ↔ m < n := by
  rw [UInt8.lt_iff_toNat_lt, UInt8.toNat_ofNat', UInt8.toNat_ofNat', Nat.mod_eq_of_lt hm,
    Nat.mod_eq_of_lt hn]

theorem uint8_ofNat_inj {m n : Nat} (hm : m < 256) (hn : n < 256) :
    UInt8.ofNat m = UInt8.ofNat n ↔ m = n := by
  rw [← UInt8.toNat_inj, UInt8.toNat_ofNat', UInt8.toNat_ofNat', Nat.mod_eq_of_lt hm,
    Nat.mod_eq_of_lt hn]

/-- The code of a smaller character comes first, whatever follows. -/
theorem utf8EncodeChar_append_lt {c d : Char} (h : c < d) (u v : List UInt8) :
    String.utf8EncodeChar c ++ u < String.utf8EncodeChar d ++ v := by
  have hcd : c.val.toNat < d.val.toNat := h
  have hd : d.val.toNat < 0x110000 := by
    have hv := d.valid
    simp only [UInt32.isValidChar, Nat.isValidChar] at hv
    omega
  simp only [String.utf8EncodeChar]
  generalize c.val.toNat = m at hcd ⊢
  generalize d.val.toNat = n at hcd hd ⊢
  -- The bytes of a code are digits of one number to the base 64.
  have digits (k : Nat) (hk : k < 0x110000) :
      k / 64 / 64 = k / 4096 ∧ k / 4096 / 64 = k / 262144 ∧ k / 262144 % 8 = k / 262144 :=
    ⟨Nat.div_div_eq_div_mul _ _ _, Nat.div_div_eq_div_mul _ _ _, by omega⟩
  have hm := digits m (by omega)
  have hn := digits n hd
  -- One case for each pair of lengths; the first byte that differs decides it.
  split_ifs <;>
    simp (disch := omega) only [List.cons_append, List.nil_append, List.cons_lt_cons_iff,
      uint8_ofNat_lt_iff, uint8_ofNat_inj] <;>
    omega

/-- The order of texts is the order of their bytes. -/
theorem bytes_lt_of_lt {a b : Text} (h : a < b) : bytes a < bytes b := by
  induction a generalizing b with
  | nil =>
    cases b with
    | nil => exact absurd h (List.lt_irrefl _)
    | cons d t => exact nil_lt_bytes_cons d t
  | cons c s ih =>
    cases b with
    | nil => exact absurd h (List.not_lt_nil _)
    | cons d t =>
      rw [bytes_cons, bytes_cons]
      rcases List.cons_lt_cons_iff.1 h with hcd | ⟨rfl, hst⟩
      · exact utf8EncodeChar_append_lt hcd _ _
      · exact List.append_left_lt (ih hst)

/-! ### Sorted sets -/

/-- A list holds the members of `xs` once each, in the order of their bytes. -/
structure IsSortedSet (l xs : List Text) : Prop where
  ascending : l.Pairwise fun a b => bytes a < bytes b
  members : ∀ x, x ∈ l ↔ x ∈ xs

/-- Only one list holds given members in order. -/
theorem IsSortedSet.unique {l m xs : List Text} (hl : IsSortedSet l xs)
    (hm : IsSortedSet m xs) : l = m := by
  have : Std.Antisymm fun a b : Text => bytes a < bytes b :=
    ⟨fun _ _ hab hba => absurd hba (List.lt_asymm hab)⟩
  have : Std.Irrefl fun a b : Text => bytes a < bytes b := ⟨fun _ => List.lt_irrefl _⟩
  exact hl.ascending.eq_of_mem_iff hm.ascending fun x =>
    (hl.members x).trans (hm.members x).symm

theorem eraseReps_eq_destutter (l : List Text) : l.eraseReps = l.destutter (· ≠ ·) := by
  have loop (a : Text) (l acc : List Text) :
      List.eraseRepsBy.loop (· == ·) a l acc = acc.reverse ++ l.destutter' (· ≠ ·) a := by
    induction l generalizing a acc with
    | nil => rw [List.eraseRepsBy.loop, List.destutter'_nil, List.reverse_cons]
    | cons b l ih =>
      rw [List.eraseRepsBy.loop]
      by_cases hab : a = b
      · rw [hab, beq_self_eq_true, List.destutter'_cons_neg _ (not_not.2 rfl)]
        exact ih b acc
      · rw [beq_false_of_ne hab, List.destutter'_cons_pos _ hab]
        simpa using ih b (a :: acc)
  cases l with
  | nil => rfl
  | cons a l => exact loop a l []

theorem isSortedSet_sortDistinct (xs : List Text) : IsSortedSet (sortDistinct xs) xs := by
  have : Std.Antisymm fun a b : Text => ¬b < a := ⟨fun _ _ hab hba => List.le_antisymm hab hba⟩
  have sorted : (xs.mergeSort fun a b => !decide (b < a)).Pairwise fun a b => ¬b < a := by
    refine (List.pairwise_mergeSort (fun a b c hab hbc => ?_) (fun a b => ?_) xs).imp fun h =>
      ?_
    · rw [Bool.not_eq_true', decide_eq_false_iff_not] at hab hbc ⊢
      exact List.le_trans hab hbc
    · rw [Bool.or_eq_true, Bool.not_eq_true', Bool.not_eq_true', decide_eq_false_iff_not,
        decide_eq_false_iff_not]
      exact List.le_total a b
    · rwa [Bool.not_eq_true', decide_eq_false_iff_not] at h
  have erased : sortDistinct xs = (xs.mergeSort fun a b => !decide (b < a)).dedup := by
    rw [sortDistinct, eraseReps_eq_destutter, sorted.destutter_eq_dedup]
  refine ⟨?_, fun x => by rw [erased, List.mem_dedup, List.mem_mergeSort]⟩
  rw [erased]
  -- Without repetitions, what does not come later comes earlier.
  refine ((sorted.sublist (List.dedup_sublist _)).and (List.nodup_dedup _)).imp ?_
  rintro a b ⟨hle, hne⟩
  exact bytes_lt_of_lt ((List.le_iff_lt_or_eq.1 hle).resolve_right hne)

/-- A list in order is what sorting makes of texts that are its members. -/
theorem sortDistinct_eq_of_pairwise {l xs : List Text} (ascending : l.Pairwise (· < ·))
    (members : ∀ x, x ∈ l ↔ x ∈ xs) : sortDistinct xs = l :=
  (isSortedSet_sortDistinct xs).unique ⟨ascending.imp bytes_lt_of_lt, members⟩

end TemplateCatalog
