/-
How the classes of characters lie to each other.

Word characters, and with them the characters of variables, are neither blanks nor quotes
(`isBare_of_isWordChar`, `isBare_of_isVariableChar`), and decimal digits are word characters.
-/
import TemplateCatalog.Template.Fragment
import TemplateCatalog.Template.FilterReading

namespace TemplateCatalog

open Text

/-- The code points of the blanks. -/
def blankCodes : List Nat :=
  [0x20, 0x09, 0x0A, 0x0B, 0x0C, 0x0D, 0x85, 0xA0, 0x1680, 0x2000, 0x2001, 0x2002, 0x2003,
   0x2004, 0x2005, 0x2006, 0x2007, 0x2008, 0x2009, 0x200A, 0x2028, 0x2029, 0x202F, 0x205F,
   0x3000]

theorem toNat_mem_blankCodes {c : Char} (h : isBlank c = true) : c.toNat ∈ blankCodes := by
  simp only [isBlank, Bool.or_eq_true, Bool.and_eq_true, beq_iff_eq, decide_eq_true_eq] at h
  simp only [blankCodes, List.mem_cons, List.not_mem_nil, or_false]
  omega

theorem isAlphanum_toNat {c : Char} (h : c.isAlphanum = true) :
    0x30 ≤ c.toNat ∧ c.toNat ≤ 0x39 ∨ 0x41 ≤ c.toNat ∧ c.toNat ≤ 0x5A ∨
      0x61 ≤ c.toNat ∧ c.toNat ≤ 0x7A := by
  change ((decide (0x41 ≤ c.val ∧ c.val ≤ 0x5A) || (0x61 ≤ c.val && c.val ≤ 0x7A)) ||
    (0x30 ≤ c.val && c.val ≤ 0x39)) = true at h
  simp only [Bool.or_eq_true, Bool.and_eq_true, decide_eq_true_eq, UInt32.le_iff_toNat_le] at h
  change ((0x41 ≤ c.toNat ∧ c.toNat ≤ 0x5A) ∨ (0x61 ≤ c.toNat ∧ c.toNat ≤ 0x7A)) ∨
    (0x30 ≤ c.toNat ∧ c.toNat ≤ 0x39) at h
  omega

/-- No blank beyond ASCII is in the table of letters and digits. -/
theorem blankCodes_not_inRanges :
    ∀ n ∈ blankCodes, 0x80 ≤ n → inRanges alphanumericRanges n = false := by
  decide +kernel

theorem isBlank_of_isWordChar {c : Char} (h : isWordChar c = true) : isBlank c = false := by
  rw [Bool.eq_false_iff]
  intro hb
  have hm := toNat_mem_blankCodes hb
  rcases Bool.or_eq_true _ _ ▸ h with hu | ha
  · rw [beq_iff_eq] at hu
    subst hu
    exact absurd hb (by decide)
  · by_cases hc : c.toNat < 0x80
    · rw [isAlphanumeric, if_pos hc] at ha
      have hr := isAlphanum_toNat ha
      simp only [blankCodes, List.mem_cons, List.not_mem_nil, or_false] at hm
      omega
    · rw [isAlphanumeric, if_neg hc, blankCodes_not_inRanges _ hm (by omega)] at ha
      exact absurd ha (by simp)

theorem isQuote_of_isWordChar {c : Char} (h : isWordChar c = true) : isQuote c = false := by
  rw [Bool.eq_false_iff]
  intro hq
  obtain ⟨q, hq⟩ := Option.isSome_iff_exists.1 hq
  rw [Quote.ofChar?_eq_some_iff] at hq
  subst hq
  cases q <;> exact absurd h (by decide)

theorem isBare_of_isWordChar {c : Char} (h : isWordChar c = true) : isBare c = true := by
  simp [isBare, isBlank_of_isWordChar h, isQuote_of_isWordChar h]

theorem isBare_of_isVariableChar {c : Char} (h : isVariableChar c = true) :
    isBare c = true := by
  rcases Bool.or_eq_true _ _ ▸ h with hw | hp
  · exact isBare_of_isWordChar hw
  · rw [beq_iff_eq] at hp
    subst hp
    decide

theorem isBlank_of_isBare {c : Char} (h : isBare c = true) : isBlank c = false := by
  rw [isBare, Bool.and_eq_true] at h
  simpa using h.1

theorem isQuote_of_isBare {c : Char} (h : isBare c = true) : isQuote c = false := by
  rw [isBare, Bool.and_eq_true] at h
  simpa using h.2

theorem isBare_of_isBlank {c : Char} (h : isBlank c = true) : isBare c = false := by
  simp [isBare, h]

theorem isWordChar_of_isDigit {c : Char} (h : c.isDigit = true) : isWordChar c = true := by
  have hlt : c.toNat < 0x80 := by
    have := isAlphanum_toNat (c := c) (by simp [Char.isAlphanum, h])
    omega
  simp [isWordChar, isAlphanumeric, hlt, Char.isAlphanum, h]

theorem isVariableChar_of_isDigit {c : Char} (h : c.isDigit = true) :
    isVariableChar c = true := by
  simp [isVariableChar, isWordChar_of_isDigit h]

end TemplateCatalog
