/-
Blank characters, and trimming.

`isBlank` is the property White_Space of the Unicode standard: the ASCII blanks U+0009 to
U+000D and U+0020, and the blanks of other scripts. `trim` drops blanks at both ends.
-/
import TemplateCatalog.Text.Basic

namespace TemplateCatalog

namespace Text

/-- The characters with the property White_Space. -/
def isBlank (c : Char) : Bool :=
  let n := c.toNat
  n == 0x20 || (0x09 ≤ n && n ≤ 0x0D) || n == 0x85 || n == 0xA0 || n == 0x1680 ||
    (0x2000 ≤ n && n ≤ 0x200A) || n == 0x2028 || n == 0x2029 || n == 0x202F || n == 0x205F ||
    n == 0x3000

/-- The text from its first character that is not blank. -/
def trimStart (s : Text) : Text := s.dropWhile isBlank

/-- The text up to its last character that is not blank. -/
def trimEnd (s : Text) : Text := (s.reverse.dropWhile isBlank).reverse

/-- The text without the blanks at its ends. -/
def trim (s : Text) : Text := trimEnd (trimStart s)

/-- The blanks in front of a text. -/
def leadingBlanks (s : Text) : Text := s.takeWhile isBlank

theorem leadingBlanks_append_trimStart (s : Text) : leadingBlanks s ++ trimStart s = s :=
  List.takeWhile_append_dropWhile

end Text

end TemplateCatalog
