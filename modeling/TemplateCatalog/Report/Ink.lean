/-
Colours of a terminal.

With colour on, a text is put between the escape sequence of its ink and the sequence that
resets it; after a reset inside of the text the ink is set again. With colour off the text
stays as it is.
-/
import TemplateCatalog.Text.Basic

namespace TemplateCatalog

/-- The inks of a report. -/
inductive Ink where
  | red
  | green
  | yellow
  | blue
  | cyan
  | bold
  | boldRed
  | boldYellow
  | boldCyan
  | dimmedCyan
  deriving DecidableEq, Repr

namespace Ink

/-- The codes of an ink, style before colour. -/
def codes : Ink → Text
  | .red => "31".toList
  | .green => "32".toList
  | .yellow => "33".toList
  | .blue => "34".toList
  | .cyan => "36".toList
  | .bold => "1".toList
  | .boldRed => "1;31".toList
  | .boldYellow => "1;33".toList
  | .boldCyan => "1;36".toList
  | .dimmedCyan => "2;36".toList

/-- The sequence that sets codes. -/
def sequence (codes : Text) : Text := ['\x1b', '['] ++ codes ++ ['m']

/-- The sequence that ends an ink. -/
def reset : Text := sequence ['0']

/-- Sets an ink again after every reset. -/
def renew (set : Text) : Text → Text
  | '\x1b' :: '[' :: '0' :: 'm' :: r => reset ++ set ++ renew set r
  | c :: r => c :: renew set r
  | [] => []

/-- A text in an ink, if colour is on. -/
def paint (i : Ink) (color : Bool) (s : Text) : Text :=
  if color then sequence i.codes ++ renew (sequence i.codes) s ++ reset else s

end Ink

end TemplateCatalog
