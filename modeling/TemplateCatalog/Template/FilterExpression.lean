/-
Filter expressions, the contents of a variable tag.

An expression is an optional operand followed by filters, `value|name:argument|name`. An
operand is a quoted literal, a literal marked for translation as `_("text")`, or a bare run of
word characters and points, which is a variable or a number. There are no blanks between the
parts.

`FilterExpression.toText` writes an expression down; reading is in the next module.
-/
import TemplateCatalog.Template.Literal
import TemplateCatalog.Text.Word

namespace TemplateCatalog

open Text

/-! ### Expressions -/

/-- What a filter applies to, or takes as its argument. -/
inductive Operand where
  /-- `"text"` or `'text'`. -/
  | literal (l : Literal)
  /-- `_("text")`, a literal to be translated. -/
  | translation (l : Literal)
  /-- A variable or a number: `user.name`, `42`, `-1.5`. -/
  | variable (name : Text)
  deriving DecidableEq, Repr

/-- One filter: its name, and its argument if there is one. -/
structure FilterCall where
  name : Text
  argument : Option Operand
  deriving DecidableEq, Repr

/-- An operand, if there is one, and the filters applied to it. -/
structure FilterExpression where
  value : Option Operand
  filters : List FilterCall
  deriving DecidableEq, Repr

/-- The two characters that open a translation. -/
def translationOpener : Text := ['_', '(']

namespace Operand

/-- The literal of an operand that is marked for translation. -/
def translation? : Operand → Option Literal
  | .translation l => some l
  | .literal _ => none
  | .variable _ => none

/-- The operand as it is written. -/
def toText : Operand → Text
  | .literal l => l.toText
  | .translation l => translationOpener ++ l.toText ++ [')']
  | .variable name => name

end Operand

/-- The filter as it is written, with its bar. -/
def FilterCall.toText (f : FilterCall) : Text :=
  match f.argument with
  | none => '|' :: f.name
  | some a => '|' :: f.name ++ ':' :: a.toText

namespace FilterExpression

/-- The expression as it is written. -/
def toText (e : FilterExpression) : Text :=
  (e.value.map Operand.toText).getD [] ++ e.filters.flatMap FilterCall.toText

/-- The literals to be translated, in the order they are written. -/
def translations (e : FilterExpression) : List Literal :=
  (e.value.toList ++ e.filters.filterMap FilterCall.argument).filterMap Operand.translation?

end FilterExpression

/-! ### Errors -/

/-- Why a text is no filter expression. -/
inductive FilterFault where
  | unclosedLiteral
  | translationWithoutLiteral
  | unclosedTranslation
  | missingFilterName
  | missingFilterArgument
  | unexpectedInput (input : Text)
  deriving DecidableEq, Repr

/-- The fault in words. -/
def FilterFault.message : FilterFault → Text
  | .unclosedLiteral => "quoted literal is never closed".toList
  | .translationWithoutLiteral => "translation call `_(` must wrap a quoted literal".toList
  | .unclosedTranslation => "translation call is missing its closing `)`".toList
  | .missingFilterName => "expected a filter name after `|`".toList
  | .missingFilterArgument => "expected an argument after `:`".toList
  | .unexpectedInput input => "unexpected `".toList ++ input ++ "`".toList

/-- A fault, and the byte at which reading stopped. -/
structure FilterError where
  position : Nat
  fault : FilterFault
  deriving DecidableEq, Repr

/-- The error in words. -/
def FilterError.message (e : FilterError) : Text :=
  e.fault.message ++ " at byte ".toList ++ decimal e.position

end TemplateCatalog
