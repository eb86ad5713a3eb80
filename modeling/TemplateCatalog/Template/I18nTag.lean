/-
Translation tags.

Four families of block tags carry an entry as quoted literals in a fixed order:

* `i18n` a message,
* `i18nc` a context and a message,
* `i18np` a message and a plural,
* `i18ncp` a context, a message and a plural.

Each family also has a name that ends in `_var`. The fragments after the literals are
arguments, up to the keyword `as`, which binds the result to a variable. `TagMatch.ofContents`
tells tags of other kinds, translation tags, and tags whose literals cannot be read apart.
-/
import TemplateCatalog.Entry
import TemplateCatalog.Template.Fragment

namespace TemplateCatalog

open Text

/-! ### Families -/

/-- The four families of translation tags. -/
inductive I18nFamily where
  | i18n
  | i18nc
  | i18np
  | i18ncp
  deriving DecidableEq, Repr

namespace I18nFamily

/-- The tag name of the family. -/
def name : I18nFamily → Text
  | .i18n => "i18n".toList
  | .i18nc => "i18nc".toList
  | .i18np => "i18np".toList
  | .i18ncp => "i18ncp".toList

/-- The families. -/
def all : List I18nFamily := [.i18n, .i18nc, .i18np, .i18ncp]

/-- The ending of the tag names that bind their result. -/
def bindingSuffix : Text := "_var".toList

/-- The text without one binding suffix. -/
def dropBindingSuffix (s : Text) : Text :=
  if bindingSuffix.isSuffixOf s then s.take (s.length - bindingSuffix.length) else s

/-- The family that a tag name belongs to. -/
def ofTagName? (s : Text) : Option I18nFamily :=
  all.find? fun family => family.name == dropBindingSuffix s

/-- The slots that the literals of a tag fill, in order. -/
def slots : I18nFamily → List Slot
  | .i18n => [.message]
  | .i18nc => [.context, .message]
  | .i18np => [.message, .plural]
  | .i18ncp => [.context, .message, .plural]

end I18nFamily

/-! ### Malformed tags -/

/-- Why the literals of a translation tag cannot be read. -/
inductive MalformedReason where
  /-- The contents end before the slot. -/
  | missingArgument (slot : Slot)
  /-- The fragment in the place of the slot is no literal. -/
  | notQuoted (slot : Slot) (fragment : Text)
  deriving DecidableEq, Repr

namespace MalformedReason

/-- The slot that cannot be filled. -/
def slot : MalformedReason → Slot
  | .missingArgument s => s
  | .notQuoted s _ => s

/-- The fragment that is no literal. -/
def fragment? : MalformedReason → Option Text
  | .missingArgument _ => none
  | .notQuoted _ f => some f

/-- The reason in words. -/
def message : MalformedReason → Text
  | .missingArgument s => "missing ".toList ++ s.name ++ " argument".toList
  | .notQuoted s f =>
    s.name ++ " argument `".toList ++ f ++ "` is not a quoted literal".toList

end MalformedReason

/-- A translation tag without its literals: its name, the reason, and the byte of the contents
that the reason lies at. -/
structure MalformedTag where
  name : Text
  reason : MalformedReason
  offset : Nat
  deriving DecidableEq, Repr

/-! ### Reading -/

/-- The keyword in front of the variable that takes the result. -/
def bindingKeyword : Text := "as".toList

/-- What the contents of a block tag are. -/
inductive TagMatch where
  | notI18n
  | i18n (entry : Entry) (arguments : List Fragment)
  | malformed (tag : MalformedTag)
  deriving DecidableEq, Repr

/-- Fills slots from the fragments in front, and returns the fragments that are left. The
contents end at byte `size`. -/
def fillSlots (size : Nat) (e : Entry) :
    List Slot → List Fragment → Except (MalformedReason × Nat) (Entry × List Fragment)
  | [], fs => .ok (e, fs)
  | s :: _, [] => .error (.missingArgument s, size)
  | s :: ss, f :: fs =>
    match Literal.parse? f.text with
    | none => .error (.notQuoted s f.text, f.offset)
    | some l => fillSlots size (e.set s l.inner) ss fs

namespace TagMatch

/-- Recognizes the contents of a block tag by its fragments. -/
def ofFragments (size : Nat) : List Fragment → TagMatch
  | [] => .notI18n
  | name :: fs =>
    match I18nFamily.ofTagName? name.text with
    | none => .notI18n
    | some family =>
      match fillSlots size {} family.slots fs with
      | .error (reason, offset) => .malformed ⟨name.text, reason, offset⟩
      | .ok (entry, rest) => .i18n entry (rest.takeWhile (·.text != bindingKeyword))

/-- Recognizes the contents of a block tag. -/
def ofContents (contents : Text) : TagMatch :=
  ofFragments (byteSize contents) (splitFragments contents)

end TagMatch

end TemplateCatalog
