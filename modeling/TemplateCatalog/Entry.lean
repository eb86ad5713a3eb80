/-
Entries of a catalog.

An entry is a message with an optional context and an optional plural; an empty text stands for
"not given". The three parts are the slots that a tag fills.
-/
import TemplateCatalog.Text.Basic

namespace TemplateCatalog

/-- The parts of an entry. -/
inductive Slot where
  | context
  | message
  | plural
  deriving DecidableEq, Repr

/-- The slot in words. -/
def Slot.name : Slot → Text
  | .context => "context".toList
  | .message => "message".toList
  | .plural => "plural".toList

/-- A message to be translated, with its context and its plural. -/
structure Entry where
  message : Text := []
  context : Text := []
  plural : Text := []
  deriving DecidableEq, Repr

namespace Entry

/-- The entry with one slot filled. -/
def set (e : Entry) (s : Slot) (text : Text) : Entry :=
  match s with
  | .context => { e with context := text }
  | .message => { e with message := text }
  | .plural => { e with plural := text }

/-- Is a context given? -/
def hasContext (e : Entry) : Bool := !e.context.isEmpty

/-- Is a plural given? -/
def hasPlural (e : Entry) : Bool := !e.plural.isEmpty

end Entry

end TemplateCatalog
