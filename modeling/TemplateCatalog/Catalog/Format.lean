/-
Catalog sources.

The strings of a template are written as calls that the tools of two translation systems pick
up: the functions of the gettext family, or `QCoreApplication::translate` for Qt Linguist.
Plain strings come before entries, each in the order of the template, one call a line, nothing
is merged.
-/
import TemplateCatalog.Catalog.StringLiteral
import TemplateCatalog.Template.Extraction

namespace TemplateCatalog

open Text

/-- The two kinds of catalog sources. -/
inductive CatalogFormat where
  | gettext
  | linguist
  deriving DecidableEq, Repr

/-- The name of the format in configurations and on the command line. -/
def CatalogFormat.name : CatalogFormat → Text
  | .gettext => "gettext".toList
  | .linguist => "linguist".toList

/-- The format of a name. -/
def CatalogFormat.ofName? (s : Text) : Option CatalogFormat :=
  [CatalogFormat.gettext, .linguist].find? (·.name == s)

namespace Catalog

/-- A call as a statement. -/
def call (function : Text) (arguments : List Text) : Text :=
  function ++ '(' :: ", ".toList.intercalate arguments ++ ");".toList

/-- The entries of an extraction, those of plain strings first. -/
def entries (x : Extraction) : List Entry := x.plain.map ({ message := · }) ++ x.contextual

/-! ### gettext -/

/-- The gettext function for an entry. -/
def gettextFunction (e : Entry) : Text :=
  match e.hasContext, e.hasPlural with
  | false, false => "gettext".toList
  | true, false => "pgettext".toList
  | false, true => "ngettext".toList
  | true, true => "npgettext".toList

/-- The arguments of the gettext call: the context if given, the message, the plural if
given. -/
def gettextArguments (e : Entry) : List Text :=
  (if e.hasContext then [stringLiteral e.context] else []) ++ stringLiteral e.message ::
    (if e.hasPlural then [stringLiteral e.plural] else [])

/-- The gettext call for an entry. -/
def gettextCall (e : Entry) : Text := call (gettextFunction e) (gettextArguments e)

/-- The comment that names the template of the call below it. -/
def originComment (origin : Text) : Text := "// i18n: file: ".toList ++ origin

/-! ### Linguist -/

/-- The arguments of the Linguist call: the template, the message, the context if a context or
a plural is given, and a count if a plural is given. The plural text has no place in it. -/
def linguistArguments (origin : Text) (e : Entry) : List Text :=
  stringLiteral origin :: stringLiteral e.message ::
    ((if e.hasContext || e.hasPlural then [stringLiteral e.context] else []) ++
      (if e.hasPlural then ["count".toList] else []))

/-- The Linguist call for an entry. -/
def linguistCall (origin : Text) (e : Entry) : Text :=
  call "QCoreApplication::translate".toList (linguistArguments origin e)

/-! ### Catalogs -/

/-- How a catalog is written: its format, and whether gettext calls name their template. -/
structure Style where
  format : CatalogFormat
  originComments : Bool
  deriving DecidableEq, Repr

/-- The lines for an entry of the template `origin`. -/
def entryLines (style : Style) (origin : Text) (e : Entry) : List Text :=
  match style.format with
  | .linguist => [linguistCall origin e]
  | .gettext =>
    if style.originComments then [originComment origin, gettextCall e] else [gettextCall e]

/-- The catalog of the strings of the template `origin`. -/
def render (style : Style) (origin : Text) (x : Extraction) : Text :=
  (entries x).flatMap fun e => (entryLines style origin e).flatMap line

end Catalog

end TemplateCatalog
