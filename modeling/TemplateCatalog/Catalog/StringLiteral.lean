/-
String literals of the C language.

`stringLiteral` quotes a text of a template. Backslash escapes of the template stay as they
are, double quotes are escaped, and line ends are written as `\n` and `\r`.
-/
import TemplateCatalog.Text.Basic

namespace TemplateCatalog

namespace Catalog

/-- The characters between the quotes of the literal. -/
def literalBody : Text → Text
  | [] => []
  | [c] =>
    if c = '\\' then ['\\']
    else if c = '"' then ['\\', '"']
    else if c = '\n' then ['\\', 'n']
    else if c = '\r' then ['\\', 'r']
    else [c]
  | c :: d :: r =>
    if c = '\\' then '\\' :: d :: literalBody r
    else if c = '"' then '\\' :: '"' :: literalBody (d :: r)
    else if c = '\n' then '\\' :: 'n' :: literalBody (d :: r)
    else if c = '\r' then '\\' :: 'r' :: literalBody (d :: r)
    else c :: literalBody (d :: r)

/-- A text as a string literal. -/
def stringLiteral (s : Text) : Text := '"' :: literalBody s ++ ['"']

end Catalog

end TemplateCatalog
