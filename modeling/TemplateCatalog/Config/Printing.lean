/-
Writing a configuration as a JSON text.

The text is an object with a member a line, two blanks in front for each level. An empty list
is written `[]`, an output that is not given is left out, and a string escapes only quotes,
backslashes and control characters.
-/
import TemplateCatalog.Config.Reading

namespace TemplateCatalog

namespace Json

/-! ### Strings -/

/-- The two hexadecimal digits of a number below 256. -/
def hexPair (n : Nat) : Text := [Nat.digitChar (n / 16), Nat.digitChar (n % 16)]

/-- A character inside of a string. -/
def quotedChar (c : Char) : Text :=
  if c = '"' ∨ c = '\\' then ['\\', c]
  else if c = '\x08' then ['\\', 'b']
  else if c = '\x0c' then ['\\', 'f']
  else if c = '\n' then ['\\', 'n']
  else if c = '\r' then ['\\', 'r']
  else if c = '\t' then ['\\', 't']
  else if isControl c then ['\\', 'u', '0', '0'] ++ hexPair c.toNat
  else [c]

/-- A string in its quotes. -/
def quote (s : Text) : Text := '"' :: s.flatMap quotedChar ++ ['"']

/-! ### Lists and objects -/

/-- Items, a line each, in brackets. `depth` counts the levels around the brackets. -/
def bracketed (opening closing : Char) (depth : Nat) (items : List Text) : Text :=
  if items.isEmpty then [opening, closing]
  else
    [opening, '\n'] ++
      [',', '\n'].intercalate (items.map (Text.spaces (2 * (depth + 1)) ++ ·)) ++
      '\n' :: Text.spaces (2 * depth) ++ [closing]

/-- A list of strings. -/
def list (depth : Nat) (xs : List Text) : Text := bracketed '[' ']' depth (xs.map quote)

/-- A member of an object. -/
def member (key value : Text) : Text := quote key ++ ": ".toList ++ value

end Json

namespace Config

open Json

/-- The text of a flag. -/
def flag (b : Bool) : Text := if b then "true".toList else "false".toList

/-- The value of a field in JSON; an output that is not given has none. -/
def fieldValue? (c : Config) : ConfigField → Option Text
  | .includes => some (list 1 c.includes)
  | .ignores => some (list 1 c.ignores)
  | .extensions => some (list 1 c.extensions)
  | .format => some (quote c.format.name)
  | .originComments => some (flag c.originComments)
  | .output => c.output.map quote

/-- The configuration as a JSON object. -/
def toJson (c : Config) : Text :=
  bracketed '\x7b' '\x7d' 0
    (ConfigField.all.filterMap fun f => (c.fieldValue? f).map (member f.key))

end Config

end TemplateCatalog
