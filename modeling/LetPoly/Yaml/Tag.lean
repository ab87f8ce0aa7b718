import LetPoly.Text.Base64
import LetPoly.Text.Glyph
import LetPoly.Yaml.Number
import LetPoly.Yaml.Timestamp

/-!
# Tags of YAML scalars

A tag says what the text of a scalar stands for. A text must fit its tag; a scalar without a tag
fits whatever it stands for.
-/

namespace LetPoly

namespace Yaml

/-- What a scalar stands for. -/
inductive Tag where
  /-- Whatever its text looks like. -/
  | implicit
  | str
  | null
  | bool
  | int
  | float
  | timestamp
  /-- Bytes written in base 64. -/
  | binary
  /-- The key under which a mapping takes over the entries of others. -/
  | merge
  /-- A tag without a meaning here. -/
  | other
deriving DecidableEq, Repr

namespace Tag

/-- The tags with a meaning, by their short names. -/
def known : List (String × Tag) :=
  [("str", .str), ("null", .null), ("bool", .bool), ("int", .int), ("float", .float),
    ("timestamp", .timestamp), ("binary", .binary), ("merge", .merge)]

/-- The tag of a name, short or in full. -/
def ofName (name : String) : Tag :=
  match known.find? fun (short, _) => name = "!!" ++ short || name = "tag:yaml.org,2002:" ++ short with
  | some (_, tag) => tag
  | none => .other

/-- Whether a text stands for no value. -/
def isNullText (text : String) : Bool := ["", "~", "null", "Null", "NULL"].contains text

/-- Whether a text is a truth value. -/
def isBoolText (text : String) : Bool :=
  ["true", "True", "TRUE", "false", "False", "FALSE"].contains text

/-- Whether a text fits a tag. An integer of 64 bits with its sign is a floating-point number
too. -/
def fits (text : String) : Tag → Bool
  | null => isNullText text
  | bool => isBoolText text
  | int => [some .word, some .natural].contains (Number.kind? text)
  | float => [some .word, some .fraction].contains (Number.kind? text)
  | timestamp => Timestamp.accepts text
  | binary => (Base64.decode? text).isSome
  | _ => true

/-- Whether a text that fits a tag stands for no value. -/
def isNull (text : String) : Tag → Bool
  | implicit | null => isNullText text
  | _ => false

/-- What a text that fits a tag says. -/
def content (text : String) : Tag → Source
  | binary => .ofBytes ((Base64.decode? text).getD [])
  | _ => .ofString text

end Tag

end Yaml

end LetPoly
