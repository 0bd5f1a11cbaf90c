import EventSchema.Json.Basic
import EventSchema.Json.Shortest

/-!
# JSON text

Values are written either on one line without blanks, or indented by two
blanks a level.  Strings escape the quote, the backslash and the characters
below U+0020; everything else is written as it is.
-/

namespace EventSchema

namespace Json

/-- The hexadecimal digit of a number below sixteen, in lower case. -/
def hexDigit (n : Nat) : Char :=
  if n < 10 then Char.ofNat ('0'.toNat + n) else Char.ofNat ('a'.toNat + (n - 10))

/-- One character of a string as it is written between quotes. -/
def escape (c : Char) : List Char :=
  if c = '"' then ['\\', '"']
  else if c = '\\' then ['\\', '\\']
  else if c = '\n' then ['\\', 'n']
  else if c = '\r' then ['\\', 'r']
  else if c = '\t' then ['\\', 't']
  else if c.toNat = 8 then ['\\', 'b']
  else if c.toNat = 12 then ['\\', 'f']
  else if c.toNat < 32 then ['\\', 'u', '0', '0', hexDigit (c.toNat / 16), hexDigit (c.toNat % 16)]
  else [c]

/-- A string between quotes. -/
def quoted (s : String) : String :=
  "\"" ++ String.ofList (s.toList.flatMap escape) ++ "\""

end Json

/-- Whole numbers in plain digits, all others by the shortest decimal that rounds to them. -/
def Number.text : Number → String
  | .integer value => toString value
  | .double value => value.text

namespace Json

mutual

/-- The text of a value on one line. -/
def text : Json → String
  | .null => "null"
  | .bool value => if value then "true" else "false"
  | .num value => value.text
  | .str value => quoted value
  | .arr items => "[" ++ ",".intercalate (itemTexts items) ++ "]"
  | .obj members => "\x7b" ++ ",".intercalate (memberTexts members) ++ "\x7d"
termination_by structural json => json

/-- The one-line texts of the items of an array. -/
def itemTexts : List Json → List String
  | [] => []
  | item :: items => item.text :: itemTexts items
termination_by structural items => items

/-- The one-line texts of the members of an object. -/
def memberTexts : List (String × Json) → List String
  | [] => []
  | (key, value) :: members => (quoted key ++ ":" ++ value.text) :: memberTexts members
termination_by structural members => members

end

/-- A bracketed block whose parts stand on lines of their own; an empty one stays on one line. -/
def block (opening closing : String) (level : Nat) (parts : List String) : String :=
  let line (depth : Nat) := "\n" ++ "".pushn ' ' (2 * depth)
  if parts.isEmpty then opening ++ closing
  else
    opening ++ line (level + 1) ++ ("," ++ line (level + 1)).intercalate parts
      ++ line level ++ closing

mutual

/-- The indented text of a value whose first line is at the given level. -/
def indented (level : Nat) : Json → String
  | .arr items => block "[" "]" level (indentedItems (level + 1) items)
  | .obj members => block "\x7b" "\x7d" level (indentedMembers (level + 1) members)
  | .null => "null"
  | .bool value => if value then "true" else "false"
  | .num value => value.text
  | .str value => quoted value
termination_by structural json => json

/-- The indented texts of the items of an array. -/
def indentedItems (level : Nat) : List Json → List String
  | [] => []
  | item :: items => item.indented level :: indentedItems level items
termination_by structural items => items

/-- The indented texts of the members of an object. -/
def indentedMembers (level : Nat) : List (String × Json) → List String
  | [] => []
  | (key, value) :: members =>
    (quoted key ++ ": " ++ value.indented level) :: indentedMembers level members
termination_by structural members => members

end

end Json

end EventSchema
