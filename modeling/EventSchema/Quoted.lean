import EventSchema.Unprintable

/-!
# Text shown between quotes

A text is shown between quotes with the quote, the backslash and the common
controls escaped; other characters that are not shown are spelled out by their
code point in hexadecimal.
-/

namespace EventSchema

/-- A code point in hexadecimal, lower case and without leading zeros. -/
def hexText (n : Nat) : String :=
  String.ofList (Nat.toDigits 16 n)

/-- One character as it is shown between quotes. -/
def shownChar (c : Char) : String :=
  if c = '"' then "\\\""
  else if c = '\\' then "\\\\"
  else if c = '\n' then "\\n"
  else if c = '\r' then "\\r"
  else if c = '\t' then "\\t"
  else if c.toNat = 0 then "\\0"
  else if isUnprintable c then "\\u\x7b" ++ hexText c.toNat ++ "\x7d"
  else c.toString

/-- A text as it is shown between quotes. -/
def shown (text : String) : String :=
  "\"" ++ String.join (text.toList.map shownChar) ++ "\""

end EventSchema
