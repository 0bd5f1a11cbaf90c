import EventSchema.Json.Basic
import EventSchema.Json.Fault

/-!
# Reading the parts of a JSON text

A reader takes characters off the front of a text and never adds any, which is
what lets the readers of nested values end.  This module holds the readers of
blanks, words, numbers, strings and of the punctuation between items and
members.
-/

namespace EventSchema

/-- What a reader took from the characters `s`: a value, and the characters that follow. -/
structure Taken (s : List Char) (α : Type) where
  value : α
  rest : List Char
  rest_le : rest.length ≤ s.length

/-- What was taken from a later part of a text, seen as taken from the text. -/
def Taken.widen {r s : List Char} {α : Type} (h : r.length ≤ s.length) (taken : Taken r α) :
    Taken s α :=
  ⟨taken.value, taken.rest, Nat.le_trans taken.rest_le h⟩

/-- A reader of values from the front of a text. -/
def Reader (α : Type) : Type :=
  (s : List Char) → Except Fault (Taken s α)

namespace Reader

variable {α β : Type}

instance : Monad Reader where
  pure value := fun s => .ok ⟨value, s, Nat.le_refl _⟩
  bind reader next := fun s =>
    match reader s with
    | .error fault => .error fault
    | .ok first =>
      match next first.value first.rest with
      | .error fault => .error fault
      | .ok second => .ok ⟨second.value, second.rest, Nat.le_trans second.rest_le first.rest_le⟩

/-- Gives up; the fault may depend on the characters that are left. -/
def fail (fault : List Char → Fault) : Reader α :=
  fun s => .error (fault s)

/-- Reports the faults of a part as lying within the whole. -/
def within (step : PathStep) (reader : Reader α) : Reader α :=
  fun s => (reader s).mapError (Fault.within step)

/-- The characters that are left. -/
def remaining : Reader (List Char) :=
  fun s => .ok ⟨s, s, Nat.le_refl _⟩

/-- The next character, which stays where it is. -/
def peek : Reader (Option Char) :=
  fun s => .ok ⟨s.head?, s, Nat.le_refl _⟩

/-- Passes over the next character. -/
def advance : Reader Unit :=
  fun s => .ok ⟨(), s.tail, by simp⟩

theorem length_dropWhile_le (p : Char → Bool) (s : List Char) :
    (s.dropWhile p).length ≤ s.length :=
  (List.dropWhile_suffix p).length_le

/-- Takes characters as long as they satisfy `p`. -/
def takeWhile (p : Char → Bool) : Reader (List Char) :=
  fun s => .ok ⟨s.takeWhile p, s.dropWhile p, length_dropWhile_le p s⟩

/-- Blanks of JSON are the space, the tab, the line feed and the carriage return. -/
def isBlank (c : Char) : Bool :=
  c = ' ' || c = '\n' || c = '\t' || c = '\r'

/-- Passes over blanks and looks at the character after them. -/
def peekPastBlanks : Reader (Option Char) := do
  let _ ← takeWhile isBlank
  peek

/-- Reads the given letters one by one. -/
def word : List Char → Reader Unit
  | [] => pure ()
  | letter :: letters => do
    match ← peek with
    | none => fail (.here .endInValue)
    | some c =>
      if c = letter then
        advance
        word letters
      else fail (.atNext .expectedWord)

/-! ## Numbers -/

/-- The number that a row of decimal digits denotes. -/
def digitsValue (digits : List Char) : Nat :=
  digits.foldl (fun value c => 10 * value + (c.toNat - '0'.toNat)) 0

/-- Takes decimal digits. -/
def digits : Reader (List Char) :=
  takeWhile Char.isDigit

/-- The digits before the point: a lone zero, or digits that start with another one. -/
def wholeDigits : Reader (List Char) := do
  match ← peek with
  | none => fail (.here .endInValue)
  | some '0' =>
    advance
    if (← peek).any Char.isDigit then fail (.atNext .invalidNumber) else pure ['0']
  | some c => if c.isDigit then digits else fail (.atNext .invalidNumber)

/-- The digits after a point, at least one. -/
def fractionDigits : Reader (List Char) := do
  let found ← digits
  if found.isEmpty then
    match ← peek with
    | none => fail (.atNext .endInValue)
    | some _ => fail (.atNext .invalidNumber)
  else pure found

/-- An optional sign, then at least one digit; whether the sign is a minus comes first. -/
def exponentDigits : Reader (Bool × List Char) := do
  let negative ← signed
  match ← peek with
  | none => fail (.here .endInValue)
  | some c => if c.isDigit then return (negative, ← digits) else fail (.atNext .invalidNumber)
where
  /-- Takes a sign and tells whether it is a minus. -/
  signed : Reader Bool := do
    match ← peek with
    | some '-' => advance; pure true
    | some '+' => advance; pure false
    | _ => pure false

/-- The greatest exponent that is worked with. -/
def greatestExponent : Nat := 2147483647

/-- What is left of the digits once their value exceeds the greatest exponent. -/
def digitsPastLimit (value : Nat) : List Char → Option (List Char)
  | [] => none
  | c :: rest =>
    let value := 10 * value + (c.toNat - '0'.toNat)
    if value > greatestExponent then some rest else digitsPastLimit value rest

/-- The value of an exponent for a number with the given significant digits.  One that exceeds
the limit is a fault right after the digit that makes it so, unless the number is zero or the
exponent negative: such a number is a zero whatever the exponent. -/
def exponentValue (significant : Nat) (negative : Bool) (found : List Char) : Reader Int := do
  match digitsPastLimit 0 found with
  | some unread =>
    if significant = 0 || negative then pure (-greatestExponent)
    else fail fun rest => .here .numberOutOfRange (unread ++ rest)
  | none =>
    let value := Int.ofNat (digitsValue found)
    pure (if negative then -value else value)

/-- The number with the given sign, decimal digits and power of ten. -/
def decimal (negative : Bool) (value : Decimal) : Reader Number :=
  match Double.ofDecimal negative value with
  | some x => pure (.double x)
  | none => fail (.here .numberOutOfRange)

/-- Appends digits to a number up to the first one with which it does not fit 64 bits; how many
are left out comes second. -/
def appendDigits (value : Nat) : List Char → Nat × Nat
  | [] => (value, 0)
  | c :: rest =>
    let next := 10 * value + (c.toNat - '0'.toNat)
    if next < UInt64.size then appendDigits next rest else (value, rest.length + 1)

/-- The decimal that is made of the digits before and after a point.  Digits before the point that
do not fit raise the power of ten, those after it are passed over. -/
def significantDigits (whole fraction : List Char) : Decimal :=
  let (value, raised) := appendDigits 0 whole
  let (value, ignored) := appendDigits value fraction
  ⟨value, raised - (fraction.length - ignored : Nat)⟩

/-- A number without point and exponent is whole as long as it fits 64 bits; minus zero and
larger ones are not. -/
def wholeNumber (negative : Bool) (whole : List Char) : Reader Number :=
  let value := digitsValue whole
  if !negative && value < UInt64.size then pure (.integer value)
  else if negative && 0 < value && value ≤ Nat.pow 2 63 then pure (.integer (-Int.ofNat value))
  else decimal negative (significantDigits whole [])

/-- The unsigned part of a number. -/
def magnitude (negative : Bool) : Reader Number := do
  let whole ← wholeDigits
  let fraction ← pointed
  let digits := significantDigits whole (fraction.getD [])
  match ← peek with
  | some 'e' | some 'E' =>
    advance
    let (minus, found) ← exponentDigits
    let exponent ← exponentValue digits.digits minus found
    decimal negative ⟨digits.digits, digits.exponent + exponent⟩
  | _ =>
    match fraction with
    | some _ => decimal negative digits
    | none => wholeNumber negative whole
where
  /-- The digits after a point, if there is one. -/
  pointed : Reader (Option (List Char)) := do
    match ← peek with
    | some '.' => advance; some <$> fractionDigits
    | _ => pure none

/-- A number. -/
def number : Reader Number := do
  match ← peek with
  | some '-' => advance; magnitude true
  | _ => magnitude false

/-! ## Strings -/

/-- The value of a hexadecimal digit. -/
def hexValue (c : Char) : Option Nat :=
  if c.isDigit then some (c.toNat - '0'.toNat)
  else if 'a' ≤ c ∧ c ≤ 'f' then some (c.toNat - 'a'.toNat + 10)
  else if 'A' ≤ c ∧ c ≤ 'F' then some (c.toNat - 'A'.toNat + 10)
  else none

/-- The number that four hexadecimal digits denote. -/
def hexUnit? : List Char → Option Nat
  | a :: b :: c :: d :: _ => do
    let first := 16 * (← hexValue a) + (← hexValue b)
    let second := 16 * (← hexValue c) + (← hexValue d)
    return 256 * first + second
  | _ => none

/-- Four hexadecimal digits.  Four bytes are taken in any case, also where they are no digits. -/
def hexUnit : Reader Nat := fun s =>
  match hexUnit? s with
  | some unit => .ok ⟨unit, s.drop 4, by simp⟩
  | none =>
    if byteLength s < 4 then .error (.here .endInString [])
    else .error ⟨.malformed .invalidEscape, .before (byteLength s - 4), []⟩

/-- Takes one given character of the second half of a surrogate pair. -/
def pairMark (mark : Char) : Reader Unit := do
  match ← peek with
  | none => fail (.here .endInString)
  | some c => if c = mark then advance else fail (.atNext .unfinishedSurrogatePair)

/-- The character that a hexadecimal escape denotes, after its `\u`; a character beyond the
first plane takes two escapes. -/
def hexEscape : Reader Char := do
  let unit ← hexUnit
  if 0xDC00 ≤ unit ∧ unit ≤ 0xDFFF then fail (.here .loneSurrogate)
  else if 0xD800 ≤ unit ∧ unit ≤ 0xDBFF then
    pairMark '\\'
    pairMark 'u'
    let second ← hexUnit
    if 0xDC00 ≤ second ∧ second ≤ 0xDFFF then
      pure (Char.ofNat (0x10000 + (unit - 0xD800) * 0x400 + (second - 0xDC00)))
    else fail (.here .loneSurrogate)
  else pure (Char.ofNat unit)

/-- The character that a letter after a backslash stands for. -/
def escapeLetter : Char → Option Char
  | '"' => some '"'
  | '\\' => some '\\'
  | '/' => some '/'
  | 'b' => some (Char.ofNat 8)
  | 'f' => some (Char.ofNat 12)
  | 'n' => some '\n'
  | 'r' => some '\r'
  | 't' => some '\t'
  | _ => none

/-- The character that an escape denotes, after its backslash. -/
def escaped : Reader Char := do
  match ← peek with
  | none => fail (.here .endInString)
  | some 'u' => advance; hexEscape
  | some c =>
    match escapeLetter c with
    | some denoted => advance; pure denoted
    | none => fail (.atNext .invalidEscape)

/-- The characters of a string, after its opening quote and up to its closing one. -/
def stringBody (s : List Char) : Except Fault (Taken s (List Char)) :=
  match s with
  | [] => .error (.here .endInString [])
  | c :: rest =>
    if c = '"' then .ok ⟨[], rest, by simp⟩
    else if c.toNat < 32 then .error (.atNext .controlCharacter (c :: rest))
    else if c = '\\' then
      match escaped rest with
      | .error fault => .error fault
      | .ok first =>
        match stringBody first.rest with
        | .error fault => .error fault
        | .ok more =>
          .ok ⟨first.value :: more.value, more.rest, by
            have := more.rest_le; have := first.rest_le; simp only [List.length_cons]; omega⟩
    else
      match stringBody rest with
      | .error fault => .error fault
      | .ok more =>
        .ok ⟨c :: more.value, more.rest, by
          have := more.rest_le; simp only [List.length_cons]; omega⟩
termination_by s.length
decreasing_by all_goals (simp_wf; try have := first.rest_le; omega)

/-- A string, after its opening quote. -/
def string : Reader String := do
  return String.ofList (← stringBody)

/-! ## Punctuation -/

/-- What follows an item or a member: another one, or the end of what holds them. -/
structure Next (s : List Char) where
  more : Bool
  rest : List Char
  rest_lt : rest.length < s.length

/-- After an opening bracket: whether an item follows.  A closing bracket is taken. -/
def firstItem : Reader Bool := do
  match ← peekPastBlanks with
  | none => fail (.atNext .endInArray)
  | some ']' => advance; pure false
  | some _ => pure true

/-- After an opening brace: whether a member follows.  A closing brace is taken. -/
def firstMember : Reader Bool := do
  match ← peekPastBlanks with
  | none => fail (.atNext .endInObject)
  | some '\x7d' => advance; pure false
  | some '"' => pure true
  | some _ => fail (.atNext .keyNotString)

/-- The characters of `s` after its blanks, no more than `s` has. -/
def pastBlanks (s : List Char) : { rest : List Char // rest.length ≤ s.length } :=
  ⟨s.dropWhile isBlank, length_dropWhile_le _ _⟩

/-- After an item: takes a comma that an item follows, or the closing bracket. -/
def nextItem (s : List Char) : Except Fault (Next s) :=
  match pastBlanks s with
  | ⟨[], _⟩ => .error (.atNext .endInArray [])
  | ⟨c :: rest, h⟩ =>
    if c = ']' then .ok ⟨false, rest, h⟩
    else if c = ',' then
      match pastBlanks rest with
      | ⟨[], _⟩ => .error (.atNext .endInValue [])
      | ⟨d :: more, h'⟩ =>
        if d = ']' then .error (.atNext .trailingComma (d :: more))
        else .ok ⟨true, d :: more, by simp only [List.length_cons] at *; omega⟩
    else .error (.atNext .expectedCommaOrBracket (c :: rest))

/-- After a member: takes a comma that a key follows, or the closing brace. -/
def nextMember (s : List Char) : Except Fault (Next s) :=
  match pastBlanks s with
  | ⟨[], _⟩ => .error (.atNext .endInObject [])
  | ⟨c :: rest, h⟩ =>
    if c = '\x7d' then .ok ⟨false, rest, h⟩
    else if c = ',' then
      match pastBlanks rest with
      | ⟨[], _⟩ => .error (.atNext .endInValue [])
      | ⟨d :: more, h'⟩ =>
        if d = '"' then .ok ⟨true, d :: more, by simp only [List.length_cons] at *; omega⟩
        else if d = '\x7d' then .error (.atNext .trailingComma (d :: more))
        else .error (.atNext .keyNotString (d :: more))
    else .error (.atNext .expectedCommaOrBrace (c :: rest))

/-- A key, from its opening quote on. -/
def key : Reader String := do
  advance
  string

/-- The colon between a key and its value. -/
def colon : Reader Unit := do
  match ← peekPastBlanks with
  | none => fail (.atNext .endInObject)
  | some ':' => advance
  | some _ => fail (.atNext .expectedColon)

end Reader

end EventSchema
