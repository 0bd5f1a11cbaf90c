/-!
# Faults in JSON text

A fault names what is wrong with a text, where in the text that was noticed,
and which value was being read.  Places are kept as the number of bytes that
are left, so that a reader needs nothing but the rest of its text to report one.
-/

namespace EventSchema

/-- What makes a text no JSON text. -/
inductive SyntaxError where
  | endInValue
  | endInString
  | endInArray
  | endInObject
  | expectedValue
  | expectedWord
  | invalidNumber
  | numberOutOfRange
  | controlCharacter
  | invalidEscape
  | loneSurrogate
  | unfinishedSurrogatePair
  | trailingComma
  | expectedCommaOrBracket
  | expectedCommaOrBrace
  | keyNotString
  | expectedColon
  | nestedTooDeep
  | trailingCharacters
  deriving DecidableEq

/-- The wording of a syntax error. -/
def SyntaxError.message : SyntaxError → String
  | endInValue => "EOF while parsing a value"
  | endInString => "EOF while parsing a string"
  | endInArray => "EOF while parsing a list"
  | endInObject => "EOF while parsing an object"
  | expectedValue => "expected value"
  | expectedWord => "expected ident"
  | invalidNumber => "invalid number"
  | numberOutOfRange => "number out of range"
  | controlCharacter => "control character (\\u0000-\\u001F) found while parsing a string"
  | invalidEscape => "invalid escape"
  | loneSurrogate => "lone leading surrogate in hex escape"
  | unfinishedSurrogatePair => "unexpected end of hex escape"
  | trailingComma => "trailing comma"
  | expectedCommaOrBracket => "expected `,` or `]`"
  | expectedCommaOrBrace => "expected `,` or `\x7d`"
  | keyNotString => "key must be a string"
  | expectedColon => "expected `:`"
  | nestedTooDeep => "recursion limit exceeded"
  | trailingCharacters => "trailing characters"

/-- What makes a JSON value no value of the wanted form.  Values are described by their kind and
text, wanted forms by a phrase. -/
inductive Mismatch where
  | invalidType (found expected : String)
  | invalidLength (count : Nat) (expected : String)
  | missingField (field : String)
  | duplicateField (field : String)
  | unknownField (field : String) (known : List String)
  | unknownVariant (variant : String) (known : List String)
  | noVariant (choice : String)
  deriving DecidableEq

/-- Names in backquotes: two are joined by "or", more are listed after "one of". -/
def oneOf (names : List String) : String :=
  let ticked := names.map fun name => "`" ++ name ++ "`"
  match ticked with
  | [first, second] => first ++ " or " ++ second
  | _ => "one of " ++ ", ".intercalate ticked

/-- The wording of a mismatch. -/
def Mismatch.message : Mismatch → String
  | invalidType found expected => "invalid type: " ++ found ++ ", expected " ++ expected
  | invalidLength count expected => "invalid length " ++ toString count ++ ", expected " ++ expected
  | missingField field => "missing field `" ++ field ++ "`"
  | duplicateField field => "duplicate field `" ++ field ++ "`"
  | unknownField field known => "unknown field `" ++ field ++ "`, expected " ++ oneOf known
  | unknownVariant variant known =>
    "unknown variant `" ++ variant ++ "`, expected " ++ oneOf known
  | noVariant choice => "data did not match any variant of untagged enum " ++ choice

/-- What is wrong with a text that was to be read as a value of some form. -/
inductive Problem where
  | malformed (error : SyntaxError)
  | mismatch (error : Mismatch)
  deriving DecidableEq

/-- The wording of a problem. -/
def Problem.message : Problem → String
  | malformed error => error.message
  | mismatch error => error.message

/-- One step from a value to a part of it; `unknown` stands for a key that could not be read. -/
inductive PathStep where
  | key (name : String)
  | index (place : Nat)
  | unknown
  deriving DecidableEq

/-- The text of a path: keys are joined by points, places follow in brackets, and the whole
value is a single point. -/
def pathText : List PathStep → String
  | [] => "."
  | step :: steps => steps.foldl (fun text step => text ++ more step) (first step)
where
  /-- A step at the start of a path. -/
  first : PathStep → String
    | .key name => name
    | .index place => "[" ++ toString place ++ "]"
    | .unknown => "?"
  /-- A step further on. -/
  more : PathStep → String
    | .key name => "." ++ name
    | .index place => "[" ++ toString place ++ "]"
    | .unknown => ".?"

/-- How many bytes the characters take. -/
def byteLength (chars : List Char) : Nat :=
  chars.foldl (fun total c => total + c.utf8Size) 0

/-- Where a fault was noticed: with so many bytes left, or after the value just read, at a place
that is settled by whatever holds that value. -/
inductive Place where
  | before (bytesLeft : Nat)
  | afterValue (rest : List Char)

/-- A fault met while reading a text. -/
structure Fault where
  problem : Problem
  place : Place
  path : List PathStep

namespace Fault

/-- A syntax error noticed after the characters read so far. -/
def here (error : SyntaxError) (rest : List Char) : Fault :=
  ⟨.malformed error, .before (byteLength rest), []⟩

/-- A syntax error noticed at the next byte, which counts as read; at the end there is none. -/
def atNext (error : SyntaxError) (rest : List Char) : Fault :=
  ⟨.malformed error, .before (byteLength rest - 1), []⟩

/-- A mismatch noticed after the characters read so far. -/
def mismatched (error : Mismatch) (rest : List Char) : Fault :=
  ⟨.mismatch error, .before (byteLength rest), []⟩

/-- The fault of a part, seen from the value that holds the part. -/
def within (step : PathStep) (fault : Fault) : Fault :=
  { fault with path := step :: fault.path }

end Fault

/-- A place in a text. -/
structure Position where
  line : Nat
  column : Nat
  deriving DecidableEq

/-- The place that so many bytes precede: lines count from one, columns are the bytes since the
last line feed. -/
def Position.after (bytes : Nat) (chars : List Char) : Position :=
  go bytes 1 0 chars
where
  /-- Walks over whole characters while there are bytes to go. -/
  go (bytes line column : Nat) : List Char → Position
    | [] => ⟨line, column⟩
    | c :: rest =>
      if bytes < c.utf8Size then ⟨line, column + bytes⟩
      else if c = '\n' then go (bytes - c.utf8Size) (line + 1) 0 rest
      else go (bytes - c.utf8Size) line (column + c.utf8Size) rest

/-- A problem with a text as a whole, at its final place if it has one. -/
structure TextError where
  problem : Problem
  position : Option Position
  path : List PathStep
  deriving DecidableEq

namespace TextError

/-- A fault of a reader, placed in the text it was reading. -/
def ofFault (text : List Char) (fault : Fault) : TextError :=
  let position := match fault.place with
    | .before bytesLeft => some (Position.after (byteLength text - bytesLeft) text)
    | .afterValue _ => none
  ⟨fault.problem, position, fault.path⟩

/-- The wording of the problem, followed by its place. -/
def message (error : TextError) : String :=
  match error.position with
  | some place =>
    error.problem.message ++ " at line " ++ toString place.line ++ " column "
      ++ toString place.column
  | none => error.problem.message

end TextError

end EventSchema
