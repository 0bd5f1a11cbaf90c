import EventSchema.Json.Fault

/-!
# Errors of schemas

Why a text or a JSON value is no schema, and why a schema cannot be written
out.
-/

namespace EventSchema

/-- Why a text or a JSON value is no schema. -/
inductive SchemaReadError where
  | malformed (error : TextError)
  | unknownType (name : String)
  | invalidName (name : String)
  | missingAttribute (kind attr : String)
  | unexpectedValue (attr found : String)
  | nestedUnion
  | duplicateUnionMember (key : String)
  | redefinition (fullName : String)
  | duplicateField (name : String)
  | duplicateSymbol (symbol : String)
  deriving DecidableEq

/-- The wording of a read error. -/
def SchemaReadError.message : SchemaReadError → String
  | malformed error => "malformed JSON: " ++ error.message
  | unknownType name => "unknown type '" ++ name ++ "'"
  | invalidName name => "'" ++ name ++ "' is not a valid Avro name"
  | missingAttribute kind attr =>
    kind ++ " schema is missing the '" ++ attr ++ "' attribute"
  | unexpectedValue attr found =>
    "attribute '" ++ attr ++ "' has an unexpected value: " ++ found
  | nestedUnion => "unions may not immediately contain other unions"
  | duplicateUnionMember key => "duplicate in union: " ++ key
  | redefinition fullName => "can't redefine: " ++ fullName
  | duplicateField name => "duplicate field '" ++ name ++ "'"
  | duplicateSymbol symbol => "duplicate enum symbol '" ++ symbol ++ "'"

/-- Why a schema cannot be written out. -/
inductive SchemaWriteError where
  | invalidName (name : String)
  | nestedUnion (place : Nat)
  | emptyReference
  deriving DecidableEq

namespace SchemaWriteError

/-- The word for a write error. -/
def kind : SchemaWriteError → String
  | invalidName _ => "InvalidName"
  | nestedUnion _ => "NestedUnion"
  | emptyReference => "EmptyReference"

/-- The wording of a write error. -/
def message : SchemaWriteError → String
  | invalidName name => "'" ++ name ++ "' is not a valid Avro name"
  | nestedUnion place => "nested union: member " ++ toString place
  | emptyReference => "empty name reference"

end SchemaWriteError

end EventSchema
