import EventSchema.ClassType
import EventSchema.Schema.Basic

/-!
# Required and optional fields

A field is required or optional.  This module holds the choice between the two
and the schema and default that each kind of value has in either form.
-/

namespace EventSchema

/-- Whether a field may be null. -/
inductive Form where
  | required
  | optional
  deriving DecidableEq

/-- The form of a field: optional only for nullable classes, and never where required fields are
preferred. -/
def Form.of (preferNonNull nullable : Bool) : Form :=
  if !preferNonNull && nullable then .optional else .required

/-- The word for a form. -/
def Form.name : Form → String
  | required => "required"
  | optional => "optional"

/-- A field without its name. -/
structure FieldShape where
  schema : Schema
  defaultValue : Option Json := none

namespace FieldShape

/-- The schema as it is, without a default. -/
def required (schema : Schema) : FieldShape :=
  { schema }

/-- The schema as it is where required fields are preferred, else the schema or null; in either
case without a default. -/
def outer (schema : Schema) (preferNonNull : Bool) : FieldShape :=
  if preferNonNull then required schema else required (.nullable schema)

/-- The field of a name. -/
def toField (shape : FieldShape) (name : String) : Field :=
  { name, schema := shape.schema, defaultValue := shape.defaultValue }

end FieldShape

/-- The kinds of values that fields and array elements have in common. -/
inductive ElementKind where
  | boolean
  | int
  | long
  | float
  | double
  deriving DecidableEq

namespace ElementKind

/-- The kind of a basic class: a byte widens to an int, shorts and chars have none. -/
def ofBasic? : BasicClass → Option ElementKind
  | .boolean => some boolean
  | .byte => some int
  | .int => some int
  | .long => some long
  | .float => some float
  | .double => some double
  | .short => none
  | .char => none

/-- The primitive type of a kind. -/
def schema : ElementKind → Schema
  | boolean => .ofKind .boolean
  | int => .ofKind .int
  | long => .ofKind .long
  | float => .ofKind .float
  | double => .ofKind .double

/-- An array of the kind; its elements, not the array, take the form. -/
def arraySchema (kind : ElementKind) : Form → Schema
  | .required => .arrayOf kind.schema
  | .optional => .arrayOf (.nullable kind.schema)

/-- An array field: elements follow their own nullability, the array follows the preference. -/
def arrayShape (kind : ElementKind) (nullableElements preferNonNull : Bool) : FieldShape :=
  .outer (kind.arraySchema (if nullableElements then .optional else .required)) preferNonNull

end ElementKind

/-- The kinds of values that a field holds one of. -/
inductive ScalarKind where
  | element (kind : ElementKind)
  | string (native : Bool)
  | bytes
  deriving DecidableEq

namespace ScalarKind

/-- The primitive type of a kind. -/
def schema : ScalarKind → Schema
  | element kind => kind.schema
  | string native => .string native
  | bytes => .ofKind .bytes

/-- The default of an optional field: null, but none for native strings and bytes. -/
def optionalDefault : ScalarKind → Option Json
  | element _ => some .null
  | string native => if native then none else some .null
  | bytes => none

/-- The schema and default of a kind in the given form. -/
def shape (kind : ScalarKind) : Form → FieldShape
  | .required => .required kind.schema
  | .optional => { schema := .nullable kind.schema, defaultValue := kind.optionalDefault }

end ScalarKind

end EventSchema
