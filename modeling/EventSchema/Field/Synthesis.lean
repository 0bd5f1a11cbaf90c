import EventSchema.Field.Nullability
import EventSchema.PropertyType
import EventSchema.Schema.OfJson
import EventSchema.Settings

/-!
# The field of a property

A property becomes one field: by its override if it has one, else by its type.
Event types contribute their registered schema, classes go by their kind and
nullability, and what is left has no field.
-/

namespace EventSchema

/-- Why a declaration has no schema. -/
inductive SynthesisError where
  | invalidPropertyName (property : String)
  | unreadableOverride (property : String) (cause : SchemaReadError)
  | unmappableType (property type : String)
  | notAnEventType (underlying : String)
  | duplicateField (record field : String)
  | duplicateType (name : String)
  deriving DecidableEq

/-- The wording of a synthesis error. -/
def SynthesisError.message : SynthesisError → String
  | invalidPropertyName property =>
    "invalid property name as Avro does not allow dot '.' in field names (property '"
      ++ property ++ "')"
  | unreadableOverride property cause =>
    "failed to parse Avro schema for property '" ++ property ++ "': " ++ cause.message
  | unmappableType property type =>
    "property '" ++ property ++ "' type '" ++ type
      ++ "' does not have a mapping to an Avro type (consider using a schema-override annotation)"
  | notAnEventType underlying =>
    "property type cannot be an event type with an underlying of type '" ++ underlying ++ "'"
  | duplicateField record field => "duplicate field '" ++ field ++ "' in record '" ++ record ++ "'"
  | duplicateType name => "type '" ++ name ++ "' is already declared"

/-- The schema of an event type that was given directly. -/
def eventSchema (type : EventType) : Except SynthesisError Schema :=
  match type.schema? with
  | some schema => .ok schema
  | none => .error (.notAnEventType type.representation.underlying)

/-- The shape of an array property, by its component; only basic classes, boxed or not, and text
have one. -/
def arrayShape? (component : ClassType) (settings : Settings) : Option FieldShape :=
  match component.toBoxed with
  | .boxed kind =>
    (ElementKind.ofBasic? kind).map fun kind =>
      kind.arrayShape component.isNullable settings.preferNonNull
  | .string | .charSequence =>
    some (.outer (.arrayOf (.string settings.nativeString)) settings.preferNonNull)
  | _ => none

/-- The shape of a property of a class.  An array of unboxed bytes is the primitive type bytes,
and a map holds strings. -/
def classShape? (type : ClassType) (settings : Settings) : Option FieldShape :=
  let form := Form.of settings.preferNonNull type.isNullable
  match type.toBoxed with
  | .boxed kind => (ElementKind.ofBasic? kind).map fun kind => (ScalarKind.element kind).shape form
  | .string | .charSequence => some ((ScalarKind.string settings.nativeString).shape form)
  | .array (.basic .byte) => some (ScalarKind.bytes.shape form)
  | .array component => arrayShape? component settings
  | .map _ => some (.outer (.mapOf (.string settings.nativeString)) settings.preferNonNull)
  | _ => none

/-- The schema of an event type that was given by name, or of an array of it. -/
def namedSchema? (registry : Registry) (name : String) : Option Schema :=
  let (bare, isArray) := stripArrayMarker name
  (registry.resolve? bare).bind fun type =>
    type.schema?.map fun schema => if isArray then .arrayOf schema else schema

/-- The shape of a property by its type. -/
def shapeOfType (property : String) (type : PropertyType) (settings : Settings)
    (registry : Registry) : Except SynthesisError FieldShape :=
  match type with
  | .none => .ok (.required (.ofKind .null))
  | .named name =>
    match namedSchema? registry name with
    | some schema => .ok (.required schema)
    | none => .error (.unmappableType property name)
  | .event event => return .required (← eventSchema event)
  | .eventArray (event :: _) => return .required (.arrayOf (← eventSchema event))
  | .value value =>
    match classShape? value settings with
    | some shape => .ok shape
    | none => .error (.unmappableType property value.text)
  | other => .error (.unmappableType property other.text)

/-- The field of a property.  Points in names come first, then overrides, then the type. -/
def synthesize (property : String) (type : PropertyType) (notes : List Note)
    (settings : Settings) (registry : Registry) : Except SynthesisError Field :=
  if Name.isDotted property then .error (.invalidPropertyName property)
  else
    match findOverride? notes property with
    | some override =>
      match Schema.parse override with
      | .ok schema => .ok { name := property, schema }
      | .error cause => .error (.unreadableOverride property cause)
    | none => return (← shapeOfType property type settings registry).toField property

end EventSchema
