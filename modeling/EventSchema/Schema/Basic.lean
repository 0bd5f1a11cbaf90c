import EventSchema.Name
import EventSchema.Props

/-!
# Schemas

The model of Avro schemas: primitives, arrays, maps and unions, the named types
record, enum and fixed, and references to named types by full name.  A record's
fields carry schemas of their own.
-/

namespace EventSchema

/-- The primitive types. -/
inductive PrimitiveKind where
  | null
  | boolean
  | int
  | long
  | float
  | double
  | bytes
  | string
  deriving DecidableEq

namespace PrimitiveKind

/-- The name that a primitive type is written as. -/
def name : PrimitiveKind → String
  | null => "null"
  | boolean => "boolean"
  | int => "int"
  | long => "long"
  | float => "float"
  | double => "double"
  | bytes => "bytes"
  | string => "string"

/-- Every primitive type. -/
def all : List PrimitiveKind :=
  [null, boolean, int, long, float, double, bytes, string]

/-- The primitive type of a name. -/
def ofName? (name : String) : Option PrimitiveKind :=
  all.find? fun kind => kind.name = name

end PrimitiveKind

/-- How the values of a field are sorted. -/
inductive FieldOrder where
  | ascending
  | descending
  | ignore
  deriving DecidableEq

namespace FieldOrder

/-- The word that an order is written as. -/
def name : FieldOrder → String
  | ascending => "ascending"
  | descending => "descending"
  | ignore => "ignore"

/-- The order of a word. -/
def ofName? (name : String) : Option FieldOrder :=
  [ascending, descending, ignore].find? fun order => order.name = name

end FieldOrder

/-- What all named types have in common. -/
structure TypeHead where
  name : String
  space : Option String := none
  doc : Option String := none
  aliases : List String := []
  props : Props := .empty
  deriving DecidableEq

/-- The full name of a named type. -/
def TypeHead.fullName (head : TypeHead) : String :=
  Name.full head.name head.space

/-- A field over schemas of type `σ`.  No default differs from a null default. -/
structure FieldOf (σ : Type) where
  name : String
  schema : σ
  defaultValue : Option Json := none
  doc : Option String := none
  order : Option FieldOrder := none
  aliases : List String := []
  props : Props := .empty
  deriving DecidableEq

/-- A schema. -/
inductive Schema where
  | primitive (kind : PrimitiveKind) (props : Props)
  | array (items : Schema) (props : Props)
  | map (values : Schema) (props : Props)
  | union (members : List Schema)
  | record (head : TypeHead) (isError : Bool) (fields : List (FieldOf Schema))
  | enum (head : TypeHead) (symbols : List String) (defaultSymbol : Option String)
  | fixed (head : TypeHead) (size : UInt64)
  | ref (name : String)

/-- A field of a record. -/
abbrev Field := FieldOf Schema

namespace Schema

/-- A primitive type without extra attributes. -/
def ofKind (kind : PrimitiveKind) : Schema :=
  .primitive kind .empty

instance : Inhabited Schema :=
  ⟨ofKind .null⟩

/-- The key of the attribute that marks a string as native on the consuming side. -/
def nativeStringKey : String := "avro.java.string"

/-- The value of the attribute that marks a native string. -/
def nativeStringValue : Json := .str "String"

/-- A string, marked as native or plain. -/
def string (native : Bool) : Schema :=
  .primitive .string (if native then .ofList [(nativeStringKey, nativeStringValue)] else .empty)

/-- An array without extra attributes. -/
def arrayOf (items : Schema) : Schema :=
  .array items .empty

/-- A map without extra attributes. -/
def mapOf (values : Schema) : Schema :=
  .map values .empty

/-- The union of null and a schema; null comes first, so that a null default is legal. -/
def nullable (inner : Schema) : Schema :=
  .union [ofKind .null, inner]

/-- The word for a schema's kind. -/
def kindName : Schema → String
  | primitive kind _ => kind.name
  | array .. => "array"
  | map .. => "map"
  | union _ => "union"
  | record .. => "record"
  | enum .. => "enum"
  | fixed .. => "fixed"
  | ref _ => "ref"

/-- The extra attributes; unions and references have none. -/
def props? : Schema → Option Props
  | primitive _ props => some props
  | array _ props => some props
  | map _ props => some props
  | record head .. => some head.props
  | enum head .. => some head.props
  | fixed head _ => some head.props
  | union _ => none
  | ref _ => none

/-- The value of an extra attribute. -/
def prop? (schema : Schema) (key : String) : Option Json :=
  schema.props?.bind fun props => props.get? key

/-- The full name of a named type or a reference. -/
def fullName? : Schema → Option String
  | record head .. => some head.fullName
  | enum head .. => some head.fullName
  | fixed head _ => some head.fullName
  | ref name => some name
  | _ => none

/-- Whether the schema is a string marked as native. -/
def isNativeString (schema : Schema) : Bool :=
  match schema with
  | primitive .string _ => schema.prop? nativeStringKey = some nativeStringValue
  | _ => false

/-- Whether the schema is a record. -/
def isRecord : Schema → Bool
  | record .. => true
  | _ => false

/-- The fields of a record. -/
def fields? : Schema → Option (List Field)
  | record _ _ fields => some fields
  | _ => none

/-- The record member of a union, if there is exactly one. -/
def onlyRecord? : Schema → Option Schema
  | union members =>
    match members.filter isRecord with
    | [only] => some only
    | _ => none
  | _ => none

end Schema

/-- The field of a name. -/
def findField? (fields : List Field) (name : String) : Option Field :=
  fields.find? fun field => field.name = name

end EventSchema
