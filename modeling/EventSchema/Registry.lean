import EventSchema.Schema.Equality

/-!
# Event types and their registry

A declared event type has a name and a representation of its events; only the
Avro representation carries a schema.  A registry holds event types of distinct
names in the order in which they were registered.
-/

namespace EventSchema

/-- How a type stores its events. -/
inductive Representation where
  /-- Avro records of the given schema. -/
  | avro (schema : Schema)
  | map
  | objectArray
  /-- Objects of the named class. -/
  | bean (className : String)
  deriving DecidableEq

/-- The class of the underlying values. -/
def Representation.underlying : Representation → String
  | avro _ => "org.apache.avro.generic.GenericData$Record"
  | map => "java.util.Map"
  | objectArray => "[Ljava.lang.Object;"
  | bean className => className

/-- An event type. -/
structure EventType where
  name : String
  representation : Representation
  deriving DecidableEq

namespace EventType

/-- The schema of a type, if its representation carries one. -/
def schema? (type : EventType) : Option Schema :=
  match type.representation with
  | .avro schema => some schema
  | _ => none

/-- Whether a type carries a schema. -/
def bearsSchema (type : EventType) : Bool :=
  type.schema?.isSome

end EventType

/-- The registered types, in the order of registration. -/
structure Registry where
  types : List EventType := []

namespace Registry

/-- The registered type of a name. -/
def resolve? (registry : Registry) (name : String) : Option EventType :=
  registry.types.find? fun type => type.name = name

/-- The registered names, in order. -/
def names (registry : Registry) : List String :=
  registry.types.map EventType.name

end Registry

end EventSchema
