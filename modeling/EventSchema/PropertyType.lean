import EventSchema.ClassType
import EventSchema.Registry

/-!
# Types of properties

A property is declared without a type, with a class, with an event type given
by name or directly, or with properties of its own.
-/

namespace EventSchema

/-- The declared type of a property. -/
inductive PropertyType where
  | none
  /-- A value of a class. -/
  | value (type : ClassType)
  /-- An event type by its registered name, with an array marker for an array of it. -/
  | named (name : String)
  | event (type : EventType)
  /-- An array of events; the first type speaks for all elements. -/
  | eventArray (types : List EventType)
  | nested (properties : List (String × PropertyType))

namespace PropertyType

instance : Inhabited PropertyType :=
  ⟨none⟩

mutual

/-- The text of a type. -/
def text : PropertyType → String
  | none => "null"
  | value type => type.text
  | named name => name
  | event type => type.name
  | eventArray types =>
    match types.head? with
    | some type => type.name ++ arrayMarker
    | Option.none => arrayMarker
  | nested properties => "\x7b" ++ ", ".intercalate (propertyTexts properties) ++ "\x7d"
termination_by structural type => type

/-- The texts of nested properties. -/
def propertyTexts : List (String × PropertyType) → List String
  | [] => []
  | (name, type) :: rest => (name ++ "=" ++ type.text) :: propertyTexts rest
termination_by structural properties => properties

end

/-- The type that a type string denotes: blanks around it do not count, `null` is no type, and
what is no class is the name of an event type. -/
def ofName (name : String) : PropertyType :=
  let trimmed := trimBlanks name
  if trimmed = "null" then none
  else
    match ClassType.ofName? trimmed with
    | some type => value type
    | Option.none => named trimmed

end PropertyType

/-- A property type as a document writes it: a type string, or properties of its own, some of
them without a type. -/
inductive TypeSpec where
  | string (text : String)
  | nested (properties : List (String × Option TypeSpec))

namespace TypeSpec

mutual

/-- The property type that a written type denotes. -/
def toType : TypeSpec → PropertyType
  | string text => .ofName text
  | nested properties => .nested (toTypes properties)
termination_by structural spec => spec

/-- The property type of a property that may have been written without one. -/
def toType? : Option TypeSpec → PropertyType
  | none => .none
  | some spec => spec.toType
termination_by structural spec => spec

/-- The property types of nested properties. -/
def toTypes : List (String × Option TypeSpec) → List (String × PropertyType)
  | [] => []
  | (name, spec) :: rest => (name, toType? spec) :: toTypes rest
termination_by structural properties => properties

end

end TypeSpec

end EventSchema
