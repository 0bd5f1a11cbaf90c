import EventSchema.Json.Basic

/-!
# Settings and notes

Settings choose how nullable classes and strings become schemas.  Notes
are attached to a declared type and consulted for each of its properties.
-/

namespace EventSchema

/-- How classes become schemas. -/
structure Settings where
  /-- Fields are required even where the class is nullable. -/
  preferNonNull : Bool := false
  /-- Strings are marked as native. -/
  nativeString : Bool := false
  deriving DecidableEq

/-- The JSON form of settings. -/
def Settings.toJson (settings : Settings) : Json :=
  .obj [("prefer_non_null", .bool settings.preferNonNull),
    ("native_string", .bool settings.nativeString)]

/-- What is attached to a declared type. -/
inductive Note where
  /-- The schema text of a property, used instead of its type. -/
  | schemaOverride (property schema : String)
  /-- A description, which no schema depends on. -/
  | description (text : String)
  deriving DecidableEq

namespace Note

/-- The JSON form of a note. -/
def toJson : Note → Json
  | schemaOverride property schema =>
    .obj [("kind", .str "schema_override"), ("name", .str property), ("schema", .str schema)]
  | description text => .obj [("kind", .str "description"), ("text", .str text)]

/-- The schema text that a note gives for a property. -/
def schemaFor? (property : String) : Note → Option String
  | schemaOverride target schema => if target = property then some schema else none
  | description _ => none

end Note

/-- The schema text of the first override for a property. -/
def findOverride? (notes : List Note) (property : String) : Option String :=
  notes.findSome? (Note.schemaFor? property)

end EventSchema
