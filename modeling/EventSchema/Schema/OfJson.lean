import EventSchema.Json.Parse
import EventSchema.Json.Text
import EventSchema.Schema.Closing
import EventSchema.Schema.Error

/-!
# Reading schemas

A JSON value is read as a schema: names of primitives, unions as arrays, and
objects with a `type`.  A type may be named again once it is defined, and is
then replaced by its definition; inside its own definition it stays a reference
until the record is finished.  Attributes that the kind of a node does not
define are kept on the node.
-/

namespace EventSchema

/-- The named types met so far while reading a schema.  A full name is claimed when its
definition starts, and has a definition once that is finished. -/
structure Scope where
  claimed : List String := []
  finished : Entries Schema := []

namespace Scope

/-- The claimed full name that a name refers to within a namespace: the qualified name first,
then the name as it is written. -/
def resolve? (scope : Scope) (space : Option String) (name : String) : Option String :=
  if Name.full name space ∈ scope.claimed then some (Name.full name space)
  else if name ∈ scope.claimed then some name
  else none

/-- The schema that a name stands for: a primitive, a finished definition, or a reference to a
type that is still being read. -/
def schemaOfName (scope : Scope) (space : Option String) (name : String) :
    Except SchemaReadError Schema :=
  match PrimitiveKind.ofName? name with
  | some kind => .ok (.ofKind kind)
  | none =>
    match scope.resolve? space name with
    | none => .error (.unknownType name)
    | some fullName =>
      match scope.finished.get? fullName with
      | some definition => .ok definition
      | none => .ok (.ref fullName)

/-- Claims a full name, which neither a primitive nor an earlier type may have. -/
def claim (scope : Scope) (fullName : String) : Except SchemaReadError Scope :=
  if (PrimitiveKind.ofName? fullName).isSome || fullName ∈ scope.claimed then
    .error (.redefinition fullName)
  else .ok { scope with claimed := scope.claimed ++ [fullName] }

/-- Records the definition of a claimed name. -/
def finish (scope : Scope) (fullName : String) (definition : Schema) : Scope :=
  { scope with finished := scope.finished ++ [(fullName, definition)] }

end Scope

namespace Schema

/-- The attributes that a primitive defines. -/
def primitiveAttributes : List String := ["type"]

/-- The attributes that an array defines. -/
def arrayAttributes : List String := ["type", "items"]

/-- The attributes that a map defines. -/
def mapAttributes : List String := ["type", "values"]

/-- The attributes that a record defines. -/
def recordAttributes : List String := ["type", "name", "namespace", "doc", "aliases", "fields"]

/-- The attributes that an enum defines. -/
def enumAttributes : List String :=
  ["type", "name", "namespace", "doc", "aliases", "symbols", "default"]

/-- The attributes that a fixed defines. -/
def fixedAttributes : List String := ["type", "name", "namespace", "doc", "aliases", "size"]

/-- The attributes that a field defines. -/
def fieldAttributes : List String := ["name", "type", "doc", "default", "order", "aliases"]

/-- A text attribute; null counts as absent. -/
def textAttribute (members : Entries Json) (attr : String) :
    Except SchemaReadError (Option String) :=
  match members.get? attr with
  | none | some .null => .ok none
  | some (.str value) => .ok (some value)
  | some other => .error (.unexpectedValue attr other.text)

/-- A text attribute that may not be missing. -/
def requiredText (members : Entries Json) (kind attr : String) :
    Except SchemaReadError String := do
  match ← textAttribute members attr with
  | some value => .ok value
  | none => .error (.missingAttribute kind attr)

/-- One alias, a valid name. -/
def aliasOfJson : Json → Except SchemaReadError String
  | .str name => if Name.isValid name then .ok name else .error (.invalidName name)
  | other => .error (.unexpectedValue "aliases" other.text)

/-- The aliases of a type or a field; null counts as absent. -/
def aliasesOf (members : Entries Json) : Except SchemaReadError (List String) :=
  match members.get? "aliases" with
  | none | some .null => .ok []
  | some (.arr items) => items.mapM aliasOfJson
  | some other => .error (.unexpectedValue "aliases" other.text)

/-- The name and namespace of a definition.  A missing namespace is taken from the enclosing
one, and an empty one opts out of it. -/
def nameOf (space : Option String) (kind : String) (members : Entries Json) :
    Except SchemaReadError (String × Option String) := do
  let name ← requiredText members kind "name"
  let own := match ← textAttribute members "namespace" with
    | some explicit => if explicit.isEmpty then none else some explicit
    | none => space
  if !Name.isValid name then .error (.invalidName name)
  else
    match own with
    | some explicit =>
      if Name.isValid explicit then .ok (name, own) else .error (.invalidName explicit)
    | none => .ok (name, own)

/-- The parts of a definition that all named types share, once its name is known. -/
def headOf (name : String) (space : Option String) (reserved : List String)
    (members : Entries Json) : Except SchemaReadError TypeHead := do
  let doc ← textAttribute members "doc"
  let aliases ← aliasesOf members
  return { name, space, doc, aliases, props := .ofMembers reserved members }

/-- The namespace in which the fields of a record are read: the one that a dotted name carries,
else the record's own. -/
def innerSpace (name : String) (space : Option String) : Option String :=
  match Name.splitLast name with
  | some (carried, _) => some carried
  | none => space

/-- The symbols of an enum, legal segments that differ from the ones before them. -/
def symbolsOfJson (seen : List String) : List Json → Except SchemaReadError (List String)
  | [] => .ok []
  | .str symbol :: rest =>
    if !Name.isSegment symbol then .error (.invalidName symbol)
    else if symbol ∈ seen then .error (.duplicateSymbol symbol)
    else do return symbol :: (← symbolsOfJson (seen ++ [symbol]) rest)
  | other :: _ => .error (.unexpectedValue "symbols" other.text)

/-- The default symbol of an enum, one of its symbols. -/
def defaultSymbolOf (symbols : List String) (members : Entries Json) :
    Except SchemaReadError (Option String) := do
  match ← textAttribute members "default" with
  | some symbol =>
    if symbol ∈ symbols then .ok (some symbol) else .error (.unexpectedValue "default" symbol)
  | none => .ok none

/-- An enum. -/
def enumOfMembers (scope : Scope) (space : Option String) (members : Entries Json) :
    Except SchemaReadError (Schema × Scope) := do
  let (name, own) ← nameOf space "enum" members
  let fullName := Name.full name own
  let scope ← scope.claim fullName
  match members.get? "symbols" with
  | some (.arr items) =>
    let symbols ← symbolsOfJson [] items
    let defaultSymbol ← defaultSymbolOf symbols members
    let head ← headOf name own enumAttributes members
    let schema := enum head symbols defaultSymbol
    return (schema, scope.finish fullName schema)
  | _ => .error (.missingAttribute "enum" "symbols")

/-- A fixed. -/
def fixedOfMembers (scope : Scope) (space : Option String) (members : Entries Json) :
    Except SchemaReadError (Schema × Scope) := do
  let (name, own) ← nameOf space "fixed" members
  let fullName := Name.full name own
  let scope ← scope.claim fullName
  match members.get? "size" with
  | some value =>
    match value.toUInt64? with
    | some size =>
      let head ← headOf name own fixedAttributes members
      let schema := fixed head size
      return (schema, scope.finish fullName schema)
    | none => .error (.unexpectedValue "size" value.text)
  | none => .error (.missingAttribute "fixed" "size")

/-- The sort order of a field. -/
def orderOf (members : Entries Json) : Except SchemaReadError (Option FieldOrder) := do
  match ← textAttribute members "order" with
  | some word =>
    match FieldOrder.ofName? word with
    | some order => .ok (some order)
    | none => .error (.unexpectedValue "order" word)
  | none => .ok none

/-- The name of a field, a single segment. -/
def fieldNameOf (members : Entries Json) : Except SchemaReadError String := do
  let name ← requiredText members "field" "name"
  if Name.isSegment name then .ok name else .error (.invalidName name)

/-- The key by which a member of a union is told from the others: the kind of an unnamed type,
the full name of a named one.  A union has none, as it may not be a member. -/
def unionKey? : Schema → Option String
  | union _ => none
  | primitive kind _ => some kind.name
  | array .. => some "array"
  | map .. => some "map"
  | named => named.fullName?

/-- Finishes a record: references to it inside its fields are closed with the record as it was
before closing. -/
def closeRecord (head : TypeHead) (isError : Bool) (fields : List Field) : Schema :=
  record head isError (closeFields head.fullName (record head isError fields) fields)

mutual

/-- The schema that a JSON value denotes within a namespace. -/
def read (scope : Scope) (space : Option String) :
    Json → Except SchemaReadError (Schema × Scope)
  | .str name => do return (← scope.schemaOfName space name, scope)
  | .arr members => do
    let (schemas, scope) ← readMembers scope space [] members
    return (union schemas, scope)
  | .obj members =>
    match Entries.get? members "type" with
    | none => .error (.missingAttribute "schema" "type")
    | some (.str word) =>
      match PrimitiveKind.ofName? word with
      | some kind => .ok (primitive kind (.ofMembers primitiveAttributes members), scope)
      | none =>
        if word = "array" then do
          let (items, scope) ← readAttribute scope space "array" "items" members
          return (array items (.ofMembers arrayAttributes members), scope)
        else if word = "map" then do
          let (values, scope) ← readAttribute scope space "map" "values" members
          return (map values (.ofMembers mapAttributes members), scope)
        else if word = "record" ∨ word = "error" then do
          let (name, own) ← nameOf space word members
          let fullName := Name.full name own
          let scope ← scope.claim fullName
          let (fields, scope) ← readFieldsAttribute scope (innerSpace name own) word members
          let head ← headOf name own recordAttributes members
          let schema := closeRecord head (word = "error") fields
          return (schema, scope.finish fullName schema)
        else if word = "enum" then enumOfMembers scope space members
        else if word = "fixed" then fixedOfMembers scope space members
        else do return (← scope.schemaOfName space word, scope)
    | some other => .error (.unexpectedValue "type" other.text)
  | other => .error (.unexpectedValue "type" other.text)
termination_by structural json => json

/-- The members of a union from one of them on, given the keys of the ones before. -/
def readMembers (scope : Scope) (space : Option String) (seen : List String) :
    List Json → Except SchemaReadError (List Schema × Scope)
  | [] => .ok ([], scope)
  | member :: rest => do
    let (schema, scope) ← read scope space member
    match unionKey? schema with
    | none => .error .nestedUnion
    | some key =>
      if key ∈ seen then .error (.duplicateUnionMember key)
      else do
        let (schemas, scope) ← readMembers scope space (seen ++ [key]) rest
        return (schema :: schemas, scope)
termination_by structural members => members

/-- The schema under an attribute that may not be missing. -/
def readAttribute (scope : Scope) (space : Option String) (kind attr : String) :
    List (String × Json) → Except SchemaReadError (Schema × Scope)
  | [] => .error (.missingAttribute kind attr)
  | (key, value) :: rest =>
    if key = attr then read scope space value
    else readAttribute scope space kind attr rest
termination_by structural members => members

/-- The fields under the `fields` attribute of a record. -/
def readFieldsAttribute (scope : Scope) (space : Option String) (kind : String) :
    List (String × Json) → Except SchemaReadError (List Field × Scope)
  | [] => .error (.missingAttribute kind "fields")
  | (key, value) :: rest =>
    if key = "fields" then readFieldsValue scope space value
    else readFieldsAttribute scope space kind rest
termination_by structural members => members

/-- The fields that the value of the `fields` attribute lists. -/
def readFieldsValue (scope : Scope) (space : Option String) :
    Json → Except SchemaReadError (List Field × Scope)
  | .arr items => readFields scope space [] items
  | other => .error (.unexpectedValue "fields" other.text)
termination_by structural json => json

/-- The fields of a record from one of them on, given the names of the ones before. -/
def readFields (scope : Scope) (space : Option String) (seen : List String) :
    List Json → Except SchemaReadError (List Field × Scope)
  | [] => .ok ([], scope)
  | item :: rest => do
    let (field, scope) ← readField scope space item
    if field.name ∈ seen then .error (.duplicateField field.name)
    else do
      let (fields, scope) ← readFields scope space (seen ++ [field.name]) rest
      return (field :: fields, scope)
termination_by structural items => items

/-- A field. -/
def readField (scope : Scope) (space : Option String) :
    Json → Except SchemaReadError (Field × Scope)
  | .obj members => do
    let name ← fieldNameOf members
    if (Entries.get? members "type").isNone then .error (.missingAttribute "field" "type")
    else do
      let order ← orderOf members
      let (schema, scope) ← readAttribute scope space "field" "type" members
      let doc ← textAttribute members "doc"
      let aliases ← aliasesOf members
      return ({ name, schema, defaultValue := Entries.get? members "default", doc, order, aliases,
                props := .ofMembers fieldAttributes members }, scope)
  | other => .error (.unexpectedValue "fields" other.text)
termination_by structural json => json

end

/-- The schema that a JSON value denotes. -/
def ofJson (json : Json) : Except SchemaReadError Schema := do
  return (← read {} none json).1

/-- The schema that a JSON text denotes. -/
def parse (text : String) : Except SchemaReadError Schema :=
  match Json.parse text with
  | .ok json => ofJson json
  | .error error => .error (.malformed error)

end Schema

end EventSchema
