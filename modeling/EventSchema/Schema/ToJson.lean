import EventSchema.Json.Text
import EventSchema.Schema.Basic
import EventSchema.Schema.Error

/-!
# Writing schemas

A schema is written as JSON in document order.  The first occurrence of a named
type is written in full and every later one as its name.  A namespace equal to
the one of the enclosing record is left out.
-/

namespace EventSchema

/-- The namespace that a named type lives in: the one a dotted name carries, else its own unless
that is empty. -/
def TypeHead.ownSpace (head : TypeHead) : Option String :=
  match Name.splitLast head.name with
  | some (carried, _) => some carried
  | none => head.space.filter fun space => !space.isEmpty

namespace Schema

/-- The members of an object followed by the extra attributes; a key that is there already is
not written again. -/
def withProps (members : Entries Json) (props : Props) : Json :=
  .obj (members.addAllMissing props.entries)

/-- The name of a type already written, short when it lives in the current namespace. -/
def reference (space : Option String) (fullName : String) : Json :=
  match Name.splitLast fullName with
  | some (own, last) => if space = some own then .str last else .str fullName
  | none => .str fullName

/-- The members that the definition of a named type can open with.  A dotted name carries its namespace;
for any other, a namespace that differs from the current one is written out, an absent one as
empty text. -/
def openingSlots (space : Option String) (word : String) (head : TypeHead) :
    List (String × Option Json) :=
  [("type", some (.str word)),
    ("name", some (.str head.name)),
    ("namespace", if !Name.isDotted head.name && head.ownSpace ≠ space then
      some (.str (head.ownSpace.getD "")) else none),
    ("doc", head.doc.map .str),
    ("aliases", if head.aliases.isEmpty then none else some (Json.ofStrings head.aliases))]

/-- The members that open the definition of a named type. -/
def opening (space : Option String) (word : String) (head : TypeHead) : Entries Json :=
  .present (openingSlots space word head)

/-- The word for a record or an error. -/
def recordWord (isError : Bool) : String :=
  if isError then "error" else "record"

/-- The members that a field can have. -/
def fieldSlots {σ : Type} (field : FieldOf σ) (type : Json) : List (String × Option Json) :=
  [("name", some (.str field.name)),
    ("type", some type),
    ("doc", field.doc.map .str),
    ("default", field.defaultValue),
    ("order", field.order.map fun order => .str order.name),
    ("aliases", if field.aliases.isEmpty then none else some (Json.ofStrings field.aliases))]

/-- The members of a field. -/
def fieldMembers {σ : Type} (field : FieldOf σ) (type : Json) : Entries Json :=
  .present (fieldSlots field type)

/-- The members that close the definition of an enum. -/
def enumMembers (symbols : List String) (defaultSymbol : Option String) : Entries Json :=
  .present [("symbols", some (Json.ofStrings symbols)), ("default", defaultSymbol.map .str)]

/-- Writes a named type: its name must be valid, a type written before is referred to, and any
other is entered into the written ones before its body is. -/
def writeNamed (space : Option String) (written : List String) (head : TypeHead)
    (body : List String → Except SchemaWriteError (Json × List String)) :
    Except SchemaWriteError (Json × List String) :=
  if !Name.isValid head.name then .error (.invalidName head.name)
  else if head.fullName ∈ written then .ok (reference space head.fullName, written)
  else body (written ++ [head.fullName])

mutual

/-- Writes a schema, given the current namespace and the full names written so far, to which
the ones written now are added. -/
def write (space : Option String) (written : List String) :
    Schema → Except SchemaWriteError (Json × List String)
  | primitive kind props =>
    if props.entries.isEmpty then .ok (.str kind.name, written)
    else .ok (withProps [("type", .str kind.name)] props, written)
  | array items props => do
    let (items, written) ← write space written items
    return (withProps [("type", .str "array"), ("items", items)] props, written)
  | map values props => do
    let (values, written) ← write space written values
    return (withProps [("type", .str "map"), ("values", values)] props, written)
  | union members => do
    let (members, written) ← writeMembers space written 0 members
    return (.arr members, written)
  | record head isError fields =>
    writeNamed space written head fun written => do
      let (fields, written) ← writeFields head.ownSpace written fields
      return (withProps (opening space (recordWord isError) head ++ [("fields", .arr fields)])
        head.props, written)
  | enum head symbols defaultSymbol =>
    writeNamed space written head fun written =>
      .ok (withProps (opening space "enum" head ++ enumMembers symbols defaultSymbol) head.props,
        written)
  | fixed head size =>
    writeNamed space written head fun written =>
      .ok (withProps (opening space "fixed" head ++ [("size", .ofUInt64 size)]) head.props, written)
  | ref name =>
    if name.isEmpty then .error .emptyReference else .ok (reference space name, written)
termination_by structural schema => schema

/-- Writes the members of a union from one of them on; none of them may be a union. -/
def writeMembers (space : Option String) (written : List String) (place : Nat) :
    List Schema → Except SchemaWriteError (List Json × List String)
  | [] => .ok ([], written)
  | union _ :: _ => .error (.nestedUnion place)
  | member :: rest => do
    let (json, written) ← write space written member
    let (others, written) ← writeMembers space written (place + 1) rest
    return (json :: others, written)
termination_by structural members => members

/-- Writes a field. -/
def writeField (space : Option String) (written : List String) :
    FieldOf Schema → Except SchemaWriteError (Json × List String)
  | ⟨name, schema, defaultValue, doc, order, aliases, props⟩ => do
    let (type, written) ← write space written schema
    let field : FieldOf Unit := ⟨name, (), defaultValue, doc, order, aliases, props⟩
    return (withProps (fieldMembers field type) props, written)
termination_by structural field => field

/-- Writes the fields of a record from one of them on. -/
def writeFields (space : Option String) (written : List String) :
    List (FieldOf Schema) → Except SchemaWriteError (List Json × List String)
  | [] => .ok ([], written)
  | field :: rest => do
    let (json, written) ← writeField space written field
    let (others, written) ← writeFields space written rest
    return (json :: others, written)
termination_by structural fields => fields

end

/-- The JSON that a schema is written as. -/
def toJson (schema : Schema) : Except SchemaWriteError Json := do
  return (← write none [] schema).1

/-- The text that a schema is written as. -/
def text (schema : Schema) : Except SchemaWriteError String := do
  return (← schema.toJson).text

/-- The text of a schema, or in brackets why there is none. -/
def safeText (schema : Schema) : String :=
  match schema.text with
  | .ok text => text
  | .error error => "[Invalid schema: " ++ error.kind ++ ": " ++ error.message ++ "]"

end Schema

end EventSchema
