import EventSchema.Schema.Basic

/-!
# Closing references

While a record is being read, a mention of its own name can only be a
reference.  Once the record is finished, the references inside it are replaced
by the finished definition.  What is put in is not entered again, so a
recursive type unrolls one level.
-/

namespace EventSchema

namespace Schema

mutual

/-- Replaces every reference to `fullName` by `definition`. -/
def close (fullName : String) (definition : Schema) : Schema → Schema
  | primitive kind props => primitive kind props
  | array items props => array (close fullName definition items) props
  | map values props => map (close fullName definition values) props
  | union members => union (closeList fullName definition members)
  | record head isError fields => record head isError (closeFields fullName definition fields)
  | enum head symbols defaultSymbol => enum head symbols defaultSymbol
  | fixed head size => fixed head size
  | ref name => if name = fullName then definition else ref name
termination_by structural schema => schema

/-- `close` on each schema of a list. -/
def closeList (fullName : String) (definition : Schema) : List Schema → List Schema
  | [] => []
  | schema :: rest => close fullName definition schema :: closeList fullName definition rest
termination_by structural schemas => schemas

/-- `close` on the schema of a field. -/
def closeField (fullName : String) (definition : Schema) : FieldOf Schema → FieldOf Schema
  | ⟨name, schema, defaultValue, doc, order, aliases, props⟩ =>
    ⟨name, close fullName definition schema, defaultValue, doc, order, aliases, props⟩
termination_by structural field => field

/-- `close` on the schema of each field. -/
def closeFields (fullName : String) (definition : Schema) :
    List (FieldOf Schema) → List (FieldOf Schema)
  | [] => []
  | field :: rest => closeField fullName definition field :: closeFields fullName definition rest
termination_by structural fields => fields

end

theorem closeList_eq_map (fullName : String) (definition : Schema) (schemas : List Schema) :
    closeList fullName definition schemas = schemas.map (close fullName definition) := by
  induction schemas with
  | nil => rfl
  | cons schema rest ih => simp [closeList, ih]

theorem closeFields_eq_map (fullName : String) (definition : Schema) (fields : List Field) :
    closeFields fullName definition fields = fields.map (closeField fullName definition) := by
  induction fields with
  | nil => rfl
  | cons field rest ih => simp [closeFields, ih]

end Schema

end EventSchema
