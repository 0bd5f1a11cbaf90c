import EventSchema.Field.Synthesis
import EventSchema.Proofs.Reading
import EventSchema.Schema.Equality

/-!
# Shapes of classes

Where required fields are not preferred, a nullable class becomes a union with
null, which may have null as its default; nothing else depends on the
preference.  An array holds what a field of its component class holds, except
that strings in it are never null.  The main statements compare the fields of
one property under both preferences, and the field of an array with the field of
its components.
-/

namespace EventSchema

/-! ## With null and without -/

/-- Whether null is the default of a field that holds the schema or null: the schema is a primitive
type other than bytes and the native string. -/
def Schema.takesNull : Schema → Bool
  | primitive kind props => kind ≠ .bytes && !(primitive kind props).isNativeString
  | _ => false

/-- The shape of a field that may be null as well. -/
def FieldShape.orNull (shape : FieldShape) : FieldShape where
  schema := .nullable shape.schema
  defaultValue := if shape.schema.takesNull then some .null else none

/-- Whether values of the type may be null: only nullable classes have such values. -/
def PropertyType.isNullable : PropertyType → Bool
  | value type => type.isNullable
  | _ => false

/-- Whether a property is optional where required fields are not preferred: it has no override, and
its type is a nullable class. -/
def isOptional (property : String) (type : PropertyType) (notes : List Note) : Bool :=
  (findOverride? notes property).isNone && type.isNullable

theorem shape_optional (kind : ScalarKind) :
    kind.shape .optional = (kind.shape .required).orNull := by
  cases kind with
  | element kind => cases kind <;> rfl
  | string native => cases native <;> rfl
  | bytes => rfl

theorem outer_orNull {schema : Schema} (h : schema.takesNull = false) :
    FieldShape.outer schema false = (FieldShape.outer schema true).orNull := by
  simp [FieldShape.outer, FieldShape.orNull, FieldShape.required, h]

theorem takesNull_arraySchema (kind : ElementKind) (form : Form) :
    (kind.arraySchema form).takesNull = false := by
  cases form <;> rfl

/-- An array is nullable, whatever its components are. -/
theorem arrayShape_preference (component : ClassType) (native : Bool) :
    arrayShape? component ⟨false, native⟩ =
      (arrayShape? component ⟨true, native⟩).map FieldShape.orNull := by
  rw [arrayShape?, arrayShape?]
  split
  · rw [Option.map_map]
    congr 1
    funext kind
    exact outer_orNull (takesNull_arraySchema kind _)
  · exact congrArg some (outer_orNull rfl)
  · exact congrArg some (outer_orNull rfl)
  · rfl

theorem classShape_array {component : ClassType} (h : component ≠ .basic .byte)
    (settings : Settings) :
    classShape? (.array component) settings = arrayShape? component settings := by
  cases component with
  | basic kind => cases kind <;> first | exact absurd rfl h | rfl
  | boxed | string | charSequence | array | map | other => rfl

/-- The preference decides about the union with null around a nullable class, and about nothing
else. -/
theorem classShape_preference (type : ClassType) (native : Bool) :
    classShape? type ⟨false, native⟩ =
      (classShape? type ⟨true, native⟩).map fun shape =>
        if type.isNullable then shape.orNull else shape := by
  cases type with
  | basic kind => exact Option.map_id'.symm
  | boxed kind =>
      change (ElementKind.ofBasic? kind).map _ = ((ElementKind.ofBasic? kind).map _).map _
      rw [Option.map_map]
      congr 1
      funext kind
      exact shape_optional (.element kind)
  | string => exact congrArg some (shape_optional (.string native))
  | charSequence => exact congrArg some (shape_optional (.string native))
  | array component =>
      by_cases hbyte : component = .basic .byte
      · subst hbyte
        exact congrArg some (shape_optional .bytes)
      · rw [classShape_array hbyte, classShape_array hbyte]
        exact arrayShape_preference component native
  | map name => exact congrArg some (outer_orNull rfl)
  | other name => rfl

theorem isSome_classShape (type : ClassType) (settings other : Settings)
    (h : settings.nativeString = other.nativeString) :
    (classShape? type settings).isSome = (classShape? type other).isSome := by
  have hpreferred : ∀ settings : Settings, (classShape? type settings).isSome =
      (classShape? type ⟨true, settings.nativeString⟩).isSome := by
    intro settings
    obtain ⟨preferNonNull, native⟩ := settings
    cases preferNonNull with
    | true => rfl
    | false => rw [classShape_preference, Option.isSome_map]
  rw [hpreferred settings, hpreferred other, h]

theorem required_arrayShape {component : ClassType} {native : Bool} {shape : FieldShape}
    (h : arrayShape? component ⟨true, native⟩ = some shape) :
    ∃ schema, shape = .required schema := by
  rw [arrayShape?] at h
  split at h
  · obtain ⟨kind, -, rfl⟩ := Option.map_eq_some_iff.mp h
    exact ⟨_, rfl⟩
  · cases h
    exact ⟨_, rfl⟩
  · cases h
    exact ⟨_, rfl⟩
  · cases h

/-- Where required fields are preferred, no class has a default. -/
theorem required_classShape {type : ClassType} {native : Bool} {shape : FieldShape}
    (h : classShape? type ⟨true, native⟩ = some shape) : ∃ schema, shape = .required schema := by
  cases type with
  | basic kind | boxed kind =>
      obtain ⟨element, -, rfl⟩ := Option.map_eq_some_iff.mp h
      exact ⟨element.schema, rfl⟩
  | string | charSequence | map =>
      cases h
      exact ⟨_, rfl⟩
  | array component =>
      by_cases hbyte : component = .basic .byte
      · subst hbyte
        cases h
        exact ⟨_, rfl⟩
      · rw [classShape_array hbyte] at h
        exact required_arrayShape h
  | other name => cases h

/-! ## Properties under both preferences -/

section Properties

variable (property : String) (type : PropertyType) (notes : List Note) (native : Bool)
  (registry : Registry)

/-- The shape of a property is the same under either preference, up to the union with null of a
nullable class. -/
theorem shapeOfType_preference :
    (∃ cause, shapeOfType property type ⟨true, native⟩ registry = .error cause ∧
        shapeOfType property type ⟨false, native⟩ registry = .error cause) ∨
      ∃ schema, shapeOfType property type ⟨true, native⟩ registry = .ok (.required schema) ∧
        shapeOfType property type ⟨false, native⟩ registry =
          .ok (if type.isNullable then (FieldShape.required schema).orNull
            else .required schema) := by
  cases type with
  | none => exact .inr ⟨_, rfl, rfl⟩
  | value value =>
      rw [shapeOfType, shapeOfType, classShape_preference]
      cases hshape : classShape? value ⟨true, native⟩ with
      | none => exact .inl ⟨_, rfl, rfl⟩
      | some shape =>
          obtain ⟨schema, rfl⟩ := required_classShape hshape
          exact .inr ⟨schema, rfl, rfl⟩
  | named name =>
      rw [shapeOfType, shapeOfType]
      cases namedSchema? registry name with
      | none => exact .inl ⟨_, rfl, rfl⟩
      | some schema => exact .inr ⟨schema, rfl, rfl⟩
  | event event =>
      rw [shapeOfType, shapeOfType]
      cases eventSchema event with
      | error cause => exact .inl ⟨cause, rfl, rfl⟩
      | ok schema => exact .inr ⟨schema, rfl, rfl⟩
  | eventArray events =>
      cases events with
      | nil => exact .inl ⟨_, rfl, rfl⟩
      | cons event rest =>
          rw [shapeOfType, shapeOfType]
          cases eventSchema event with
          | error cause => exact .inl ⟨cause, rfl, rfl⟩
          | ok schema => exact .inr ⟨_, rfl, rfl⟩
  | nested properties => exact .inl ⟨_, rfl, rfl⟩

/-- The field of a property that is optional or not, where required fields are not preferred. -/
def fieldOrNull (property : String) (schema : Schema) (optional : Bool) : Field where
  name := property
  schema := if optional then .nullable schema else schema
  defaultValue := if optional && schema.takesNull then some .null else none

theorem toField_orNull (schema : Schema) (optional : Bool) :
    (if optional then (FieldShape.required schema).orNull else .required schema).toField property =
      fieldOrNull property schema optional := by
  cases optional <;> rfl

theorem schema_of_fieldOrNull {property : String} {schema : Schema} {optional : Bool} {value : Json}
    (h : (fieldOrNull property schema optional).defaultValue = some value) :
    value = .null ∧ ∃ members,
      (fieldOrNull property schema optional).schema = .union (.ofKind .null :: members) := by
  cases optional with
  | false => cases h
  | true =>
      have hdefault : (if schema.takesNull then some Json.null else none) = some value := h
      split at hdefault
      · cases hdefault
        exact ⟨rfl, [schema], rfl⟩
      · cases hdefault

/-- Under both preferences a property has a field or fails for the same reason.  A field that is
preferred to be required has a schema and no default; the other has the union of null and the schema
if the property is optional, with null as its default for a primitive type other than bytes and the
native string, and is the same field if it is not.  Every default is thus null, beside a union that
starts with null. -/
theorem synthesize_preference :
    (∃ cause, synthesize property type notes ⟨true, native⟩ registry = .error cause ∧
        synthesize property type notes ⟨false, native⟩ registry = .error cause) ∨
      ∃ schema field,
        synthesize property type notes ⟨true, native⟩ registry = .ok { name := property, schema } ∧
        synthesize property type notes ⟨false, native⟩ registry = .ok field ∧
        field = fieldOrNull property schema (isOptional property type notes) ∧
        ∀ value, field.defaultValue = some value →
          value = .null ∧ ∃ members, field.schema = .union (.ofKind .null :: members) := by
  rw [synthesize, synthesize, isOptional]
  split
  · exact .inl ⟨_, rfl, rfl⟩
  · cases findOverride? notes property with
    | some text =>
        dsimp only
        cases Schema.parse text with
        | error cause => exact .inl ⟨_, rfl, rfl⟩
        | ok schema =>
            refine .inr ⟨schema, _, rfl, rfl, rfl, ?_⟩
            rintro value ⟨⟩
    | none =>
        rcases shapeOfType_preference property type native registry with
          ⟨cause, hfirst, hsecond⟩ | ⟨schema, hfirst, hsecond⟩
        · rw [hfirst, hsecond]
          exact .inl ⟨cause, rfl, rfl⟩
        · rw [hfirst, hsecond]
          refine .inr ⟨schema, _, rfl, congrArg Except.ok (toField_orNull property schema _), rfl,
            ?_⟩
          intro value hvalue
          exact schema_of_fieldOrNull hvalue

/-- The fields of a nullable class under either preference. -/
example :
    synthesize "count" (.value (.boxed .long)) [] ⟨true, true⟩ {} =
        .ok { name := "count", schema := .ofKind .long } ∧
      synthesize "count" (.value (.boxed .long)) [] ⟨false, true⟩ {} =
        .ok { name := "count", schema := .nullable (.ofKind .long), defaultValue := some .null } :=
  ⟨rfl, rfl⟩

end Properties

/-! ## Arrays and their components -/

/-- Whether the class is an array or a map. -/
def ClassType.isContainer : ClassType → Bool
  | array _ => true
  | map _ => true
  | _ => false

/-- An array has a shape if its components have one and are no containers.  It holds strings that
are never null, and else what a field that may be null holds. -/
theorem arrayShape_eq (component : ClassType) (settings : Settings) :
    arrayShape? component settings =
      if component.isContainer then none
      else (classShape? component ⟨component.isStringLike, settings.nativeString⟩).map
        fun shape => .outer (.arrayOf shape.schema) settings.preferNonNull := by
  cases component with
  | basic kind | boxed kind =>
      change (ElementKind.ofBasic? kind).map _ = ((ElementKind.ofBasic? kind).map _).map _
      rw [Option.map_map]
      rfl
  | string | charSequence | array | map | other => rfl

section Arrays

variable {property : String} {notes : List Note}

/-- Without an override, a property has the field of the shape that its type gives. -/
theorem synthesize_eq_map (hproperty : Name.isDotted property = false)
    (hnotes : findOverride? notes property = none) (type : PropertyType) (settings : Settings)
    (registry : Registry) :
    synthesize property type notes settings registry =
      (shapeOfType property type settings registry).map fun shape => shape.toField property := by
  rw [synthesize, hproperty, if_neg (by decide), hnotes]
  cases shapeOfType property type settings registry <;> rfl

theorem synthesize_value (hproperty : Name.isDotted property = false)
    (hnotes : findOverride? notes property = none) (type : ClassType) (settings : Settings)
    (registry : Registry) :
    synthesize property (.value type) notes settings registry =
      match classShape? type settings with
      | some shape => .ok (shape.toField property)
      | none => .error (.unmappableType property type.text) := by
  rw [synthesize_eq_map hproperty hnotes, shapeOfType]
  cases classShape? type settings <;> rfl

theorem outer_toField (schema : Schema) (preferNonNull : Bool) :
    (FieldShape.outer schema preferNonNull).toField property =
      { name := property, schema := if preferNonNull then schema else .nullable schema } := by
  cases preferNonNull <;> rfl

/-- An array of anything but unboxed bytes has a field exactly if its components have one and are
neither arrays nor maps; otherwise it is refused as a type without a mapping.  The array holds what
its components have as a field: preferred to be required if they are strings, and not preferred to
be required otherwise. -/
theorem synthesize_array {component : ClassType} (hbyte : component ≠ .basic .byte)
    (hproperty : Name.isDotted property = false) (hnotes : findOverride? notes property = none)
    (settings : Settings) (registry : Registry) :
    ((∃ field, synthesize property (.value (.array component)) notes settings registry =
        .ok field) ↔
      (∃ field, synthesize property (.value component) notes settings registry = .ok field) ∧
        component.isContainer = false) ∧
    (∀ cause, synthesize property (.value (.array component)) notes settings registry =
        .error cause →
      cause = .unmappableType property (ClassType.array component).text) ∧
    ∀ field, synthesize property (.value (.array component)) notes settings registry = .ok field →
      ∃ element, synthesize property (.value component) notes
          ⟨component.isStringLike, settings.nativeString⟩ registry = .ok element ∧
        field = { name := property,
                  schema := if settings.preferNonNull then .arrayOf element.schema
                    else .nullable (.arrayOf element.schema) } := by
  have hsome := isSome_classShape component settings
    ⟨component.isStringLike, settings.nativeString⟩ rfl
  simp only [synthesize_value hproperty hnotes, classShape_array hbyte, arrayShape_eq]
  cases hcontainer : component.isContainer with
  | true =>
      rw [if_pos rfl]
      refine ⟨by simp, ?_, ?_⟩
      · rintro cause ⟨⟩
        rfl
      · rintro field ⟨⟩
  | false =>
      rw [if_neg Bool.false_ne_true]
      cases hshape : classShape? component ⟨component.isStringLike, settings.nativeString⟩ with
      | none =>
          rw [hshape, Option.isSome_none, Option.isSome_eq_false_iff, Option.isNone_iff_eq_none]
            at hsome
          rw [hsome]
          refine ⟨by simp, ?_, ?_⟩
          · rintro cause ⟨⟩
            rfl
          · rintro field ⟨⟩
      | some shape =>
          rw [hshape, Option.isSome_some, Option.isSome_iff_exists] at hsome
          obtain ⟨found, hfound⟩ := hsome
          rw [hfound]
          refine ⟨by simp, ?_, ?_⟩
          · rintro cause ⟨⟩
          · rintro field ⟨⟩
            exact ⟨_, rfl, outer_toField _ _⟩

/-- An array of boxed bytes holds integers or null, as a field of boxed bytes does. -/
theorem synthesize_array_boxedBytes :
    synthesize "a" (.value (.array (.boxed .byte))) [] ⟨true, false⟩ {} =
        .ok { name := "a", schema := .arrayOf (.nullable (.ofKind .int)) } ∧
      ∃ element, synthesize "a" (.value (.boxed .byte)) [] ⟨false, false⟩ {} = .ok element ∧
        element.schema = .nullable (.ofKind .int) := by
  have hfield : synthesize "a" (.value (.array (.boxed .byte))) [] ⟨true, false⟩ {} =
      .ok { name := "a", schema := .arrayOf (.nullable (.ofKind .int)) } := rfl
  obtain ⟨-, -, hfields⟩ :=
    @synthesize_array "a" [] (.boxed .byte) (by decide) (by decide) rfl ⟨true, false⟩ {}
  obtain ⟨element, helement, heq⟩ := hfields _ hfield
  have hschema : Schema.arrayOf (.nullable (.ofKind .int)) = .arrayOf element.schema :=
    congrArg FieldOf.schema heq
  exact ⟨hfield, element, helement, (Schema.array.inj hschema).1.symm⟩

end Arrays

end EventSchema
