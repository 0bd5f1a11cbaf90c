import EventSchema.Proofs.Runs

/-!
# The mark of native strings

The setting of native strings decides about a mark on strings and about the
default of a field that may be a string or null.  Without the two, declaring a
document gives the same under either value of the setting: each step of a run
takes registries that are alike to results that are alike, or fails for both
with the same error.
-/

namespace EventSchema

/-- The attributes but the one under a key. -/
def Props.without (props : Props) (key : String) : Props where
  entries := props.entries.filter fun entry => entry.1 ≠ key
  nodup := props.nodup.sublist (List.filter_sublist.map Prod.fst)

/-! ## Removing the mark -/

/-- The default that a field keeps beside a schema: none if that is a plain string or null. -/
def Schema.keptDefault (schema : Schema) (value : Option Json) : Option Json :=
  if schema = .nullable (.ofKind .string) then none else value

namespace Schema

mutual

/-- Removes the mark of native strings from all strings, and the defaults of fields that may then
be a plain string or null. -/
def unmark : Schema → Schema
  | primitive kind props =>
    if kind = .string then primitive kind (props.without nativeStringKey) else primitive kind props
  | array items props => array (unmark items) props
  | map values props => map (unmark values) props
  | union members => union (unmarkList members)
  | record head isError fields => record head isError (unmarkFields fields)
  | enum head symbols defaultSymbol => enum head symbols defaultSymbol
  | fixed head size => fixed head size
  | ref name => ref name
termination_by structural schema => schema

/-- `unmark` on each schema of a list. -/
def unmarkList : List Schema → List Schema
  | [] => []
  | schema :: rest => unmark schema :: unmarkList rest
termination_by structural schemas => schemas

/-- `unmark` on the schema of a field, with the default that is kept beside it. -/
def unmarkField : FieldOf Schema → FieldOf Schema
  | ⟨name, schema, defaultValue, doc, order, aliases, props⟩ =>
    ⟨name, unmark schema, keptDefault (unmark schema) defaultValue, doc, order, aliases, props⟩
termination_by structural field => field

/-- `unmarkField` on each field. -/
def unmarkFields : List (FieldOf Schema) → List (FieldOf Schema)
  | [] => []
  | field :: rest => unmarkField field :: unmarkFields rest
termination_by structural fields => fields

end

theorem unmarkFields_eq_map (fields : List Field) :
    unmarkFields fields = fields.map unmarkField := by
  induction fields with
  | nil => rfl
  | cons field rest ih => rw [unmarkFields, ih, List.map_cons]

@[simp] theorem name_unmarkField (field : Field) : (unmarkField field).name = field.name := by
  cases field
  rfl

theorem unmark_string (native : Bool) : (string native).unmark = ofKind .string := by
  cases native <;> rfl

end Schema

/-- `unmark` on the schema of a shape, with the default that is kept beside it. -/
def FieldShape.unmark (shape : FieldShape) : FieldShape where
  schema := shape.schema.unmark
  defaultValue := Schema.keptDefault shape.schema.unmark shape.defaultValue

/-- `unmark` on the schema that a representation carries. -/
def Representation.unmark : Representation → Representation
  | .avro schema => .avro schema.unmark
  | other => other

/-- `unmark` on the schema that a type carries. -/
def EventType.unmark (type : EventType) : EventType :=
  { type with representation := type.representation.unmark }

/-- `unmark` on all schemas of a registry. -/
def Registry.unmark (registry : Registry) : Registry where
  types := registry.types.map EventType.unmark

/-- `unmark` on the fields collected so far. -/
def Collector.unmark (collector : Collector) : Collector where
  fields := collector.fields.map Schema.unmarkField

/-- `unmark` on the fields added so far. -/
def RecordDraft.unmark (draft : RecordDraft) : RecordDraft :=
  { draft with collector := draft.collector.unmark }

theorem unmark_toField (shape : FieldShape) (name : String) :
    Schema.unmarkField (shape.toField name) = shape.unmark.toField name :=
  rfl

theorem unmark_required (schema : Schema) :
    (FieldShape.required schema).unmark = .required schema.unmark := by
  rw [FieldShape.unmark, FieldShape.required, Schema.keptDefault, ite_self]
  rfl

theorem unmark_finish (draft : RecordDraft) : draft.finish.unmark = draft.unmark.finish := by
  rw [RecordDraft.finish, Schema.unmark, Schema.unmarkFields_eq_map]
  rfl

theorem names_unmark_collector (collector : Collector) :
    collector.unmark.names = collector.names := by
  simp [Collector.unmark, Collector.names]

theorem unmark_push (collector : Collector) (field : Field) :
    (collector.push field).unmark = collector.unmark.push (Schema.unmarkField field) := by
  rw [Collector.unmark, Collector.push, List.map_append]
  rfl

theorem schema?_unmark (type : EventType) :
    type.unmark.schema? = type.schema?.map Schema.unmark := by
  obtain ⟨name, representation⟩ := type
  cases representation <;> rfl

theorem names_unmark (registry : Registry) : registry.unmark.names = registry.names := by
  rw [Registry.names, Registry.unmark, List.map_map]
  rfl

theorem resolve?_unmark (registry : Registry) (name : String) :
    registry.unmark.resolve? name = (registry.resolve? name).map EventType.unmark := by
  rw [Registry.resolve?, Registry.unmark, List.find?_map]
  rfl

theorem bind_schema?_unmark (registry : Registry) (name : String) :
    ((registry.resolve? name).bind EventType.schema?).map Schema.unmark =
      (registry.unmark.resolve? name).bind EventType.schema? := by
  rw [resolve?_unmark, Option.bind_map, Option.map_bind]
  congr 1
  funext type
  exact (schema?_unmark type).symm

theorem unmark_register (registry : Registry) (type : EventType) :
    (⟨registry.types ++ [type]⟩ : Registry).unmark =
      ⟨registry.unmark.types ++ [type.unmark]⟩ := by
  rw [Registry.unmark, List.map_append]
  rfl

/-! ## Shapes -/

section Shapes

variable {settings other : Settings}

theorem unmark_outer {first second : Schema} (h : first.unmark = second.unmark)
    (preferNonNull : Bool) :
    (FieldShape.outer first preferNonNull).unmark =
      (FieldShape.outer second preferNonNull).unmark := by
  cases preferNonNull with
  | true =>
      simp only [FieldShape.outer, if_true, unmark_required, h]
  | false =>
      have hnullable : (Schema.nullable first).unmark = (Schema.nullable second).unmark := by
        simp only [Schema.nullable, Schema.unmark, Schema.unmarkList, h]
      simp only [FieldShape.outer, Bool.false_eq_true, if_false, unmark_required, hnullable]

/-- Strings have the same shapes but for their marks and defaults. -/
theorem unmark_stringShape (native plain : Bool) (form : Form) :
    ((ScalarKind.string native).shape form).unmark =
      ((ScalarKind.string plain).shape form).unmark := by
  have hrequired : ∀ native : Bool,
      ((ScalarKind.string native).shape .required).unmark = .required (.ofKind .string) := by
    intro native
    rw [ScalarKind.shape, unmark_required, ScalarKind.schema, Schema.unmark_string]
  -- Only a plain string has a default, null, which is not kept beside a plain string or null.
  have hoptional : ∀ native : Bool, ((ScalarKind.string native).shape .optional).unmark =
      .required (.nullable (.ofKind .string)) := by
    intro native
    cases native <;> rfl
  cases form with
  | required => rw [hrequired, hrequired]
  | optional => rw [hoptional, hoptional]

theorem unmark_arrayShape (h : settings.preferNonNull = other.preferNonNull)
    (component : ClassType) :
    (arrayShape? component settings).map FieldShape.unmark =
      (arrayShape? component other).map FieldShape.unmark := by
  have hstrings : (Schema.arrayOf (.string settings.nativeString)).unmark =
      (Schema.arrayOf (.string other.nativeString)).unmark := by
    simp only [Schema.arrayOf, Schema.unmark, Schema.unmark_string]
  rw [arrayShape?, arrayShape?, h]
  split
  · rfl
  · exact congrArg some (unmark_outer hstrings _)
  · exact congrArg some (unmark_outer hstrings _)
  · rfl

/-- A class has the same shape under settings that differ in native strings, but for marks and
defaults. -/
theorem unmark_classShape (h : settings.preferNonNull = other.preferNonNull) (type : ClassType) :
    (classShape? type settings).map FieldShape.unmark =
      (classShape? type other).map FieldShape.unmark := by
  have hmaps : (Schema.mapOf (.string settings.nativeString)).unmark =
      (Schema.mapOf (.string other.nativeString)).unmark := by
    simp only [Schema.mapOf, Schema.unmark, Schema.unmark_string]
  rw [classShape?, classShape?, h]
  split
  · rfl
  · exact congrArg some (unmark_stringShape _ _ _)
  · exact congrArg some (unmark_stringShape _ _ _)
  · rfl
  · exact unmark_arrayShape h _
  · exact congrArg some (unmark_outer hmaps _)
  · rfl

end Shapes

/-! ## Two runs side by side -/

section Alike

variable {ε α β γ δ : Type} {first second : Except ε α}

/-- Results are alike under `p` if they are the same error or values that are alike. -/
theorem map_eq_map_iff {p : α → γ} : first.map p = second.map p ↔
    (∃ cause, first = .error cause ∧ second = .error cause) ∨
      ∃ a b, first = .ok a ∧ second = .ok b ∧ p a = p b := by
  cases first <;> cases second <;> simp [Except.map, eq_comm]

/-- Optional values are alike under `p` if both are absent or both are there and alike. -/
theorem optionMap_eq_map_iff {first second : Option α} {p : α → γ} :
    first.map p = second.map p ↔ (first = none ∧ second = none) ∨
      ∃ a b, first = some a ∧ second = some b ∧ p a = p b := by
  cases first <;> cases second <;> simp

/-- Results that are alike under `p`, continued alike under `q`, are alike under `q`. -/
theorem map_bind_congr {f g : α → Except ε β} {p : α → γ} {q : β → δ}
    (h : first.map p = second.map p)
    (hstep : ∀ a b, p a = p b → (f a).map q = (g b).map q) :
    (first >>= f).map q = (second >>= g).map q := by
  rcases map_eq_map_iff.mp h with ⟨cause, rfl, rfl⟩ | ⟨a, b, rfl, rfl, hsame⟩
  · rfl
  · exact hstep a b hsame

end Alike

section Runs

variable {settings other : Settings} {registry second : Registry}

/-- Alike registries give a name alike schemas. -/
theorem unmark_namedSchema (hregistry : registry.unmark = second.unmark) (name : String) :
    (namedSchema? registry name).map Schema.unmark =
      (namedSchema? second name).map Schema.unmark := by
  have hlookup : ∀ registry : Registry, (namedSchema? registry name).map Schema.unmark =
      namedSchema? registry.unmark name := by
    intro registry
    rw [namedSchema?, namedSchema?]
    dsimp only
    rw [resolve?_unmark]
    cases registry.resolve? (stripArrayMarker name).1 with
    | none => rfl
    | some type =>
        simp only [Option.bind_some, Option.map_some, schema?_unmark, Option.map_map]
        split <;> rfl
  rw [hlookup, hlookup, hregistry]

variable (hsettings : settings.preferNonNull = other.preferNonNull)
  (hregistry : registry.unmark = second.unmark)

include hsettings hregistry

theorem unmark_shapeOfType (property : String) (type : PropertyType) :
    (shapeOfType property type settings registry).map FieldShape.unmark =
      (shapeOfType property type other second).map FieldShape.unmark := by
  cases type with
  | value value =>
      rw [shapeOfType, shapeOfType]
      rcases optionMap_eq_map_iff.mp (unmark_classShape hsettings value) with
        ⟨hfirst, hsecond⟩ | ⟨shape, shape', hfirst, hsecond, hsame⟩
      · rw [hfirst, hsecond]
      · rw [hfirst, hsecond]
        exact congrArg Except.ok hsame
  | named name =>
      rw [shapeOfType, shapeOfType]
      rcases optionMap_eq_map_iff.mp (unmark_namedSchema hregistry name) with
        ⟨hfirst, hsecond⟩ | ⟨schema, schema', hfirst, hsecond, hsame⟩
      · rw [hfirst, hsecond]
      · rw [hfirst, hsecond]
        simp only [Except.map, unmark_required, hsame]
  | none | event | nested => rfl
  | eventArray types =>
      cases types with
      | nil => rfl
      | cons type rest => rfl

theorem unmark_synthesize (property : String) (type : PropertyType) (notes : List Note) :
    (synthesize property type notes settings registry).map Schema.unmarkField =
      (synthesize property type notes other second).map Schema.unmarkField := by
  rw [synthesize, synthesize]
  split
  · rfl
  · cases findOverride? notes property with
    | some text => rfl
    | none =>
        refine map_bind_congr (unmark_shapeOfType hsettings hregistry property type) ?_
        intro shape shape' hshape
        simp only [pure_eq_ok, Except.map, unmark_toField, hshape]

theorem unmark_collect {collector collector' : Collector}
    (hcollector : collector.unmark = collector'.unmark) (property : String) (type : PropertyType)
    (notes : List Note) :
    (collector.collect property type notes settings registry).map Collector.unmark =
      (collector'.collect property type notes other second).map Collector.unmark := by
  rw [Collector.collect_eq, Collector.collect_eq]
  refine map_bind_congr (unmark_synthesize hsettings hregistry property type notes) ?_
  intro field field' hfield
  simp only [pure_eq_ok, Except.map, unmark_push, hcollector, hfield]

theorem unmark_add {draft draft' : RecordDraft}
    (hdraft : draft.unmark = draft'.unmark) (property : String) (type : PropertyType)
    (notes : List Note) :
    (draft.add property type notes settings registry).map RecordDraft.unmark =
      (draft'.add property type notes other second).map RecordDraft.unmark := by
  obtain ⟨name, space, doc, collector⟩ := draft
  obtain ⟨name', space', doc', collector'⟩ := draft'
  obtain ⟨rfl, rfl, rfl, hcollector⟩ := RecordDraft.mk.inj hdraft
  have hnames : collector.names = collector'.names := by
    rw [← names_unmark_collector, hcollector, names_unmark_collector]
  rw [RecordDraft.add_eq, RecordDraft.add_eq, Collector.contains, Collector.contains, hnames]
  split
  · rfl
  · refine map_bind_congr (unmark_collect hsettings hregistry hcollector property type notes) ?_
    intro next next' hnext
    simp only [pure_eq_ok, Except.map, RecordDraft.unmark, hnext]

theorem unmark_foldlM_add {draft draft' : RecordDraft}
    (hdraft : draft.unmark = draft'.unmark) (properties : List PropertyDecl)
    (notes : List Note) :
    (properties.foldlM (fun (draft : RecordDraft) property => draft.add property.name
        (TypeSpec.toType? property.type) notes settings registry) draft).map RecordDraft.unmark =
      (properties.foldlM (fun (draft : RecordDraft) property => draft.add property.name
        (TypeSpec.toType? property.type) notes other second) draft').map RecordDraft.unmark := by
  induction properties generalizing draft draft' with
  | nil => exact congrArg Except.ok hdraft
  | cons property rest ih =>
      rw [List.foldlM_cons, List.foldlM_cons]
      refine map_bind_congr (unmark_add hsettings hregistry hdraft property.name _ notes) ?_
      intro next next' hnext
      exact ih hnext

/-- The record of a type is the same under either value of the setting, but for marks and
defaults, or fails for the same reason. -/
theorem unmark_recordOf (space : Option String) (decl : TypeDecl) :
    (registry.recordOf space settings decl).map Schema.unmark =
      (second.recordOf space other decl).map Schema.unmark := by
  refine map_bind_congr (unmark_foldlM_add hsettings hregistry rfl decl.properties decl.notes) ?_
  intro draft draft' hdraft
  simp only [pure_eq_ok, Except.map, unmark_finish, hdraft]

theorem unmark_declareType (space : Option String) (decl : TypeDecl) :
    (registry.declareType space settings decl).map (Prod.map EventType.unmark Registry.unmark) =
      (second.declareType space other decl).map (Prod.map EventType.unmark Registry.unmark) := by
  have hnames : registry.names = second.names := by
    rw [← names_unmark, hregistry, names_unmark]
  rw [Registry.declareType_eq, Registry.declareType_eq]
  refine map_bind_congr (unmark_recordOf hsettings hregistry space decl) ?_
  intro schema schema' hschema
  have htype : EventType.unmark ⟨decl.name, .avro schema⟩ =
      EventType.unmark ⟨decl.name, .avro schema'⟩ := by
    rw [EventType.unmark, EventType.unmark, Representation.unmark, Representation.unmark, hschema]
  dsimp only
  rw [Registry.register_eq, Registry.register_eq, hnames]
  split
  · rfl
  · simp only [ok_bind, pure_eq_ok, Except.map, Prod.map_apply, unmark_register, htype, hregistry]

/-- Declaring types from alike registries gives alike results and leaves alike registries. -/
theorem unmark_declareTypes (space : Option String) (decls : List TypeDecl) :
    (registry.declareTypes space settings decls).1.map (List.map EventType.unmark) =
        (second.declareTypes space other decls).1.map (List.map EventType.unmark) ∧
      (registry.declareTypes space settings decls).2.unmark =
        (second.declareTypes space other decls).2.unmark := by
  induction decls generalizing registry second with
  | nil => exact ⟨rfl, hregistry⟩
  | cons decl rest ih =>
      have hdecl := unmark_declareType hsettings hregistry space decl
      rcases map_eq_map_iff.mp hdecl with
        ⟨cause, hfirst, hsecond⟩ | ⟨⟨type, next⟩, ⟨type', next'⟩, hfirst, hsecond, hsame⟩
      · rw [Registry.declareTypes_cons, Registry.declareTypes_cons, hfirst, hsecond]
        exact ⟨rfl, hregistry⟩
      · obtain ⟨htype, hnext⟩ := Prod.mk.inj hsame
        obtain ⟨houtcome, hfinal⟩ := ih hnext
        rw [Registry.declareTypes_cons, Registry.declareTypes_cons, hfirst, hsecond]
        refine ⟨?_, hfinal⟩
        dsimp only
        rcases map_eq_map_iff.mp houtcome with
          ⟨cause, hrest, hrest'⟩ | ⟨types, types', hrest, hrest', htypes⟩
        · rw [hrest, hrest']
          rfl
        · rw [hrest, hrest']
          simp only [Except.map, List.map_cons, htype, htypes]

end Runs

/-! ## Documents -/

section Documents

variable {document : Declarations}

/-- Whether strings are native decides about their marks and defaults only.  Under either value of
the setting, a document without settings is accepted, or it fails at the same type for the same
reason; the same names are registered in the same order, and each with the same schema once the
marks and defaults are removed. -/
theorem nativeString_declareAll (hsettings : document.settings = none) (registry : Registry)
    (preferNonNull : Bool) :
    ∃ outcome plainOutcome final plainFinal,
      registry.declareAll ⟨preferNonNull, true⟩ document = (outcome, final) ∧
      registry.declareAll ⟨preferNonNull, false⟩ document = (plainOutcome, plainFinal) ∧
      ((∃ types plainTypes, outcome = .ok types ∧ plainOutcome = .ok plainTypes ∧
          types.map EventType.unmark = plainTypes.map EventType.unmark) ∨
        ∃ done decl cause types plainTypes,
          outcome = .error cause ∧ plainOutcome = .error cause ∧
            Stops document.space ⟨preferNonNull, true⟩ registry document.types done decl cause
                types final ∧
              Stops document.space ⟨preferNonNull, false⟩ registry document.types done decl cause
                plainTypes plainFinal) ∧
      final.names = plainFinal.names ∧
      ∀ name, ((final.resolve? name).bind EventType.schema?).map Schema.unmark =
        ((plainFinal.resolve? name).bind EventType.schema?).map Schema.unmark := by
  rw [Registry.declareAll, Registry.declareAll, hsettings, Option.getD_none, Option.getD_none]
  obtain ⟨houtcome, hfinal⟩ := @unmark_declareTypes ⟨preferNonNull, true⟩ ⟨preferNonNull, false⟩
    registry registry rfl rfl document.space document.types
  have hnames := congrArg Registry.names hfinal
  rw [names_unmark, names_unmark] at hnames
  refine ⟨_, _, _, _, rfl, rfl, ?_, hnames, ?_⟩
  · rcases map_eq_map_iff.mp houtcome with
      ⟨cause, hfirst, hsecond⟩ | ⟨types, types', hfirst, hsecond, htypes⟩
    · obtain ⟨done, decl, types, hstops⟩ := stops_of_error hfirst
      obtain ⟨done', decl', types', hstops'⟩ := stops_of_error hsecond
      -- Both runs register the same names, so they have declared equally many types.
      have hlength : done.length = done'.length := by
        rw [hstops.declares.names_eq, hstops'.declares.names_eq] at hnames
        simpa using congrArg List.length hnames
      obtain ⟨rfl, rfl⟩ := hstops.eq_of_length hstops' hlength
      exact .inr ⟨done, decl, cause, types, types', hfirst, hsecond, hstops, hstops'⟩
    · exact .inl ⟨types, types', hfirst, hsecond, htypes⟩
  · intro name
    rw [bind_schema?_unmark, bind_schema?_unmark, hfinal]

/-- A document with strings as a value, array items and an override, and an array of the record that
holds them. -/
def stringsDocument : Declarations :=
  { types := [
      { name := "A"
        properties := [{ name := "value", type := some (.string "String") },
          { name := "items", type := some (.string "String[]") },
          { name := "given" }]
        notes := [.schemaOverride "given" "\"string\""] },
      { name := "B", properties := [{ name := "all", type := some (.string "A[]") }] }] }

/-- The record of the first type of `stringsDocument`. -/
def stringsRecord (native : Bool) : Schema :=
  .record { name := "A" } false
    [{ name := "value", schema := .nullable (.string native)
       defaultValue := if native then none else some .null },
      { name := "items", schema := .nullable (.arrayOf (.string native)) },
      { name := "given", schema := .ofKind .string }]

/-- The record of the second type of `stringsDocument`. -/
def stringsArrayRecord (native : Bool) : Schema :=
  .record { name := "B" } false [{ name := "all", schema := .arrayOf (stringsRecord native) }]

theorem declareAll_stringsDocument (native : Bool) :
    (Registry.declareAll {} ⟨false, native⟩ stringsDocument).1 =
      .ok [⟨"A", .avro (stringsRecord native)⟩, ⟨"B", .avro (stringsArrayRecord native)⟩] := by
  cases native with
  | false => decide +kernel
  | true => decide +kernel

theorem nativeString_declareAll_stringsDocument :
    stringsArrayRecord true ≠ stringsArrayRecord false ∧
      ∃ final plainFinal,
        Registry.declareAll {} ⟨false, true⟩ stringsDocument =
          (.ok [⟨"A", .avro (stringsRecord true)⟩, ⟨"B", .avro (stringsArrayRecord true)⟩],
            final) ∧
        Registry.declareAll {} ⟨false, false⟩ stringsDocument =
          (.ok [⟨"A", .avro (stringsRecord false)⟩, ⟨"B", .avro (stringsArrayRecord false)⟩],
            plainFinal) ∧
        final.names = plainFinal.names ∧
        ∀ name, ((final.resolve? name).bind EventType.schema?).map Schema.unmark =
          ((plainFinal.resolve? name).bind EventType.schema?).map Schema.unmark := by
  obtain ⟨outcome, plainOutcome, final, plainFinal, hfirst, hsecond, -, hnames, hschemas⟩ :=
    @nativeString_declareAll stringsDocument rfl {} false
  have hnative := declareAll_stringsDocument true
  rw [hfirst] at hnative
  have hplain := declareAll_stringsDocument false
  rw [hsecond] at hplain
  dsimp only at hnative hplain
  rw [hnative] at hfirst
  rw [hplain] at hsecond
  exact ⟨by decide, final, plainFinal, hfirst, hsecond, hnames, hschemas⟩

end Documents

end EventSchema
