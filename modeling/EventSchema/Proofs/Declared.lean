import EventSchema.Declaration
import EventSchema.Proofs.Soundness

/-!
# Schemas of declared types

The schema of a declared type is a record whose fields are overrides, schemas of
types registered before, or shapes of classes.  A run that declares types is a
derivation with one step for each type, and what holds of each record, given
that it holds of the schemas before, holds of all registered schemas.
-/

namespace EventSchema

open Schema (AllHeads AllNodes)

section Pairs

variable {α β : Type} {R : α → β → Prop} {first : List α} {second : List β}

theorem exists_of_forall₂_left (h : List.Forall₂ R first second) {a : α} (hmem : a ∈ first) :
    ∃ b ∈ second, R a b := by
  induction h with
  | nil => cases hmem
  | cons hpair _ ih =>
      rcases List.mem_cons.mp hmem with rfl | hmem
      · exact ⟨_, List.mem_cons_self, hpair⟩
      · obtain ⟨b, hb, hrel⟩ := ih hmem
        exact ⟨b, List.mem_cons_of_mem _ hb, hrel⟩

theorem exists_of_forall₂_right (h : List.Forall₂ R first second) {b : β} (hmem : b ∈ second) :
    ∃ a ∈ first, R a b :=
  exists_of_forall₂_left h.flip hmem

end Pairs

/-! ## Shapes -/

/-- A node that is neither a named type nor a reference, as reading would leave it. -/
structure Schema.Plain (node : Schema) : Prop where
  wellBuilt : node.WellBuilt
  unnamed : node.fullName? = none

theorem Schema.Plain.head?_eq_none {node : Schema} (h : node.Plain) : node.head? = none := by
  cases hhead : node.head? with
  | none => rfl
  | some head =>
      have hnamed := Schema.fullName?_of_head? hhead
      rw [h.unnamed] at hnamed
      cases hnamed

/-- A schema of plain nodes only, which a union can hold beside null. -/
structure Schema.Joinable (schema : Schema) : Prop where
  plain : AllNodes Schema.Plain schema
  key : ∃ key, Schema.unionKey? schema = some key ∧ key ≠ PrimitiveKind.null.name

section Shapes

variable {schema : Schema}

theorem plain_ofKind (kind : PrimitiveKind) : AllNodes Schema.Plain (.ofKind kind) := by
  rw [Schema.ofKind, Schema.allNodes_primitive]
  exact ⟨List.forall_mem_nil _, rfl⟩

theorem plain_arrayOf (items : Schema) : (Schema.arrayOf items).Plain :=
  ⟨List.forall_mem_nil _, rfl⟩

theorem joinable_ofKind {kind : PrimitiveKind} (hkind : kind ≠ .null) :
    (Schema.ofKind kind).Joinable := by
  refine ⟨plain_ofKind kind, kind.name, rfl, ?_⟩
  cases kind with
  | null => exact absurd rfl hkind
  | boolean | int | long | float | double | bytes | string => decide

theorem joinable_string (native : Bool) : (Schema.string native).Joinable := by
  refine ⟨?_, PrimitiveKind.string.name, rfl, by decide⟩
  rw [Schema.string, Schema.allNodes_primitive]
  refine ⟨?_, rfl⟩
  cases native with
  | false => exact List.forall_mem_nil _
  | true =>
      change ∀ key ∈ [Schema.nativeStringKey], key ∉ Schema.primitiveAttributes
      decide

theorem joinable_arrayOf (h : AllNodes Schema.Plain schema) :
    (Schema.arrayOf schema).Joinable := by
  refine ⟨?_, "array", rfl, by decide⟩
  exact Schema.allNodes_array.mpr ⟨plain_arrayOf schema, h⟩

theorem joinable_mapOf (h : AllNodes Schema.Plain schema) : (Schema.mapOf schema).Joinable := by
  refine ⟨?_, "map", rfl, by decide⟩
  exact Schema.allNodes_map.mpr ⟨⟨List.forall_mem_nil _, rfl⟩, h⟩

theorem Schema.Joinable.nullable (h : schema.Joinable) :
    AllNodes Schema.Plain (.nullable schema) := by
  obtain ⟨key, hkey, hother⟩ := h.key
  have hbuilt : (Schema.nullable schema).WellBuilt := by
    constructor
    · intro member hmem
      rcases List.mem_cons.mp hmem with rfl | hmem
      · rfl
      · rw [List.mem_singleton.mp hmem, hkey]
        rfl
    · have hnull : Schema.unionKey? (.ofKind .null) = some PrimitiveKind.null.name := rfl
      simp [hnull, hkey, Ne.symm hother]
  rw [Schema.nullable, Schema.allNodes_union]
  refine ⟨⟨hbuilt, rfl⟩, ?_⟩
  intro member hmem
  rcases List.mem_cons.mp hmem with rfl | hmem
  · exact plain_ofKind .null
  · rw [List.mem_singleton.mp hmem]
    exact h.plain

theorem Schema.Joinable.outer (h : schema.Joinable) (preferNonNull : Bool) :
    AllNodes Schema.Plain (FieldShape.outer schema preferNonNull).schema := by
  rw [FieldShape.outer]
  split
  · exact h.plain
  · exact h.nullable

theorem joinable_element (kind : ElementKind) : kind.schema.Joinable := by
  cases kind <;> exact joinable_ofKind (by decide)

theorem joinable_scalar (kind : ScalarKind) : kind.schema.Joinable := by
  cases kind with
  | element kind => exact joinable_element kind
  | string native => exact joinable_string native
  | bytes => exact joinable_ofKind (by decide)

theorem plain_scalar (kind : ScalarKind) (form : Form) :
    AllNodes Schema.Plain (kind.shape form).schema := by
  cases form with
  | required => exact (joinable_scalar kind).plain
  | optional => exact (joinable_scalar kind).nullable

theorem plain_elementArray (kind : ElementKind) (nullableElements preferNonNull : Bool) :
    AllNodes Schema.Plain (kind.arrayShape nullableElements preferNonNull).schema := by
  rw [ElementKind.arrayShape]
  apply Schema.Joinable.outer
  cases nullableElements with
  | false => exact joinable_arrayOf (joinable_element kind).plain
  | true => exact joinable_arrayOf (joinable_element kind).nullable

theorem plain_arrayShape {component : ClassType} {settings : Settings} {shape : FieldShape}
    (h : arrayShape? component settings = some shape) : AllNodes Schema.Plain shape.schema := by
  have hstrings : (Schema.arrayOf (.string settings.nativeString)).Joinable :=
    joinable_arrayOf (joinable_string _).plain
  rw [arrayShape?] at h
  split at h
  · obtain ⟨kind, -, rfl⟩ := Option.map_eq_some_iff.mp h
    exact plain_elementArray kind _ _
  · cases h
    exact hstrings.outer _
  · cases h
    exact hstrings.outer _
  · cases h

/-- The shape of a class is made of plain nodes. -/
theorem plain_classShape {type : ClassType} {settings : Settings} {shape : FieldShape}
    (h : classShape? type settings = some shape) : AllNodes Schema.Plain shape.schema := by
  rw [classShape?] at h
  split at h
  · obtain ⟨kind, -, rfl⟩ := Option.map_eq_some_iff.mp h
    exact plain_scalar _ _
  · cases h
    exact plain_scalar _ _
  · cases h
    exact plain_scalar _ _
  · cases h
    exact plain_scalar _ _
  · exact plain_arrayShape h
  · cases h
    exact (joinable_mapOf (joinable_string _).plain).outer _
  · cases h

end Shapes

/-! ## Fields -/

/-- Every schema of a registry is of this kind. -/
def Registry.AllSchemas (p : Schema → Prop) (registry : Registry) : Prop :=
  ∀ type ∈ registry.types, ∀ schema, type.schema? = some schema → p schema

/-- The type of a property is not an event type given directly. -/
def PropertyType.IsWritten : PropertyType → Prop
  | .event _ => False
  | .eventArray _ => False
  | _ => True

theorem isWritten_toType? (spec : Option TypeSpec) : (TypeSpec.toType? spec).IsWritten := by
  cases spec with
  | none => trivial
  | some spec =>
      cases spec with
      | nested properties => trivial
      | string text =>
          change (PropertyType.ofName text).IsWritten
          rw [PropertyType.ofName]
          split
          · trivial
          · split <;> trivial

section Fields

variable {property : String} {type : PropertyType} {notes : List Note} {settings : Settings}
  {registry : Registry}

/-- A property has a field exactly if its name has no point and its override, or without one its
type, gives it a shape. -/
theorem synthesize_eq_ok_iff {field : Field} :
    synthesize property type notes settings registry = .ok field ↔
      Name.isDotted property = false ∧ ∃ shape : FieldShape, field = shape.toField property ∧
        ((∃ text schema, findOverride? notes property = some text ∧
            Schema.parse text = .ok schema ∧ shape = .required schema) ∨
          findOverride? notes property = none ∧
            shapeOfType property type settings registry = .ok shape) := by
  constructor
  · intro h
    rw [synthesize] at h
    split at h
    next => cases h
    next hdotted =>
      refine ⟨by simpa using hdotted, ?_⟩
      split at h
      next text htext =>
        split at h
        next schema hparse =>
          cases h
          exact ⟨.required schema, rfl, .inl ⟨text, schema, htext, hparse, rfl⟩⟩
        next => cases h
      next hnone =>
        obtain ⟨shape, hshape, h⟩ := bind_eq_ok_iff.mp h
        cases h
        exact ⟨shape, rfl, .inr ⟨hnone, hshape⟩⟩
  · rintro ⟨hdotted, shape, rfl, hshape⟩
    rw [synthesize, hdotted, if_neg (by decide)]
    rcases hshape with ⟨text, schema, htext, hparse, rfl⟩ | ⟨hnone, hshape⟩
    · rw [htext]
      dsimp only
      rw [hparse]
      rfl
    · rw [hnone]
      dsimp only
      rw [hshape]
      rfl

variable {p : Schema → Prop} (hplain : ∀ node, Schema.Plain node → p node)

include hplain

theorem allNodes_namedSchema (hregistry : registry.AllSchemas (AllNodes p)) {name : String}
    {schema : Schema} (h : namedSchema? registry name = some schema) : AllNodes p schema := by
  obtain ⟨type, htype, h⟩ := Option.bind_eq_some_iff.mp h
  obtain ⟨found, hfound, rfl⟩ := Option.map_eq_some_iff.mp h
  have hall : AllNodes p found := hregistry type (List.mem_of_find?_eq_some htype) found hfound
  split
  · exact Schema.allNodes_array.mpr ⟨hplain _ (plain_arrayOf found), hall⟩
  · exact hall

theorem allNodes_shapeOfType (hregistry : registry.AllSchemas (AllNodes p))
    (htype : type.IsWritten) {shape : FieldShape}
    (h : shapeOfType property type settings registry = .ok shape) :
    AllNodes p shape.schema := by
  cases type with
  | none =>
      cases h
      exact (plain_ofKind .null).imp hplain
  | named name =>
      rw [shapeOfType] at h
      split at h
      next schema hschema =>
        cases h
        exact allNodes_namedSchema hplain hregistry hschema
      next => cases h
  | value value =>
      rw [shapeOfType] at h
      split at h
      next found hfound =>
        cases h
        exact (plain_classShape hfound).imp hplain
      next => cases h
  | event event => cases htype
  | eventArray types => cases htype
  | nested properties => cases h

end Fields

/-! ## Records -/

/-- A property of a declared type takes its schema from an override. -/
def TypeDecl.Overrides (decl : TypeDecl) (schema : Schema) : Prop :=
  ∃ property ∈ decl.properties, ∃ text,
    findOverride? decl.notes property.name = some text ∧ Schema.parse text = .ok schema

/-- A property of a document takes its schema from an override. -/
def Declarations.Overrides (document : Declarations) (schema : Schema) : Prop :=
  ∃ decl ∈ document.types, decl.Overrides schema

section Records

variable {registry : Registry} {space : Option String} {settings : Settings} {decl : TypeDecl}
  {schema : Schema}

/-- The field of a property of a declared type. -/
def Registry.FieldOfProperty (registry : Registry) (settings : Settings) (notes : List Note)
    (property : PropertyDecl) (field : Field) : Prop :=
  synthesize property.name (TypeSpec.toType? property.type) notes settings registry = .ok field

theorem Registry.FieldOfProperty.name_eq {notes : List Note} {property : PropertyDecl}
    {field : Field} (h : registry.FieldOfProperty settings notes property field) :
    field.name = property.name := by
  obtain ⟨-, shape, rfl, -⟩ := synthesize_eq_ok_iff.mp h
  rfl

theorem Registry.FieldOfProperty.names_eq {notes : List Note} {properties : List PropertyDecl}
    {fields : List Field}
    (h : List.Forall₂ (registry.FieldOfProperty settings notes) properties fields) :
    fields.map FieldOf.name = properties.map PropertyDecl.name := by
  induction h with
  | nil => rfl
  | cons hfield _ ih => rw [List.map_cons, List.map_cons, hfield.name_eq, ih]

theorem RecordDraft.add_eq_ok_iff {draft next : RecordDraft} {property : String}
    {type : PropertyType} {notes : List Note} :
    draft.add property type notes settings registry = .ok next ↔
      property ∉ draft.collector.names ∧ ∃ field,
        synthesize property type notes settings registry = .ok field ∧
          next = { draft with collector := draft.collector.push field } := by
  simp only [RecordDraft.add_eq, Collector.contains, decide_eq_true_eq]
  split_ifs with hmem
  · simp [hmem]
  · simp only [Collector.collect_eq, bind_eq_ok_iff, pure_eq_ok, Except.ok.injEq, hmem,
      not_false_eq_true, true_and]
    constructor
    · rintro ⟨collector, ⟨field, hfield, rfl⟩, rfl⟩
      exact ⟨field, hfield, rfl⟩
    · rintro ⟨field, hfield, rfl⟩
      exact ⟨_, ⟨field, hfield, rfl⟩, rfl⟩

/-- Adding properties one after the other adds their fields in order; no two properties and no
earlier field may share a name. -/
theorem foldlM_add_eq_ok_iff {notes : List Note} {properties : List PropertyDecl}
    {draft result : RecordDraft} :
    properties.foldlM (fun draft property => draft.add property.name
        (TypeSpec.toType? property.type) notes settings registry) draft = .ok result ↔
      ∃ fields, List.Forall₂ (registry.FieldOfProperty settings notes) properties fields ∧
        (∀ property ∈ properties, property.name ∉ draft.collector.names) ∧
          (properties.map PropertyDecl.name).Nodup ∧
            result = { draft with collector := ⟨draft.collector.fields ++ fields⟩ } := by
  induction properties generalizing draft with
  | nil =>
      simp only [List.foldlM_nil, pure_eq_ok, Except.ok.injEq, List.forall₂_nil_left_iff,
        exists_eq_left, List.append_nil]
      constructor
      · rintro rfl
        exact ⟨List.forall_mem_nil _, List.nodup_nil, rfl⟩
      · rintro ⟨-, -, rfl⟩
        rfl
  | cons property rest ih =>
      have hnames : ∀ field : Field, (draft.collector.push field).names =
          draft.collector.names ++ [field.name] := by
        intro field
        simp [Collector.names, Collector.push]
      rw [List.foldlM_cons, bind_eq_ok_iff]
      constructor
      · rintro ⟨next, hnext, h⟩
        obtain ⟨hnew, field, hfield, rfl⟩ := RecordDraft.add_eq_ok_iff.mp hnext
        obtain ⟨fields, hfields, hrest, hnodup, rfl⟩ := ih.mp h
        have hof : registry.FieldOfProperty settings notes property field := hfield
        have hname : field.name = property.name := hof.name_eq
        rw [hnames, hname] at hrest
        refine ⟨field :: fields, .cons hfield hfields, ?_, ?_, ?_⟩
        · rw [List.forall_mem_cons]
          refine ⟨hnew, ?_⟩
          intro other hother hmem
          exact hrest other hother (List.mem_append_left _ hmem)
        · rw [List.map_cons, List.nodup_cons]
          refine ⟨?_, hnodup⟩
          intro hmem
          obtain ⟨other, hother, hsame⟩ := List.mem_map.mp hmem
          apply hrest other hother
          rw [hsame]
          exact List.mem_append_right _ (List.mem_singleton_self property.name)
        · simp [Collector.push]
      · rintro ⟨_, hfields, hnew, hnodup, rfl⟩
        cases hfields with
        | @cons _ field _ fields hfield hfields =>
            obtain ⟨hproperty, hrest⟩ := List.forall_mem_cons.mp hnew
            rw [List.map_cons, List.nodup_cons] at hnodup
            have hname : field.name = property.name := hfield.name_eq
            refine ⟨_, RecordDraft.add_eq_ok_iff.mpr ⟨hproperty, field, hfield, rfl⟩, ?_⟩
            refine ih.mpr ⟨fields, hfields, ?_, hnodup.2, by simp [Collector.push]⟩
            intro other hother hmem
            rw [hnames, hname] at hmem
            rcases List.mem_append.mp hmem with hearlier | hsame
            · exact hrest other hother hearlier
            · apply hnodup.1
              rw [← List.mem_singleton.mp hsame]
              exact List.mem_map_of_mem hother

/-- The record of a declared type has one field for each property, in order. -/
theorem recordOf_eq_ok_iff :
    registry.recordOf space settings decl = .ok schema ↔
      ∃ fields, List.Forall₂ (registry.FieldOfProperty settings decl.notes) decl.properties fields ∧
        (decl.properties.map PropertyDecl.name).Nodup ∧
          schema = .record { name := decl.name, space, doc := decl.doc } false fields := by
  simp only [Registry.recordOf, bind_eq_ok_iff, pure_eq_ok, Except.ok.injEq, foldlM_add_eq_ok_iff]
  constructor
  · rintro ⟨draft, ⟨fields, hfields, -, hnodup, rfl⟩, rfl⟩
    exact ⟨fields, hfields, hnodup, rfl⟩
  · rintro ⟨fields, hfields, hnodup, rfl⟩
    exact ⟨_, ⟨fields, hfields, fun _ _ => List.not_mem_nil, hnodup, rfl⟩, rfl⟩

/-- Every node of the record of a declared type is the record itself, plain, or a node of an
override or of a schema registered before. -/
theorem allNodes_recordOf {p : Schema → Prop} (hplain : ∀ node, Schema.Plain node → p node)
    (hoverride : ∀ found, decl.Overrides found → AllNodes p found)
    (hregistry : registry.AllSchemas (AllNodes p))
    (h : registry.recordOf space settings decl = .ok schema) (hroot : p schema) :
    AllNodes p schema := by
  obtain ⟨fields, hfields, -, rfl⟩ := recordOf_eq_ok_iff.mp h
  refine Schema.allNodes_record.mpr ⟨hroot, ?_⟩
  intro field hmem
  obtain ⟨property, hproperty, hfield⟩ := exists_of_forall₂_right hfields hmem
  obtain ⟨-, shape, rfl, hshape⟩ := synthesize_eq_ok_iff.mp hfield
  rcases hshape with ⟨text, found, htext, hparse, rfl⟩ | ⟨-, hshape⟩
  · exact hoverride found ⟨property, hproperty, text, htext, hparse⟩
  · exact allNodes_shapeOfType hplain hregistry (isWritten_toType? _) hshape

end Records

/-! ## Runs -/

/-- `Declares space settings registry decls types final`: declaring types one after the other, each
in the registry that the ones before it left, gives these event types and leaves this registry. -/
inductive Declares (space : Option String) (settings : Settings) :
    Registry → List TypeDecl → List EventType → Registry → Prop
  | nil {registry} : Declares space settings registry [] [] registry
  | cons {registry decl rest schema types final}
      (hrecord : registry.recordOf space settings decl = .ok schema)
      (hnew : decl.name ∉ registry.names)
      (hrest : Declares space settings ⟨registry.types ++ [⟨decl.name, .avro schema⟩]⟩ rest types
        final) :
      Declares space settings registry (decl :: rest) (⟨decl.name, .avro schema⟩ :: types) final

section Runs

variable {space : Option String} {settings : Settings} {registry final : Registry}
  {decls : List TypeDecl} {types : List EventType}

theorem declareType_eq_ok_iff {decl : TypeDecl} {type : EventType} {next : Registry} :
    registry.declareType space settings decl = .ok (type, next) ↔
      ∃ schema, registry.recordOf space settings decl = .ok schema ∧
        decl.name ∉ registry.names ∧ type = ⟨decl.name, .avro schema⟩ ∧
          next = ⟨registry.types ++ [⟨decl.name, .avro schema⟩]⟩ := by
  simp only [Registry.declareType_eq, Registry.register_eq, bind_eq_ok_iff, pure_eq_ok]
  constructor
  · rintro ⟨schema, hschema, registered, hregister, h⟩
    split_ifs at hregister with hmem
    cases hregister
    cases h
    exact ⟨schema, hschema, hmem, rfl, rfl⟩
  · rintro ⟨schema, hschema, hnew, rfl, rfl⟩
    exact ⟨schema, hschema, _, if_neg hnew, rfl⟩

/-- A run declares the types before the first failure, or all of them. -/
theorem exists_declares (registry : Registry) (decls : List TypeDecl) :
    ∃ done types, done ⊆ decls ∧
      Declares space settings registry done types
        (registry.declareTypes space settings decls).2 := by
  induction decls generalizing registry with
  | nil => exact ⟨[], [], List.Subset.refl _, .nil⟩
  | cons decl rest ih =>
      rw [Registry.declareTypes_cons]
      split
      next => exact ⟨[], [], List.nil_subset _, .nil⟩
      next type next hdeclare =>
        obtain ⟨schema, hrecord, hnew, rfl, rfl⟩ := declareType_eq_ok_iff.mp hdeclare
        obtain ⟨done, types, hdone, hdeclares⟩ :=
          ih ⟨registry.types ++ [⟨decl.name, .avro schema⟩]⟩
        exact ⟨decl :: done, _, List.cons_subset_cons decl hdone,
          .cons hrecord hnew hdeclares⟩

/-- A run without a failure declares all types. -/
theorem declares_of_ok (h : (registry.declareTypes space settings decls).1 = .ok types) :
    Declares space settings registry decls types
      (registry.declareTypes space settings decls).2 := by
  induction decls generalizing registry types with
  | nil =>
      cases h
      exact .nil
  | cons decl rest ih =>
      rw [Registry.declareTypes_cons] at h ⊢
      split at h
      next => cases h
      next type next hdeclare =>
        obtain ⟨schema, hrecord, hnew, rfl, rfl⟩ := declareType_eq_ok_iff.mp hdeclare
        dsimp only at h
        cases hrest : (Registry.declareTypes ⟨registry.types ++ [⟨decl.name, .avro schema⟩]⟩ space
            settings rest).1 with
        | error cause =>
            rw [hrest] at h
            cases h
        | ok others =>
            rw [hrest] at h
            cases h
            exact .cons hrecord hnew (ih hrest)

theorem declareTypes_of_declares (h : Declares space settings registry decls types final) :
    registry.declareTypes space settings decls = (.ok types, final) := by
  induction h with
  | nil => rfl
  | cons hrecord hnew _ ih =>
      rw [Registry.declareTypes_cons, declareType_eq_ok_iff.mpr ⟨_, hrecord, hnew, rfl, rfl⟩]
      dsimp only
      rw [ih]
      rfl

theorem names_register (registry : Registry) (name : String) (representation : Representation) :
    (⟨registry.types ++ [⟨name, representation⟩]⟩ : Registry).names = registry.names ++ [name] := by
  rw [Registry.names, List.map_append, List.map_singleton, Registry.names]

/-- Registering a type under a new name keeps the names distinct. -/
theorem nodup_register {name : String} {representation : Representation}
    (hregistry : registry.names.Nodup) (hnew : name ∉ registry.names) :
    (⟨registry.types ++ [⟨name, representation⟩]⟩ : Registry).names.Nodup := by
  rw [names_register, List.nodup_append]
  refine ⟨hregistry, List.nodup_singleton _, ?_⟩
  intro earlier hearlier other hother hsame
  rw [hsame, List.mem_singleton.mp hother] at hearlier
  exact hnew hearlier

theorem Declares.types_eq (h : Declares space settings registry decls types final) :
    final.types = registry.types ++ types := by
  induction h with
  | nil => rw [List.append_nil]
  | cons _ _ _ ih => rw [ih, List.append_assoc, List.singleton_append]

theorem Declares.nodup (h : Declares space settings registry decls types final)
    (hregistry : registry.names.Nodup) : final.names.Nodup := by
  induction h with
  | nil => exact hregistry
  | cons _ hnew _ ih => exact ih (nodup_register hregistry hnew)

/-- Each declared type is registered with the record that it has in the registry of the types
before it. -/
theorem Declares.records (h : Declares space settings registry decls types final) :
    List.Forall₂ (fun decl type => ∃ earlier schema,
      Registry.recordOf earlier space settings decl = .ok schema ∧
        type = ⟨decl.name, .avro schema⟩) decls types := by
  induction h with
  | nil => exact .nil
  | cons hrecord _ _ ih => exact .cons ⟨_, _, hrecord, rfl⟩ ih

theorem Registry.allSchemas_empty {p : Schema → Prop} : ({} : Registry).AllSchemas p := by
  intro type hmem
  cases hmem

/-- What holds of the record of each type that is declared, given that it holds of the schemas
before, holds of all schemas at the end. -/
theorem Declares.allSchemas {p : Schema → Prop}
    (h : Declares space settings registry decls types final)
    (hregistry : registry.AllSchemas p)
    (hrecord : ∀ earlier decl schema, decl ∈ decls → Registry.AllSchemas p earlier →
      earlier.recordOf space settings decl = .ok schema →
        ⟨decl.name, .avro schema⟩ ∈ types → p schema) :
    final.AllSchemas p := by
  induction h with
  | nil => exact hregistry
  | @cons registry decl rest schema types final hfirst _ _ ih =>
      have hschema : p schema :=
        hrecord registry decl schema List.mem_cons_self hregistry hfirst List.mem_cons_self
      apply ih
      · intro other hother found hfound
        rcases List.mem_append.mp hother with hother | hother
        · exact hregistry other hother found hfound
        · rw [List.mem_singleton.mp hother] at hfound
          cases hfound
          exact hschema
      · intro earlier other found hother hearlier hfound hmem
        exact hrecord earlier other found (List.mem_cons_of_mem _ hother) hearlier hfound
          (List.mem_cons_of_mem _ hmem)

/-- Every schema of a declared document has heads of a kind that the heads of read schemas and of
declared records are. -/
theorem Registry.allHeads_declareAll {q : TypeHead → Prop}
    (hchecked : ∀ head : TypeHead, head.Checked → q head)
    (hdraft : ∀ name space doc, q { name, space, doc }) (settings : Settings)
    (document : Declarations) :
    (declareAll {} settings document).2.AllSchemas (AllHeads q) := by
  rw [declareAll]
  obtain ⟨done, types, -, hdeclares⟩ :=
    @exists_declares document.space (document.settings.getD settings) {} document.types
  refine hdeclares.allSchemas allSchemas_empty ?_
  intro earlier decl schema _ hearlier hrecord _
  rw [Schema.allHeads_iff_allNodes]
  refine allNodes_recordOf ?_ ?_ ?_ hrecord ?_
  · intro node hnode head hhead
    rw [hnode.head?_eq_none] at hhead
    cases hhead
  · rintro found ⟨property, -, text, -, hparse⟩
    rw [← Schema.allHeads_iff_allNodes]
    exact (Schema.allLegal_of_parse hparse).checked.imp hchecked
  · intro type htype found hfound
    rw [← Schema.allHeads_iff_allNodes]
    exact hearlier type htype found hfound
  · obtain ⟨fields, -, -, rfl⟩ := recordOf_eq_ok_iff.mp hrecord
    intro head hhead
    cases hhead
    exact hdraft _ _ _

end Runs

end EventSchema
