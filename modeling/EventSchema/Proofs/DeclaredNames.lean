import EventSchema.Proofs.Declared

/-!
# Names of declared records

Reading refuses a record with an illegal name, an illegal namespace or a field
that is no single segment.  Declaring a type only refuses points in the names of
its properties.  The main statement is that an accepted document registers
records of legal names exactly if the names that it gives are legal.
-/

namespace EventSchema

/-- The names that a record is built from are legal: its own, its namespace if it has one, and
those of its fields. -/
structure LegalNames (name : String) (space : Option String) (fields : List String) : Prop where
  name : Name.isValid name = true
  space : ∀ own, space = some own → own ≠ "" → Name.isValid own = true
  fields : ∀ field ∈ fields, Name.isSegment field = true

instance (name : String) (space : Option String) (fields : List String) :
    Decidable (LegalNames name space fields) :=
  decidable_of_iff (Name.isValid name = true ∧
      (∀ own ∈ space, own ≠ "" → Name.isValid own = true) ∧
        ∀ field ∈ fields, Name.isSegment field = true)
    ⟨fun h => ⟨h.1, h.2.1, h.2.2⟩, fun h => ⟨h.name, h.space, h.fields⟩⟩

section Documents

variable {registry : Registry} {settings : Settings} {document : Declarations}
  {types : List EventType}

/-- The names that a document gives a type, its namespace and its fields are legal. -/
def TypeDecl.LegallyNamed (space : Option String) (decl : TypeDecl) : Prop :=
  LegalNames decl.name space (decl.properties.map PropertyDecl.name)

instance (space : Option String) (decl : TypeDecl) : Decidable (decl.LegallyNamed space) :=
  inferInstanceAs (Decidable (LegalNames _ _ _))

/-- A registered type is a record of legal names. -/
def EventType.LegallyNamed (type : EventType) : Prop :=
  ∃ head isError fields, type.schema? = some (.record head isError fields) ∧
    LegalNames head.name head.space (fields.map FieldOf.name)

/-- The record of a declared type has the names of the declaration. -/
theorem legallyNamed_recordOf_iff {space : Option String} {decl : TypeDecl} {schema : Schema}
    (h : registry.recordOf space settings decl = .ok schema) :
    EventType.LegallyNamed ⟨decl.name, .avro schema⟩ ↔ decl.LegallyNamed space := by
  obtain ⟨fields, hfields, -, rfl⟩ := recordOf_eq_ok_iff.mp h
  have hnames := Registry.FieldOfProperty.names_eq hfields
  rw [TypeDecl.LegallyNamed, ← hnames]
  constructor
  · rintro ⟨head, isError, found, hrecord, hlegal⟩
    cases hrecord
    exact hlegal
  · intro hlegal
    exact ⟨_, _, _, rfl, hlegal⟩

/-- An accepted document registers records of legal names exactly if it gives legal names. -/
theorem legallyNamed_declareAll_iff (h : (registry.declareAll settings document).1 = .ok types) :
    (∀ type ∈ types, type.LegallyNamed) ↔
      ∀ decl ∈ document.types, decl.LegallyNamed document.space := by
  have hrecords := (declares_of_ok h).records
  constructor
  · intro htypes decl hdecl
    obtain ⟨type, htype, earlier, schema, hrecord, rfl⟩ := exists_of_forall₂_left hrecords hdecl
    exact (legallyNamed_recordOf_iff hrecord).mp (htypes _ htype)
  · intro hdecls type htype
    obtain ⟨decl, hdecl, earlier, schema, hrecord, rfl⟩ := exists_of_forall₂_right hrecords htype
    exact (legallyNamed_recordOf_iff hrecord).mpr (hdecls decl hdecl)

/-- A document with a type of one property. -/
def fieldDocument (space : Option String) (property : String) : Declarations :=
  { space
    types := [{ name := "R", properties := [{ name := property, type := some (.string "int") }] }] }

/-- The record of the type in `fieldDocument`. -/
def fieldRecord (space : Option String) (property : String) : Schema :=
  .record { name := "R", space } false [{ name := property, schema := .ofKind .int }]

theorem legallyNamed_declareAll_fieldDocument :
    (Registry.declareAll {} {} (fieldDocument (some "a.b") "x")).1 =
        .ok [⟨"R", .avro (fieldRecord (some "a.b") "x")⟩] ∧
      EventType.LegallyNamed ⟨"R", .avro (fieldRecord (some "a.b") "x")⟩ := by
  have h : (Registry.declareAll {} {} (fieldDocument (some "a.b") "x")).1 =
      .ok [⟨"R", .avro (fieldRecord (some "a.b") "x")⟩] := rfl
  have hlegal := (legallyNamed_declareAll_iff h).mpr (by decide)
  exact ⟨h, hlegal _ (List.mem_singleton_self _)⟩

/-- A property with a hyphen in its name is declared, although reading refuses the record that is
written for it. -/
theorem exists_illegal_name :
    (Registry.declareAll {} {} (fieldDocument none "a-b")).1 =
        .ok [⟨"R", .avro (fieldRecord none "a-b")⟩] ∧
      ¬ EventType.LegallyNamed ⟨"R", .avro (fieldRecord none "a-b")⟩ ∧
      ∃ json, (fieldRecord none "a-b").toJson = .ok json ∧
        Schema.ofJson json = .error (.invalidName "a-b") := by
  refine ⟨rfl, ?_, _, rfl, rfl⟩
  rintro ⟨head, isError, fields, hrecord, hlegal⟩
  cases hrecord
  exact absurd hlegal (by decide)

end Documents

end EventSchema
