import EventSchema.Proofs.Writable

/-!
# Declared types can be written

A union that declaring a type puts around a schema never holds a union, an
override has passed the checks of reading, and what a type embeds was registered
before.  So the only node of a registered schema that the writer may refuse is
the record of a declared type.  The main statement is that all types of an
accepted document are written exactly if the document gives them valid names.
-/

namespace EventSchema

open Schema (AllNodes Writable)

namespace Schema

theorem Plain.writable {node : Schema} (h : node.Plain) : Writable node := by
  refine (legal_of_unnamed h.wellBuilt h.head?_eq_none).writable ?_
  rintro name rfl
  cases h.unnamed

theorem allWritable_of_parse {text : String} {schema : Schema} (h : parse text = .ok schema) :
    AllNodes Writable schema := by
  obtain ⟨value, hvalue⟩ := exists_ofJson_of_parse h
  exact allWritable_of_ofJson hvalue

theorem exists_toJson_of_writable {schema : Schema} (h : AllNodes Writable schema) :
    ∃ json, schema.toJson = .ok json := by
  obtain ⟨json, written, hwrites⟩ := @exists_writes none _ h []
  exact ⟨json, toJson_eq_ok_iff.mpr ⟨written, hwrites⟩⟩

/-- A record is not written under an invalid name. -/
theorem isValid_of_toJson {head : TypeHead} {isError : Bool} {fields : List Field} {json : Json}
    (h : (record head isError fields).toJson = .ok json) : Name.isValid head.name = true := by
  obtain ⟨written, hwrites⟩ := toJson_eq_ok_iff.mp h
  cases hwrites with
  | record hname => exact hname
  | again hhead hname =>
      cases hhead
      exact hname

end Schema

section Runs

variable {space : Option String} {settings : Settings} {registry final : Registry}
  {decls : List TypeDecl} {types : List EventType} {decl : TypeDecl} {schema : Schema}
  {document : Declarations}

/-- The record of a type with a valid name has no node that the writer refuses, if the schemas
registered before have none. -/
theorem writable_recordOf (hname : Name.isValid decl.name = true)
    (hregistry : registry.AllSchemas (AllNodes Writable))
    (h : registry.recordOf space settings decl = .ok schema) : AllNodes Writable schema := by
  refine allNodes_recordOf (fun node => Schema.Plain.writable) ?_ hregistry h ?_
  · rintro found ⟨property, -, text, -, hparse⟩
    exact Schema.allWritable_of_parse hparse
  · obtain ⟨fields, -, -, rfl⟩ := recordOf_eq_ok_iff.mp h
    exact hname

theorem Declares.writable (h : Declares space settings registry decls types final)
    (hnames : ∀ decl ∈ decls, Name.isValid (TypeDecl.name decl) = true)
    (hregistry : registry.AllSchemas (AllNodes Writable)) :
    final.AllSchemas (AllNodes Writable) := by
  refine h.allSchemas hregistry ?_
  intro earlier decl schema hdecl hearlier hrecord _
  exact writable_recordOf (hnames decl hdecl) hearlier hrecord

/-- All types of an accepted document are written exactly if their names are valid, whatever their
properties and overrides are, and under any namespace and settings. -/
theorem toJson_declareAll_iff (h : (Registry.declareAll {} settings document).1 = .ok types) :
    (∀ type ∈ types, ∃ schema json, type.schema? = some schema ∧ schema.toJson = .ok json) ↔
      ∀ decl ∈ document.types, Name.isValid decl.name = true := by
  have hdeclares := declares_of_ok h
  constructor
  · intro hwritten decl hdecl
    obtain ⟨type, htype, earlier, schema, hrecord, rfl⟩ :=
      exists_of_forall₂_left hdeclares.records hdecl
    obtain ⟨found, json, hfound, hjson⟩ := hwritten _ htype
    obtain ⟨fields, -, -, rfl⟩ := recordOf_eq_ok_iff.mp hrecord
    cases hfound
    exact Schema.isValid_of_toJson hjson
  · intro hnames type htype
    obtain ⟨decl, -, earlier, schema, -, rfl⟩ := exists_of_forall₂_right hdeclares.records htype
    have hfinal := hdeclares.writable hnames Registry.allSchemas_empty
    have hmem : ⟨decl.name, .avro schema⟩ ∈
        (Registry.declareTypes {} document.space (document.settings.getD settings)
          document.types).2.types := by
      rw [hdeclares.types_eq]
      exact List.mem_append_right _ htype
    obtain ⟨json, hjson⟩ := Schema.exists_toJson_of_writable (hfinal _ hmem schema rfl)
    exact ⟨schema, json, rfl, hjson⟩

/-- A document in an invalid namespace, with a property name that no field may have, and an
override that is a union. -/
def unionDocument : Declarations :=
  { space := some "a..b"
    types := [
      { name := "L", properties := [{ name := "x-y", type := some (.string "Long[]") }] },
      { name := "p.T"
        properties := [{ name := "l", type := some (.string "L[]") }, { name := "u" }]
        notes := [.schemaOverride "u" "[\"null\",\"long\"]"] }] }

/-- The record of the first type of `unionDocument`. -/
def hyphenRecord : Schema :=
  .record { name := "L", space := some "a..b" } false
    [{ name := "x-y", schema := .nullable (.arrayOf (.nullable (.ofKind .long))) }]

/-- The record of the second type of `unionDocument`. -/
def unionRecord : Schema :=
  .record { name := "p.T", space := some "a..b" } false
    [{ name := "l", schema := .arrayOf hyphenRecord },
      { name := "u", schema := .nullable (.ofKind .long) }]

/-- What the record of the first type is written as. -/
def hyphenJson : Json :=
  .obj [("type", .str "record"), ("name", .str "L"), ("namespace", .str "a..b"),
    ("fields", .arr [.obj [("name", .str "x-y"), ("type", .arr [.str "null",
      .obj [("type", .str "array"), ("items", .arr [.str "null", .str "long"])]])]])]

/-- What the record of the second type is written as. -/
def unionJson : Json :=
  .obj [("type", .str "record"), ("name", .str "p.T"),
    ("fields", .arr [
      .obj [("name", .str "l"), ("type", .obj [("type", .str "array"), ("items", hyphenJson)])],
      .obj [("name", .str "u"), ("type", .arr [.str "null", .str "long"])]])]

theorem toJson_declareAll_unionDocument :
    (Registry.declareAll {} {} unionDocument).1 =
        .ok [⟨"L", .avro hyphenRecord⟩, ⟨"p.T", .avro unionRecord⟩] ∧
      hyphenRecord.toJson = .ok hyphenJson ∧ unionRecord.toJson = .ok unionJson := by
  have h : (Registry.declareAll {} {} unionDocument).1 =
      .ok [⟨"L", .avro hyphenRecord⟩, ⟨"p.T", .avro unionRecord⟩] := by decide +kernel
  have hwritten := (toJson_declareAll_iff h).mpr (by decide)
  obtain ⟨schema, json, hschema, hfirst⟩ := hwritten _ List.mem_cons_self
  cases hschema
  obtain ⟨schema, other, hschema, hsecond⟩ :=
    hwritten _ (List.mem_cons_of_mem _ List.mem_cons_self)
  cases hschema
  have hjson : json = hyphenJson := Except.ok.inj (hfirst.symm.trans rfl)
  have hother : other = unionJson := Except.ok.inj (hsecond.symm.trans rfl)
  rw [hjson] at hfirst
  rw [hother] at hsecond
  exact ⟨h, hfirst, hsecond⟩

end Runs

end EventSchema
