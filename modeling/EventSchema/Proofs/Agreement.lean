import EventSchema.Proofs.Declared
import EventSchema.Proofs.Outline

/-!
# Agreement of declared types

Every named type in a registered schema is the record of a declared type or
stands in an override.  Each override is read by itself, and types are
registered under declared names rather than full names, so that one full name
may come to stand for different types.  The main statement says exactly when the
registered schemas agree.
-/

namespace EventSchema

namespace Schema

/-- The named types of two schemas agree: those of one full name have one outline.  Outlines are
compared as terms, so that the order of extra attributes and of object members counts, which
`Schema.Equal` passes over. -/
def Agree (first second : Schema) : Prop :=
  ∀ fullName node other, NamedIn first fullName node → NamedIn second fullName other →
    node.outline = other.outline

end Schema

open Schema (AllNodes Agree NamedIn Occurs)

/-- One of the event types carries the schema. -/
def Carried (types : List EventType) (schema : Schema) : Prop :=
  ∃ type ∈ types, type.schema? = some schema

/-- The definitions of a document are told apart by their full names: declared types of one full
name have one name, and the named types in overrides agree with each other and with the records of
declared types.  As in `Schema.Agree`, the order of keys counts. -/
structure Declarations.Unambiguous (document : Declarations) (types : List EventType) : Prop where
  names : ∀ first ∈ document.types, ∀ second ∈ document.types,
    Name.full first.name document.space = Name.full second.name document.space →
      first.name = second.name
  overrides : ∀ found other, document.Overrides found → document.Overrides other →
    Agree found other
  declared : ∀ found schema fullName node, document.Overrides found → Carried types schema →
    schema.fullName? = some fullName → NamedIn found fullName node → node.outline = schema.outline

section Records

variable {registry : Registry} {space : Option String} {settings : Settings} {decl : TypeDecl}
  {schema found : Schema}

theorem head?_of_recordOf (h : registry.recordOf space settings decl = .ok schema) :
    schema.head? = some { name := decl.name, space, doc := decl.doc } := by
  obtain ⟨fields, -, -, rfl⟩ := recordOf_eq_ok_iff.mp h
  rfl

/-- An override is the schema of a field. -/
theorem occurs_of_overrides (h : registry.recordOf space settings decl = .ok schema)
    (hfound : decl.Overrides found) : ∃ path, Occurs path found schema := by
  obtain ⟨property, hproperty, text, htext, hparse⟩ := hfound
  obtain ⟨fields, hfields, -, rfl⟩ := recordOf_eq_ok_iff.mp h
  obtain ⟨field, hmem, hfield⟩ := exists_of_forall₂_left hfields hproperty
  obtain ⟨-, shape, rfl, hshape⟩ := synthesize_eq_ok_iff.mp hfield
  have hschema : shape.schema = found := by
    rcases hshape with ⟨given, schema, hgiven, hschema, rfl⟩ | ⟨hnone, -⟩
    · rw [htext, Option.some.injEq] at hgiven
      rw [← hgiven, hparse, Except.ok.injEq] at hschema
      exact hschema.symm
    · rw [htext] at hnone
      cases hnone
  rw [← hschema]
  exact ⟨_, .field hmem .here⟩

end Records

section Runs

variable {document : Declarations} {settings : Settings} {types : List EventType}
  {final : Registry} {schema other : Schema}

theorem Declares.exists_decl {space : Option String} {registry : Registry} {decls : List TypeDecl}
    (h : Declares space settings registry decls types final) (hschema : Carried types schema) :
    ∃ decl ∈ decls, (∃ earlier, Registry.recordOf earlier space settings decl = .ok schema) ∧
      ⟨decl.name, .avro schema⟩ ∈ types := by
  obtain ⟨type, htype, hcarries⟩ := hschema
  obtain ⟨decl, hdecl, earlier, record, hrecord, rfl⟩ := exists_of_forall₂_right h.records htype
  cases hcarries
  exact ⟨decl, hdecl, ⟨earlier, hrecord⟩, htype⟩

theorem Declares.exists_carried {space : Option String} {registry : Registry}
    {decls : List TypeDecl} {decl : TypeDecl}
    (h : Declares space settings registry decls types final) (hdecl : decl ∈ decls) :
    ∃ schema, Carried types schema ∧
      ∃ earlier, Registry.recordOf earlier space settings decl = .ok schema := by
  obtain ⟨type, htype, earlier, schema, hrecord, rfl⟩ := exists_of_forall₂_left h.records hdecl
  exact ⟨schema, ⟨_, htype, rfl⟩, earlier, hrecord⟩

/-- What holds of the record of each declared type, given that it holds of the schemas before,
holds of all registered schemas. -/
theorem Declares.forall_carried {space : Option String} {decls : List TypeDecl}
    {p : Schema → Prop} (h : Declares space settings {} decls types final)
    (hrecord : ∀ earlier decl schema, decl ∈ decls → Registry.AllSchemas p earlier →
      earlier.recordOf space settings decl = .ok schema →
        ⟨decl.name, .avro schema⟩ ∈ types → p schema)
    (hschema : Carried types schema) : p schema := by
  obtain ⟨type, htype, hcarries⟩ := hschema
  have hfinal : type ∈ final.types := by
    rw [h.types_eq]
    exact htype
  exact h.allSchemas Registry.allSchemas_empty hrecord type hfinal schema hcarries

/-- Every named type in a registered schema is registered itself or stands in an override. -/
theorem Declares.origin (h : Declares document.space settings {} document.types types final)
    {fullName : String} {node : Schema} (hschema : Carried types schema)
    (hnode : NamedIn schema fullName node) :
    Carried types node ∨ ∃ found, document.Overrides found ∧ NamedIn found fullName node := by
  have hall : AllNodes (fun node => ∀ head, node.head? = some head → Carried types node ∨
      ∃ found, document.Overrides found ∧ NamedIn found head.fullName node) schema := by
    refine h.forall_carried ?_ hschema
    intro earlier decl record hdecl hearlier hrecord hmem
    refine allNodes_recordOf ?_ ?_ hearlier hrecord ?_
    · intro node hnode head hhead
      rw [hnode.head?_eq_none] at hhead
      cases hhead
    · intro found hfound path node hnode head hhead
      exact .inr ⟨found, ⟨decl, hdecl, hfound⟩, ⟨path, hnode⟩, head, hhead, rfl⟩
    · intro head _
      exact .inl ⟨_, hmem, rfl⟩
  obtain ⟨⟨path, hoccurs⟩, head, hhead, rfl⟩ := hnode
  exact hall path node hoccurs head hhead

/-- Where declared types of one full name have one name, their records are one record. -/
theorem Declares.eq_of_fullName (h : Declares document.space settings {} document.types types final)
    (hnames : ∀ first ∈ document.types, ∀ second ∈ document.types,
      Name.full first.name document.space = Name.full second.name document.space →
        first.name = second.name)
    (hschema : Carried types schema) (hother : Carried types other)
    (hfull : schema.fullName? = other.fullName?) : schema = other := by
  obtain ⟨first, hfirst, ⟨earlier, hrecord⟩, htype⟩ := h.exists_decl hschema
  obtain ⟨second, hsecond, ⟨earlierOther, hrecordOther⟩, htypeOther⟩ := h.exists_decl hother
  rw [Schema.fullName?_of_head? (head?_of_recordOf hrecord),
    Schema.fullName?_of_head? (head?_of_recordOf hrecordOther), Option.some.injEq] at hfull
  have hnodup : (types.map EventType.name).Nodup := by
    have hfinal := h.nodup List.nodup_nil
    rwa [Registry.names, h.types_eq, List.nil_append] at hfinal
  -- Registered names are distinct, so that types of one declared name are one type.
  have hsame : (⟨first.name, .avro schema⟩ : EventType) = ⟨second.name, .avro other⟩ :=
    List.inj_on_of_nodup_map hnodup htype htypeOther (hnames first hfirst second hsecond hfull)
  exact Representation.avro.inj (EventType.mk.inj hsame).2

theorem Declares.namedIn_of_overrides
    (h : Declares document.space settings {} document.types types final) {found node : Schema}
    {fullName : String} (hfound : document.Overrides found) (hnode : NamedIn found fullName node) :
    ∃ schema, Carried types schema ∧ NamedIn schema fullName node := by
  obtain ⟨decl, hdecl, hoverrides⟩ := hfound
  obtain ⟨schema, hschema, earlier, hrecord⟩ := h.exists_carried hdecl
  obtain ⟨path, hoccurs⟩ := occurs_of_overrides hrecord hoverrides
  exact ⟨schema, hschema, hnode.trans hoccurs⟩

/-- What agrees where it is registered is unambiguous where it is declared, since every record and
every override is registered. -/
theorem Declares.unambiguous (h : Declares document.space settings {} document.types types final)
    (hagree : ∀ schema other, Carried types schema → Carried types other → Agree schema other) :
    document.Unambiguous types := by
  refine ⟨?_, ?_, ?_⟩
  · intro first hfirst second hsecond hfull
    obtain ⟨schema, hschema, earlier, hrecord⟩ := h.exists_carried hfirst
    obtain ⟨other, hother, earlierOther, hrecordOther⟩ := h.exists_carried hsecond
    have hhead := head?_of_recordOf hrecord
    have hheadOther := head?_of_recordOf hrecordOther
    have hnode : NamedIn schema (Name.full first.name document.space) schema :=
      Schema.namedIn_self hhead
    have hotherNode : NamedIn other (Name.full first.name document.space) other := by
      rw [hfull]
      exact Schema.namedIn_self hheadOther
    have houtline := hagree schema other hschema hother _ _ _ hnode hotherNode
    have hsame : schema.head? = other.head? := by
      rw [← schema.head?_outline, houtline, other.head?_outline]
    rw [hhead, hheadOther, Option.some.injEq] at hsame
    exact congrArg TypeHead.name hsame
  · intro found other hfound hother fullName node otherNode hnode hotherNode
    obtain ⟨schema, hschema, hin⟩ := h.namedIn_of_overrides hfound hnode
    obtain ⟨otherSchema, hotherSchema, hinOther⟩ := h.namedIn_of_overrides hother hotherNode
    exact hagree schema otherSchema hschema hotherSchema fullName node otherNode hin hinOther
  · intro found schema fullName node hfound hschema hfull hnode
    obtain ⟨outer, houter, hin⟩ := h.namedIn_of_overrides hfound hnode
    obtain ⟨decl, -, ⟨earlier, hrecord⟩, -⟩ := h.exists_decl hschema
    have hhead := head?_of_recordOf hrecord
    rw [Schema.fullName?_of_head? hhead, Option.some.injEq] at hfull
    have hroot : NamedIn schema fullName schema := hfull ▸ Schema.namedIn_self hhead
    exact hagree outer schema houter hschema fullName node schema hin hroot

/-- The schemas that a document registers agree exactly if its definitions are unambiguous. -/
theorem agree_declareAll_iff (h : (Registry.declareAll {} settings document).1 = .ok types) :
    (∀ schema other, Carried types schema → Carried types other → Agree schema other) ↔
      document.Unambiguous types := by
  have hdeclares := declares_of_ok h
  constructor
  · exact hdeclares.unambiguous
  · intro hunambiguous schema other hschema hother fullName node otherNode hnode hotherNode
    have hfull := hnode.fullName?_eq
    have hotherFull := hotherNode.fullName?_eq
    have hotherOrigin := hdeclares.origin hother hotherNode
    rcases hdeclares.origin hschema hnode with hcarried | ⟨found, hfound, hin⟩
    · rcases hotherOrigin with hotherCarried | ⟨otherFound, hotherFound, hotherIn⟩
      · have hsame := hdeclares.eq_of_fullName hunambiguous.names hcarried hotherCarried
          (hfull.trans hotherFull.symm)
        rw [hsame]
      · exact (hunambiguous.declared _ _ _ _ hotherFound hcarried hfull hotherIn).symm
    · rcases hotherOrigin with hotherCarried | ⟨otherFound, hotherFound, hotherIn⟩
      · exact hunambiguous.declared _ _ _ _ hfound hotherCarried hotherFull hin
      · exact hunambiguous.overrides _ _ hfound hotherFound _ _ _ hin hotherIn

/-- A fixed as the text of an override. -/
def fixedText : String := "\x7b\"type\":\"fixed\",\"name\":\"F\",\"size\":16\x7d"

/-- The schema of `fixedText`. -/
def fixedSchema : Schema := .fixed { name := "F" } 16

theorem parse_fixedText : Schema.parse fixedText = .ok fixedSchema := by decide +kernel

theorem namedIn_fixedSchema {fullName : String} {node : Schema}
    (h : NamedIn fixedSchema fullName node) : fullName = "F" ∧ node = fixedSchema := by
  obtain ⟨⟨path, hnode⟩, head, hhead, rfl⟩ := h
  rw [fixedSchema] at hnode
  cases hnode with
  | here =>
      cases hhead
      exact ⟨by decide, rfl⟩

/-- A document whose second type uses the first one once and an override twice. -/
def sharingDocument : Declarations :=
  { space := some "a"
    types := [
      { name := "L", properties := [{ name := "x", type := some (.string "int") }] },
      { name := "T"
        properties := [{ name := "l", type := some (.string "L") }, { name := "p" },
          { name := "q" }]
        notes := [.schemaOverride "p" fixedText, .schemaOverride "q" fixedText] }] }

/-- The record of the first type of `sharingDocument`. -/
def sharedRecord : Schema :=
  .record { name := "L", space := some "a" } false [{ name := "x", schema := .ofKind .int }]

/-- The record of the second type of `sharingDocument`. -/
def holdingRecord : Schema :=
  .record { name := "T", space := some "a" } false
    [{ name := "l", schema := sharedRecord }, { name := "p", schema := fixedSchema },
      { name := "q", schema := fixedSchema }]

theorem overrides_sharingDocument {found : Schema} (h : sharingDocument.Overrides found) :
    found = fixedSchema := by
  obtain ⟨decl, hdecl, property, hproperty, text, htext, hparse⟩ := h
  have htexts : ∀ decl ∈ sharingDocument.types, ∀ property ∈ decl.properties,
      ∀ text ∈ findOverride? decl.notes property.name, text = fixedText := by decide
  rw [htexts decl hdecl property hproperty text htext, parse_fixedText] at hparse
  exact (Except.ok.inj hparse).symm

theorem agree_declareAll_sharingDocument :
    (Registry.declareAll {} {} sharingDocument).1 =
        .ok [⟨"L", .avro sharedRecord⟩, ⟨"T", .avro holdingRecord⟩] ∧
      Agree sharedRecord holdingRecord ∧ Agree holdingRecord holdingRecord := by
  have h : (Registry.declareAll {} {} sharingDocument).1 =
      .ok [⟨"L", .avro sharedRecord⟩, ⟨"T", .avro holdingRecord⟩] := by decide +kernel
  have hunambiguous : sharingDocument.Unambiguous
      [⟨"L", .avro sharedRecord⟩, ⟨"T", .avro holdingRecord⟩] := by
    refine ⟨by decide, ?_, ?_⟩
    · intro found other hfound hother fullName node otherNode hnode hotherNode
      rw [overrides_sharingDocument hfound] at hnode
      rw [overrides_sharingDocument hother] at hotherNode
      rw [(namedIn_fixedSchema hnode).2, (namedIn_fixedSchema hotherNode).2]
    · intro found schema fullName node hfound hschema hfull hnode
      rw [overrides_sharingDocument hfound] at hnode
      obtain ⟨rfl, rfl⟩ := namedIn_fixedSchema hnode
      obtain ⟨type, htype, hcarries⟩ := hschema
      rcases List.mem_cons.mp htype with rfl | htype
      · cases hcarries
        exact absurd hfull (by decide)
      · rw [List.mem_singleton.mp htype] at hcarries
        cases hcarries
        exact absurd hfull (by decide)
  have hagree := (agree_declareAll_iff h).mpr hunambiguous
  have hshared : Carried [⟨"L", .avro sharedRecord⟩, ⟨"T", .avro holdingRecord⟩] sharedRecord :=
    ⟨_, List.mem_cons_self, rfl⟩
  have hholding : Carried [⟨"L", .avro sharedRecord⟩, ⟨"T", .avro holdingRecord⟩] holdingRecord :=
    ⟨_, List.mem_cons_of_mem _ List.mem_cons_self, rfl⟩
  exact ⟨h, hagree _ _ hshared hholding, hagree _ _ hholding hholding⟩

/-- A document whose overrides define one full name in two ways. -/
def clashingDocument : Declarations :=
  { types := [{
      name := "R"
      properties := [{ name := "p" }, { name := "q" }]
      notes := [.schemaOverride "p" "\x7b\"type\":\"fixed\",\"name\":\"F\",\"size\":2\x7d",
        .schemaOverride "q" "\x7b\"type\":\"fixed\",\"name\":\"F\",\"size\":4\x7d"] }] }

/-- The document is accepted, and the two types of one full name differ. -/
theorem exists_disagreement :
    ∃ types schema node other, (Registry.declareAll {} {} clashingDocument).1 = .ok types ∧
      Carried types schema ∧ NamedIn schema "F" node ∧ NamedIn schema "F" other ∧
        node.outline ≠ other.outline := by
  let small : Schema := .fixed { name := "F" } 2
  let large : Schema := .fixed { name := "F" } 4
  let schema : Schema := .record { name := "R" } false
    [{ name := "p", schema := small }, { name := "q", schema := large }]
  have h : (Registry.declareAll {} {} clashingDocument).1 = .ok [⟨"R", .avro schema⟩] := by decide +kernel
  refine ⟨_, schema, small, large, h, ⟨_, List.mem_cons_self, rfl⟩, ?_, ?_, by decide⟩
  · exact ⟨⟨_, .field List.mem_cons_self .here⟩, _, rfl, by decide⟩
  · exact ⟨⟨_, .field (List.mem_cons_of_mem _ List.mem_cons_self) .here⟩, _, rfl, by decide⟩

end Runs

end EventSchema
