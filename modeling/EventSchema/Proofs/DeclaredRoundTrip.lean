import EventSchema.Proofs.Agreement
import EventSchema.Proofs.WriteRead

/-!
# Writing declared types and reading them again

Where a document has valid names and no override defines a type, the only named
types in its registered schemas are the records of its declared types, each
under one name in one namespace.  Such a schema is self-contained, whatever its
records are embedded in and however often, so that what is written for it is
read as the same schema.
-/

namespace EventSchema

open Schema (AllNodes NamedIn Occurs)

/-! ## Values that define nothing -/

namespace Schema

theorem unnamed_of_schemaOfName {scope : Scope} {space : Option String} {name : String}
    {schema : Schema} (h : scope.schemaOfName space name = .ok schema)
    (hclaimed : scope.claimed = []) : AllNodes (fun node => node.fullName? = none) schema := by
  rcases Scope.schemaOfName_eq_ok h with ⟨kind, -, rfl⟩ | ⟨fullName, hdenotes, -⟩
  · exact allNodes_primitive.mpr rfl
  · have hmem := hdenotes.mem
    rw [hclaimed] at hmem
    cases hmem

mutual

/-- Where nothing is claimed and the schema has no named type, nothing is claimed after reading it,
and it has no reference. -/
theorem Reads.unnamed {scope scope' : Scope} {space : Option String} {value : Json}
    {schema : Schema} :
    Reads scope space value schema scope' → scope.claimed = [] →
      AllNodes (fun node => node.head? = none) schema →
      scope'.claimed = [] ∧ AllNodes (fun node => node.fullName? = none) schema
  | .name h, hclaimed, _ => ⟨hclaimed, unnamed_of_schemaOfName h hclaimed⟩
  | .union h, hclaimed, hnodes => by
      obtain ⟨hclaimed', hmembers⟩ := h.unnamed hclaimed (allNodes_union.mp hnodes).2
      exact ⟨hclaimed', allNodes_union.mpr ⟨rfl, hmembers⟩⟩
  | .primitive _, hclaimed, _ => ⟨hclaimed, allNodes_primitive.mpr rfl⟩
  | .array _ _ h, hclaimed, hnodes => by
      obtain ⟨hclaimed', hitems⟩ := h.unnamed hclaimed (allNodes_array.mp hnodes).2
      exact ⟨hclaimed', allNodes_array.mpr ⟨rfl, hitems⟩⟩
  | .map _ _ h, hclaimed, hnodes => by
      obtain ⟨hclaimed', hvalues⟩ := h.unnamed hclaimed (allNodes_map.mp hnodes).2
      exact ⟨hclaimed', allNodes_map.mpr ⟨rfl, hvalues⟩⟩
  -- A definition would be a named type in the schema.
  | .record _ _ _ _ _, _, hnodes => by cases hnodes.root
  | .enum _ _ _ _ _ _, _, hnodes => by cases hnodes.root
  | .fixed _ _ _ _ _, _, hnodes => by cases hnodes.root
  | .named _ _ _ h, hclaimed, _ => ⟨hclaimed, unnamed_of_schemaOfName h hclaimed⟩

theorem ReadsMembers.unnamed {scope scope' : Scope} {space : Option String}
    {seen : List String} {items : List Json} {schemas : List Schema} :
    ReadsMembers scope space seen items schemas scope' → scope.claimed = [] →
      (∀ member ∈ schemas, AllNodes (fun node => node.head? = none) member) →
      scope'.claimed = [] ∧
        ∀ member ∈ schemas, AllNodes (fun node => node.fullName? = none) member
  | .nil, hclaimed, _ => ⟨hclaimed, List.forall_mem_nil _⟩
  | .cons h _ _ hrest, hclaimed, hnodes => by
      obtain ⟨hfirst, hothers⟩ := List.forall_mem_cons.mp hnodes
      obtain ⟨hbetween, hmember⟩ := h.unnamed hclaimed hfirst
      obtain ⟨hclaimed', hmembers⟩ := hrest.unnamed hbetween hothers
      exact ⟨hclaimed', List.forall_mem_cons.mpr ⟨hmember, hmembers⟩⟩

end

/-- A text without named types is read as plain nodes only. -/
theorem plain_of_parse {text : String} {schema : Schema} (h : parse text = .ok schema)
    (hnodes : AllNodes (fun node => node.head? = none) schema) : AllNodes Plain schema := by
  obtain ⟨value, hvalue⟩ := exists_ofJson_of_parse h
  obtain ⟨scope, hreads⟩ := ofJson_eq_ok_iff.mp hvalue
  have hunnamed := (hreads.unnamed rfl hnodes).2
  intro path node hnode
  exact ⟨(allLegal_of_parse h path node hnode).wellBuilt, hunnamed path node hnode⟩

end Schema

/-! ## Records of declared types -/

/-- The namespace of a document is valid, its types and properties have simple names, the types not
those of primitive types, and its overrides define no types. -/
structure Declarations.Simple (document : Declarations) : Prop where
  space : ∀ space, document.space = some space → Name.isValid space = true
  types : ∀ decl ∈ document.types, Name.isSegment decl.name = true ∧
    PrimitiveKind.ofName? decl.name = none
  properties : ∀ decl ∈ document.types, ∀ property ∈ decl.properties,
    Name.isSegment property.name = true
  overrides : ∀ found, document.Overrides found → AllNodes (fun node => node.head? = none) found

section Runs

variable {document : Declarations} {settings : Settings} {types : List EventType}
  {registry final : Registry} {decl : TypeDecl} {schema node other : Schema}

theorem Declarations.Simple.last_full (hdocument : document.Simple)
    (hdecl : decl ∈ document.types) : Name.last (Name.full decl.name document.space) = decl.name :=
  Name.last_full (Name.isDotted_of_isSegment (hdocument.types decl hdecl).1) document.space

/-- Types of a simple document are told apart by their full names. -/
theorem Declarations.Simple.names (hdocument : document.Simple) :
    ∀ first ∈ document.types, ∀ second ∈ document.types,
      Name.full first.name document.space = Name.full second.name document.space →
        first.name = second.name := by
  intro first hfirst second hsecond hfull
  rw [← hdocument.last_full hfirst, hfull, hdocument.last_full hsecond]

theorem wellBuilt_of_recordOf (hdocument : document.Simple) (hdecl : decl ∈ document.types)
    (h : registry.recordOf document.space settings decl = .ok schema) : schema.WellBuilt := by
  obtain ⟨fields, hfields, hnodup, rfl⟩ := recordOf_eq_ok_iff.mp h
  refine ⟨⟨?_, hdocument.space, List.forall_mem_nil _, List.forall_mem_nil _⟩, ?_, ?_⟩
  · exact Name.isValid_of_isSegment (hdocument.types decl hdecl).1
  · intro field hmem
    obtain ⟨property, hproperty, hfield⟩ := exists_of_forall₂_right hfields hmem
    obtain ⟨-, shape, rfl, -⟩ := synthesize_eq_ok_iff.mp hfield
    have hname : Name.isSegment property.name = true :=
      hdocument.properties decl hdecl property hproperty
    exact ⟨hname, List.forall_mem_nil _, List.forall_mem_nil _⟩
  · rw [Registry.FieldOfProperty.names_eq hfields]
    exact hnodup

/-- Every node of a registered schema of a simple document is plain, or registered itself. -/
theorem Declares.plain_or_carried
    (h : Declares document.space settings {} document.types types final)
    (hdocument : document.Simple) (hschema : Carried types schema) :
    AllNodes (fun node => node.Plain ∨ node.WellBuilt ∧ Carried types node) schema := by
  refine h.forall_carried ?_ hschema
  intro earlier decl record hdecl hearlier hrecord hmem
  refine allNodes_recordOf (fun _ => .inl) ?_ hearlier hrecord ?_
  · intro found hfound
    have hnodes := hdocument.overrides found ⟨decl, hdecl, hfound⟩
    obtain ⟨property, -, text, -, hparse⟩ := hfound
    exact (Schema.plain_of_parse hparse hnodes).imp fun _ => .inl
  · exact .inr ⟨wellBuilt_of_recordOf hdocument hdecl hrecord, _, hmem, rfl⟩

/-- A named type in a registered schema of a simple document is the record of a declared type. -/
theorem Declares.exists_decl_of_head
    (h : Declares document.space settings {} document.types types final)
    (hdocument : document.Simple) (hschema : Carried types schema) {path : List String}
    {head : TypeHead} (hnode : Occurs path node schema) (hhead : node.head? = some head) :
    Carried types node ∧ ∃ decl ∈ document.types,
      head = { name := decl.name, space := document.space, doc := decl.doc } := by
  have hcarried : Carried types node := by
    rcases h.plain_or_carried hdocument hschema path node hnode with hplain | ⟨-, hcarried⟩
    · rw [hplain.head?_eq_none] at hhead
      cases hhead
    · exact hcarried
  obtain ⟨decl, hdecl, ⟨earlier, hrecord⟩, -⟩ := h.exists_decl hcarried
  rw [head?_of_recordOf hrecord, Option.some.injEq] at hhead
  exact ⟨hcarried, decl, hdecl, hhead.symm⟩

theorem Declares.selfContained
    (h : Declares document.space settings {} document.types types final)
    (hdocument : document.Simple) (hschema : Carried types schema) : schema.SelfContained := by
  constructor
  case wellBuilt =>
    intro path node hnode
    rcases h.plain_or_carried hdocument hschema path node hnode with hplain | ⟨hbuilt, -⟩
    · exact hplain.wellBuilt
    · exact hbuilt
  case noRef =>
    intro path name hnode
    rcases h.plain_or_carried hdocument hschema path _ hnode with hplain | ⟨-, hcarried⟩
    · cases hplain.unnamed
    · obtain ⟨decl, -, ⟨earlier, hrecord⟩, -⟩ := h.exists_decl hcarried
      cases head?_of_recordOf hrecord
  case segment =>
    intro path node head hnode hhead
    obtain ⟨-, decl, hdecl, rfl⟩ := h.exists_decl_of_head hdocument hschema hnode hhead
    exact (hdocument.types decl hdecl).1
  case noPrimitive =>
    intro path node head hnode hhead
    obtain ⟨-, decl, hdecl, rfl⟩ := h.exists_decl_of_head hdocument hschema hnode hhead
    exact (hdocument.types decl hdecl).2
  case agree =>
    intro fullName node other hnode hother
    have hfull : node.fullName? = other.fullName? :=
      hnode.fullName?_eq.trans hother.fullName?_eq.symm
    obtain ⟨⟨path, hoccurs⟩, head, hhead, -⟩ := hnode
    obtain ⟨⟨otherPath, hotherOccurs⟩, otherHead, hotherHead, -⟩ := hother
    obtain ⟨hcarried, -⟩ := h.exists_decl_of_head hdocument hschema hoccurs hhead
    obtain ⟨hotherCarried, -⟩ := h.exists_decl_of_head hdocument hschema hotherOccurs hotherHead
    exact h.eq_of_fullName hdocument.names hcarried hotherCarried hfull
  case distinct =>
    rintro first second node other ⟨⟨path, hnode⟩, head, hhead, rfl⟩
      ⟨⟨otherPath, hother⟩, otherHead, hotherHead, rfl⟩ hne hlast
    obtain ⟨-, decl, hdecl, rfl⟩ := h.exists_decl_of_head hdocument hschema hnode hhead
    obtain ⟨-, otherDecl, hotherDecl, rfl⟩ :=
      h.exists_decl_of_head hdocument hschema hother hotherHead
    have hsame : decl.name = otherDecl.name := by
      rw [← hdocument.last_full hdecl, ← hdocument.last_full hotherDecl]
      exact hlast
    apply hne
    rw [TypeHead.fullName, TypeHead.fullName, hsame]

/-- Every schema that a simple document registers is written as a value that is read as the
schema. -/
theorem write_read_declareAll (hdocument : document.Simple)
    (h : (Registry.declareAll {} settings document).1 = .ok types) :
    ∀ type ∈ types, ∃ schema json, type.schema? = some schema ∧ schema.toJson = .ok json ∧
      Schema.ofJson json = .ok schema := by
  intro type htype
  have hdeclares := declares_of_ok h
  obtain ⟨decl, -, earlier, schema, -, rfl⟩ := exists_of_forall₂_right hdeclares.records htype
  have hcontained := hdeclares.selfContained hdocument ⟨_, htype, rfl⟩
  obtain ⟨json, scope, hwrites, hreads, -⟩ :=
    hcontained.rewritable schema [] .here [] {} none (Schema.known_empty schema)
      (by simp [Schema.Around]) (by decide)
  exact ⟨schema, json, rfl, Schema.toJson_eq_ok_iff.mpr ⟨_, hwrites⟩,
    Schema.ofJson_eq_ok_iff.mpr ⟨_, hreads⟩⟩

/-- A document in a namespace whose second type uses the first one three times, and overrides the
type of a property. -/
def nestingDocument : Declarations :=
  { space := some "a"
    types := [
      { name := "L", properties := [{ name := "x", type := some (.string "Long") }] },
      { name := "T"
        doc := some "Two leaves, and more."
        properties := [{ name := "l", type := some (.string "L") },
          { name := "r", type := some (.string "L") },
          { name := "m", type := some (.string "L[]") }, { name := "o" }]
        notes := [.schemaOverride "o" "\"long\""] }] }

/-- The record of the first type of `nestingDocument`. -/
def leafRecord : Schema :=
  .record { name := "L", space := some "a" } false
    [{ name := "x", schema := .nullable (.ofKind .long), defaultValue := some .null }]

/-- The record of the second type of `nestingDocument`. -/
def branchRecord : Schema :=
  .record { name := "T", space := some "a", doc := some "Two leaves, and more." } false
    [{ name := "l", schema := leafRecord }, { name := "r", schema := leafRecord },
      { name := "m", schema := .arrayOf leafRecord }, { name := "o", schema := .ofKind .long }]

/-- What the record of the first type is written as. -/
def leafJson : Json :=
  .obj [("type", .str "record"), ("name", .str "L"), ("namespace", .str "a"),
    ("fields", .arr [.obj [("name", .str "x"), ("type", .arr [.str "null", .str "long"]),
      ("default", .null)]])]

/-- What the record of the second type is written as: the first one is defined in place, in the
namespace around it, and mentioned from then on. -/
def branchJson : Json :=
  .obj [("type", .str "record"), ("name", .str "T"), ("namespace", .str "a"),
    ("doc", .str "Two leaves, and more."),
    ("fields", .arr [
      .obj [("name", .str "l"), ("type", .obj [("type", .str "record"), ("name", .str "L"),
        ("fields", .arr [.obj [("name", .str "x"), ("type", .arr [.str "null", .str "long"]),
          ("default", .null)]])])],
      .obj [("name", .str "r"), ("type", .str "L")],
      .obj [("name", .str "m"), ("type", .obj [("type", .str "array"), ("items", .str "L")])],
      .obj [("name", .str "o"), ("type", .str "long")]])]

theorem write_read_declareAll_nestingDocument :
    (Registry.declareAll {} {} nestingDocument).1 =
        .ok [⟨"L", .avro leafRecord⟩, ⟨"T", .avro branchRecord⟩] ∧
      (leafRecord.toJson = .ok leafJson ∧ Schema.ofJson leafJson = .ok leafRecord) ∧
      branchRecord.toJson = .ok branchJson ∧ Schema.ofJson branchJson = .ok branchRecord := by
  have hparse : Schema.parse "\"long\"" = .ok (.ofKind .long) := by decide +kernel
  have hsimple : nestingDocument.Simple := by
    refine ⟨?_, by decide, by decide, ?_⟩
    · rintro space ⟨⟩
      decide
    · rintro found ⟨decl, hdecl, property, hproperty, text, htext, hfound⟩
      have htexts : ∀ decl ∈ nestingDocument.types, ∀ property ∈ decl.properties,
          ∀ text ∈ findOverride? decl.notes property.name, text = "\"long\"" := by decide
      rw [htexts decl hdecl property hproperty text htext, hparse] at hfound
      rw [← Except.ok.inj hfound]
      exact Schema.allNodes_primitive.mpr rfl
  have h : (Registry.declareAll {} {} nestingDocument).1 =
      .ok [⟨"L", .avro leafRecord⟩, ⟨"T", .avro branchRecord⟩] := by decide +kernel
  have hleaf : leafRecord.toJson = .ok leafJson := rfl
  have hbranch : branchRecord.toJson = .ok branchJson := rfl
  have hagain : ∀ {name schema json}, ⟨name, .avro schema⟩ ∈
      [⟨"L", .avro leafRecord⟩, (⟨"T", .avro branchRecord⟩ : EventType)] →
      schema.toJson = .ok json → Schema.ofJson json = .ok schema := by
    intro name schema json hmem hjson
    obtain ⟨found, written, hfound, hwritten, hread⟩ := write_read_declareAll hsimple h _ hmem
    cases hfound
    rw [hjson, Except.ok.injEq] at hwritten
    rw [hwritten]
    exact hread
  exact ⟨h, ⟨hleaf, hagain List.mem_cons_self hleaf⟩, hbranch,
    hagain (List.mem_cons_of_mem _ List.mem_cons_self) hbranch⟩

end Runs

end EventSchema
