import EventSchema.Proofs.Declared
import EventSchema.Proofs.TypeStrings

/-!
# Referring to declared types

A declared type is embedded where a type string names it.  The main statement
says for which names: the string of a legal name embeds the type exactly if no
class has the name and it is not `null`, and the string with an array marker
embeds an array of it exactly if no class has the name.
-/

namespace EventSchema

namespace Registry

/-- A registry that declaring types one after the other leads to, in any namespaces and under any
settings. -/
inductive Reached : Registry → Prop
  | empty : Reached {}
  | declare {registry space settings decl type next} (h : Reached registry)
      (hdeclare : registry.declareType space settings decl = .ok (type, next)) : Reached next

section Reached

variable {registry : Registry} {type : EventType}

theorem reached_declareTypes {space : Option String} {settings : Settings}
    {decls : List TypeDecl} (h : registry.Reached) :
    (registry.declareTypes space settings decls).2.Reached := by
  induction decls generalizing registry with
  | nil => exact h
  | cons decl rest ih =>
      rw [declareTypes_cons]
      split
      next => exact h
      next type next hdeclare => exact ih (.declare h hdeclare)

/-- Declaring a document, whether it fails or not, leads from a reached registry to one. -/
theorem reached_declareAll {settings : Settings} {document : Declarations}
    (h : registry.Reached) : (registry.declareAll settings document).2.Reached :=
  reached_declareTypes h

theorem Reached.nodup (h : registry.Reached) : registry.names.Nodup := by
  induction h with
  | empty => exact List.nodup_nil
  | declare _ hdeclare ih =>
      obtain ⟨schema, -, hnew, -, rfl⟩ := declareType_eq_ok_iff.mp hdeclare
      exact nodup_register ih hnew

/-- Every type of a reached registry carries a record. -/
theorem Reached.exists_record (h : registry.Reached) (hmem : type ∈ registry.types) :
    ∃ head fields, type.schema? = some (.record head false fields) := by
  induction h with
  | empty => cases hmem
  | declare _ hdeclare ih =>
      obtain ⟨schema, hrecord, -, -, rfl⟩ := declareType_eq_ok_iff.mp hdeclare
      rcases List.mem_append.mp hmem with hearlier | hlast
      · exact ih hearlier
      · obtain ⟨fields, -, -, rfl⟩ := recordOf_eq_ok_iff.mp hrecord
        rw [List.mem_singleton.mp hlast]
        exact ⟨_, fields, rfl⟩

/-- In a registry of distinct names each type is found under its name. -/
theorem resolve?_of_mem (hnodup : registry.names.Nodup) (hmem : type ∈ registry.types) :
    registry.resolve? type.name = some type := by
  obtain ⟨found, hfound⟩ : ∃ found, registry.resolve? type.name = some found := by
    rw [← Option.isSome_iff_exists, resolve?, List.find?_isSome]
    exact ⟨type, hmem, decide_eq_true rfl⟩
  have hname : found.name = type.name := by
    rw [resolve?] at hfound
    simpa using List.find?_some hfound
  have hsame := List.inj_on_of_nodup_map hnodup (List.mem_of_find?_eq_some hfound) hmem hname
  rw [hfound, hsame]

end Reached

end Registry

/-! ## Properties that name a type -/

section Properties

variable {registry : Registry} {property text : String} {notes : List Note}
  {settings : Settings} {schema : Schema}

/-- Without an override, a property has a required field exactly of what its type gives. -/
theorem synthesize_required_iff {type : PropertyType} (hproperty : Name.isDotted property = false)
    (hnotes : findOverride? notes property = none) :
    synthesize property type notes settings registry = .ok { name := property, schema } ↔
      shapeOfType property type settings registry = .ok (.required schema) := by
  rw [synthesize_eq_ok_iff]
  constructor
  · rintro ⟨-, shape, hfield, ⟨text, -, htext, -⟩ | ⟨-, hshape⟩⟩
    · rw [hnotes] at htext
      cases htext
    · obtain ⟨found, foundDefault⟩ := shape
      cases hfield
      exact hshape
  · intro hshape
    exact ⟨hproperty, .required schema, rfl, .inr ⟨hnotes, hshape⟩⟩

/-- No class gives a schema that has a record in it. -/
theorem shapeOfType_value_ne {value : ClassType} {path : List String} {head : TypeHead}
    {isError : Bool} {fields : List Field}
    (hrecord : Schema.Occurs path (.record head isError fields) schema) :
    shapeOfType property (.value value) settings registry ≠ .ok (.required schema) := by
  intro h
  rw [shapeOfType] at h
  split at h
  next shape hshape =>
    cases h
    have hplain := plain_classShape hshape path _ hrecord
    cases hplain.unnamed
  next => cases h

/-- A type string gives a schema with a record in it exactly if no class has the string and the
schema is registered under it. -/
theorem shapeOfType_ofName_iff {path : List String} {head : TypeHead} {isError : Bool}
    {fields : List Field} (hblank : ∀ c ∈ text.toList, isBlank c = false)
    (hnull : text ≠ "null") (hrecord : Schema.Occurs path (.record head isError fields) schema) :
    shapeOfType property (.ofName text) settings registry = .ok (.required schema) ↔
      ClassType.ofName? text = none ∧ namedSchema? registry text = some schema := by
  cases hclass : ClassType.ofName? text with
  | some value =>
      rw [PropertyType.ofName_of_class hblank hnull hclass]
      refine iff_of_false (shapeOfType_value_ne hrecord) ?_
      rintro ⟨hnone, -⟩
      cases hnone
  | none =>
      rw [PropertyType.ofName_of_none hblank hnull hclass, shapeOfType]
      cases namedSchema? registry text with
      | none => simp
      | some found => simp [FieldShape.required]

end Properties

section Names

variable {registry : Registry} {type : EventType} {property : String} {notes : List Note}
  {settings : Settings}

theorem namedSchema?_unmarked (hname : stripArrayMarker type.name = (type.name, false))
    (hresolve : registry.resolve? type.name = some type) :
    namedSchema? registry type.name = type.schema? := by
  rw [namedSchema?, hname]
  dsimp only
  rw [hresolve, Option.bind_some]
  simp

theorem namedSchema?_name (hname : Name.isValid type.name = true)
    (hresolve : registry.resolve? type.name = some type) :
    namedSchema? registry type.name = type.schema? :=
  namedSchema?_unmarked (stripArrayMarker_of_notMem (Name.bracket_notMem_of_isValid hname)) hresolve

theorem namedSchema?_marked (hresolve : registry.resolve? type.name = some type) :
    namedSchema? registry (type.name ++ arrayMarker) = type.schema?.map Schema.arrayOf := by
  rw [namedSchema?, stripArrayMarker_marked]
  dsimp only
  rw [hresolve, Option.bind_some]
  simp

/-- In a registry that declaring types leads to, a property whose type string is the legal name of
a registered type embeds the type's schema exactly if no class has the name and it is not `null`.
With an array marker after the name, the property embeds an array of the schema exactly if no class
has the name. -/
theorem synthesize_name_iff (hregistry : registry.Reached) (htype : type ∈ registry.types)
    (hname : Name.isValid type.name = true) (hproperty : Name.isDotted property = false)
    (hnotes : findOverride? notes property = none) :
    ∃ schema, type.schema? = some schema ∧
      (synthesize property (TypeSpec.string type.name).toType notes settings registry =
          .ok { name := property, schema } ↔
        PropertyType.Free type.name ∧ type.name ≠ "null") ∧
      (synthesize property (TypeSpec.string (type.name ++ arrayMarker)).toType notes settings
          registry = .ok { name := property, schema := .arrayOf schema } ↔
        PropertyType.Free type.name) := by
  obtain ⟨head, fields, hschema⟩ := hregistry.exists_record htype
  have hresolve := Registry.resolve?_of_mem hregistry.nodup htype
  have hfree := PropertyType.ofName?_eq_none_iff hname
  refine ⟨_, hschema, ?_, ?_⟩
  · rw [synthesize_required_iff hproperty hnotes, TypeSpec.toType]
    by_cases hnull : type.name = "null"
    · rw [hnull]
      refine iff_of_false ?_ ?_
      · rintro ⟨⟩
      · rintro ⟨-, hne⟩
        exact hne rfl
    · have hblank : ∀ c ∈ type.name.toList, isBlank c = false := by
        intro c hmem
        exact Name.isBlank_of_isValid hname hmem
      rw [shapeOfType_ofName_iff hblank hnull .here, hfree, namedSchema?_name hname hresolve]
      simp [hschema, hnull]
  · have hitems : Schema.Occurs [] (.record head false fields)
        (Schema.arrayOf (.record head false fields)) := .items .here
    rw [synthesize_required_iff hproperty hnotes, TypeSpec.toType,
      shapeOfType_ofName_iff (PropertyType.isBlank_marked hname)
        (PropertyType.marked_ne_null type.name) hitems,
      ClassType.ofName?_marked, Option.map_eq_none_iff, hfree, namedSchema?_marked hresolve]
    simp [hschema]

/-- A document that declares a type without properties. -/
def bareDocument (name : String) : Declarations :=
  { types := [{ name, properties := [] }] }

/-- The registry with the type of `bareDocument`. -/
def bareRegistry (name : String) : Registry :=
  (Registry.declareAll {} {} (bareDocument name)).2

/-- The record of the type of `bareDocument`. -/
def bareRecord (name : String) : Schema :=
  .record { name } false []

theorem synthesize_name_bareRegistry :
    synthesize "p" (TypeSpec.string "Point").toType [] {} (bareRegistry "Point") =
        .ok { name := "p", schema := bareRecord "Point" } ∧
      synthesize "p" (TypeSpec.string "Point[]").toType [] {} (bareRegistry "Point") =
        .ok { name := "p", schema := .arrayOf (bareRecord "Point") } := by
  have hregistry : (bareRegistry "Point").Reached := Registry.reached_declareAll .empty
  have htype : ⟨"Point", .avro (bareRecord "Point")⟩ ∈ (bareRegistry "Point").types :=
    List.mem_singleton_self _
  obtain ⟨schema, hschema, hname, hmarked⟩ :=
    @synthesize_name_iff _ _ "p" [] {} hregistry htype (by decide) (by decide) rfl
  cases hschema
  exact ⟨hname.mpr (by decide), hmarked.mpr (by decide)⟩

/-- The type of `bareDocument` is registered under a legal name, but a property whose type string
is the name does not embed it. -/
def Shadowed (name : String) : Prop :=
  (bareRegistry name).Reached ∧ ⟨name, .avro (bareRecord name)⟩ ∈ (bareRegistry name).types ∧
    Name.isValid name = true ∧
    synthesize "p" (TypeSpec.string name).toType [] {} (bareRegistry name) ≠
      .ok { name := "p", schema := bareRecord name }

theorem shadowed_of_ne {name : String}
    (htype : ⟨name, .avro (bareRecord name)⟩ ∈ (bareRegistry name).types)
    (hname : Name.isValid name = true)
    (hne : synthesize "p" (TypeSpec.string name).toType [] {} (bareRegistry name) ≠
      .ok { name := "p", schema := bareRecord name }) : Shadowed name :=
  ⟨Registry.reached_declareAll .empty, htype, hname, hne⟩

/-- Types called as a class, as no type and with a point are shadowed. -/
theorem shadowed_by_meaning : Shadowed "String" ∧ Shadowed "null" ∧ Shadowed "a.B" := by
  refine ⟨shadowed_of_ne (List.mem_singleton_self _) (by decide) ?_,
    shadowed_of_ne (List.mem_singleton_self _) (by decide) ?_,
    shadowed_of_ne (List.mem_singleton_self _) (by decide) ?_⟩
  · have hclass : synthesize "p" (TypeSpec.string "String").toType [] {} (bareRegistry "String") =
        .ok { name := "p", schema := .nullable (.string false), defaultValue := some .null } :=
      rfl
    rw [hclass]
    rintro ⟨⟩
  · have hnull : synthesize "p" (TypeSpec.string "null").toType [] {} (bareRegistry "null") =
        .ok { name := "p", schema := .ofKind .null } := rfl
    rw [hnull]
    rintro ⟨⟩
  · have hother : synthesize "p" (TypeSpec.string "a.B").toType [] {} (bareRegistry "a.B") =
        .error (.unmappableType "p" "a.B") := rfl
    rw [hother]
    rintro ⟨⟩

end Names

end EventSchema
