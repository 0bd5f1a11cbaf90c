import EventSchema.Proofs.Runs
import EventSchema.Proofs.Shapes

/-!
# Event types by name and by handle

A property can refer to an event type by the name that it is registered under, or
hold the event type itself.  The main statement says that this makes no
difference to the field of the property, for one event as for an array of events,
and to whether there is one; only the errors differ.
-/

namespace EventSchema

section References

variable {registry : Registry} {type : EventType} {property : String} {notes : List Note}

/-- The field of a property that refers to an event type: its schema, or an array of it, or an
error for a type without a schema. -/
def EventType.fieldOr (type : EventType) (property : String) (embed : Schema → Schema)
    (error : SynthesisError) : Except SynthesisError Field :=
  match type.schema? with
  | some schema => .ok { name := property, schema := embed schema }
  | none => .error error

theorem fieldOr_eq_ok_iff {embed : Schema → Schema} {error : SynthesisError} {field : Field} :
    type.fieldOr property embed error = .ok field ↔
      ∃ schema, type.schema? = some schema ∧
        field = { name := property, schema := embed schema } := by
  rw [EventType.fieldOr]
  cases type.schema? with
  | none => simp
  | some schema => simp [eq_comm]

theorem fieldOr_eq_error_iff {embed : Schema → Schema} {error cause : SynthesisError} :
    type.fieldOr property embed error = .error cause ↔
      type.bearsSchema = false ∧ cause = error := by
  rw [EventType.fieldOr, EventType.bearsSchema]
  cases type.schema? with
  | none => simp [eq_comm]
  | some schema => simp

variable (hproperty : Name.isDotted property = false) (hnotes : findOverride? notes property = none)

include hproperty hnotes

theorem synthesize_event (type : EventType) (settings : Settings) (registry : Registry) :
    synthesize property (.event type) notes settings registry =
      type.fieldOr property id (.notAnEventType type.representation.underlying) := by
  rw [synthesize_eq_map hproperty hnotes, shapeOfType, eventSchema, EventType.fieldOr]
  cases type.schema? <;> rfl

theorem synthesize_eventArray (type : EventType) (others : List EventType) (settings : Settings)
    (registry : Registry) :
    synthesize property (.eventArray (type :: others)) notes settings registry =
      type.fieldOr property Schema.arrayOf (.notAnEventType type.representation.underlying) := by
  rw [synthesize_eq_map hproperty hnotes, shapeOfType, eventSchema, EventType.fieldOr]
  cases type.schema? <;> rfl

theorem synthesize_named (hname : stripArrayMarker type.name = (type.name, false))
    (hresolve : registry.resolve? type.name = some type) (settings : Settings) :
    synthesize property (.named type.name) notes settings registry =
      type.fieldOr property id (.unmappableType property type.name) := by
  rw [synthesize_eq_map hproperty hnotes, shapeOfType, namedSchema?_unmarked hname hresolve,
    EventType.fieldOr]
  cases type.schema? <;> rfl

theorem synthesize_named_marked (hresolve : registry.resolve? type.name = some type)
    (settings : Settings) :
    synthesize property (.named (type.name ++ arrayMarker)) notes settings registry =
      type.fieldOr property Schema.arrayOf
        (.unmappableType property (type.name ++ arrayMarker)) := by
  rw [synthesize_eq_map hproperty hnotes, shapeOfType, namedSchema?_marked hresolve,
    EventType.fieldOr]
  cases type.schema? <;> rfl

/-- In a registry that any calls lead to, a property that names a registered type has the field of
a property that holds the type, the type's schema without a default; and one that names the type
with an array marker has the field of an array of events of the type, whatever events follow the
first.  This is for names that do not end in a marker themselves.  The properties have no field
exactly if the type carries no schema: a name is then a type without a mapping, and the type itself
is no event type. -/
theorem synthesize_named_iff (calls : List Registry.Call)
    (htype : type ∈ (Registry.run {} calls).types)
    (hname : ¬ arrayMarker.toList <:+ type.name.toList) (settings : Settings)
    (others : List EventType) :
    (∀ field,
      (synthesize property (.named type.name) notes settings (.run {} calls) = .ok field ↔
        synthesize property (.event type) notes settings (.run {} calls) = .ok field) ∧
      (synthesize property (.event type) notes settings (.run {} calls) = .ok field ↔
        ∃ schema, type.schema? = some schema ∧ field = { name := property, schema }) ∧
      (synthesize property (.named (type.name ++ arrayMarker)) notes settings (.run {} calls) =
          .ok field ↔
        synthesize property (.eventArray (type :: others)) notes settings (.run {} calls) =
          .ok field) ∧
      (synthesize property (.eventArray (type :: others)) notes settings (.run {} calls) =
          .ok field ↔
        ∃ schema, type.schema? = some schema ∧
          field = { name := property, schema := .arrayOf schema })) ∧
    ∀ cause,
      (synthesize property (.named type.name) notes settings (.run {} calls) = .error cause ↔
        type.bearsSchema = false ∧ cause = .unmappableType property type.name) ∧
      (synthesize property (.named (type.name ++ arrayMarker)) notes settings (.run {} calls) =
          .error cause ↔
        type.bearsSchema = false ∧ cause = .unmappableType property (type.name ++ arrayMarker)) ∧
      (synthesize property (.event type) notes settings (.run {} calls) = .error cause ↔
        type.bearsSchema = false ∧ cause = .notAnEventType type.representation.underlying) ∧
      (synthesize property (.eventArray (type :: others)) notes settings (.run {} calls) =
          .error cause ↔
        type.bearsSchema = false ∧ cause = .notAnEventType type.representation.underlying) := by
  have hempty : ({} : Registry).names.Nodup := List.nodup_nil
  have hresolve : (Registry.run {} calls).resolve? type.name = some type :=
    Registry.resolve?_of_mem (Registry.nodup_run hempty calls) htype
  have hunmarked := stripArrayMarker_of_not_suffix hname
  rw [synthesize_named hproperty hnotes hunmarked hresolve,
    synthesize_named_marked hproperty hnotes hresolve, synthesize_event hproperty hnotes,
    synthesize_eventArray hproperty hnotes]
  constructor
  · intro field
    simp only [fieldOr_eq_ok_iff, id, and_self]
  · intro cause
    exact ⟨fieldOr_eq_error_iff, fieldOr_eq_error_iff, fieldOr_eq_error_iff, fieldOr_eq_error_iff⟩

end References

/-- A type with a schema and one without, whose names hold an array marker that does not end
them. -/
def markedCalls : List Registry.Call :=
  [.register ⟨"a[]b", .avro (.ofKind .int)⟩, .register ⟨"c[]d", .bean "acme.Event"⟩]

theorem synthesize_named_markedCalls :
    synthesize "p" (.named "a[]b[]") [] {} (.run {} markedCalls) =
        .ok { name := "p", schema := .arrayOf (.ofKind .int) } ∧
      synthesize "p" (.named "c[]d") [] {} (.run {} markedCalls) =
        .error (.unmappableType "p" "c[]d") ∧
      synthesize "p" (.event ⟨"c[]d", .bean "acme.Event"⟩) [] {} (.run {} markedCalls) =
        .error (.notAnEventType "acme.Event") := by
  have hfirst : ⟨"a[]b", .avro (.ofKind .int)⟩ ∈ (Registry.run {} markedCalls).types :=
    List.mem_cons_self
  have hsecond : ⟨"c[]d", .bean "acme.Event"⟩ ∈ (Registry.run {} markedCalls).types :=
    List.mem_cons_of_mem _ List.mem_cons_self
  obtain ⟨hfields, -⟩ := @synthesize_named_iff _ "p" [] (by decide) rfl markedCalls hfirst
    (by decide) {} []
  obtain ⟨-, hcauses⟩ := @synthesize_named_iff _ "p" [] (by decide) rfl markedCalls hsecond
    (by decide) {} []
  refine ⟨?_, (hcauses _).1.mpr ⟨rfl, rfl⟩, (hcauses _).2.2.1.mpr ⟨rfl, rfl⟩⟩
  obtain ⟨-, -, hnamed, harray⟩ := hfields { name := "p", schema := .arrayOf (.ofKind .int) }
  exact hnamed.mpr (harray.mpr ⟨_, rfl, rfl⟩)

end EventSchema
