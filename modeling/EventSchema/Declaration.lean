import EventSchema.Field.Synthesis

/-!
# Declaring types

A document declares types one after the other.  Each becomes a record, built
field by field, and is registered under its name, so that later ones can refer
to it.
-/

namespace EventSchema

/-- Fields collected in order. -/
structure Collector where
  fields : List Field := []

namespace Collector

/-- Adds a field at the end. -/
def push (collector : Collector) (field : Field) : Collector :=
  { fields := collector.fields ++ [field] }

/-- The names of the fields, in order. -/
def names (collector : Collector) : List String :=
  collector.fields.map FieldOf.name

/-- Whether there is a field of the name. -/
def contains (collector : Collector) (name : String) : Bool :=
  name ∈ collector.names

/-- Adds the field of a property, if it has one: what comes of it, and the collector after it. -/
def tryCollect (collector : Collector) (property : String) (type : PropertyType)
    (notes : List Note) (settings : Settings) (registry : Registry) :
    Except SynthesisError Unit × Collector :=
  match synthesize property type notes settings registry with
  | .error cause => (.error cause, collector)
  | .ok field => (.ok (), collector.push field)

/-- The collector with the field of a property. -/
def collect (collector : Collector) (property : String) (type : PropertyType)
    (notes : List Note) (settings : Settings) (registry : Registry) :
    Except SynthesisError Collector :=
  let (outcome, next) := collector.tryCollect property type notes settings registry
  outcome.map fun _ => next

section Lemmas

variable {collector : Collector} {property : String} {type : PropertyType} {notes : List Note}
  {settings : Settings} {registry : Registry}

theorem collect_eq : collector.collect property type notes settings registry = do
    return collector.push (← synthesize property type notes settings registry) := by
  rw [collect, tryCollect]
  cases synthesize property type notes settings registry <;> rfl

/-- A property without a field leaves the collector as it was. -/
theorem tryCollect_of_error {cause : SynthesisError}
    (h : (collector.tryCollect property type notes settings registry).1 = .error cause) :
    (collector.tryCollect property type notes settings registry).2 = collector := by
  rw [tryCollect] at h ⊢
  split
  next => rfl
  next hfield =>
    rw [hfield] at h
    cases h

end Lemmas

end Collector

/-- A record that is being built. -/
structure RecordDraft where
  name : String
  space : Option String := none
  doc : Option String := none
  collector : Collector := {}

namespace RecordDraft

/-- Adds the field of a property; a record has at most one field of a name.  What comes of it, and
the draft after it. -/
def tryAdd (draft : RecordDraft) (property : String) (type : PropertyType)
    (notes : List Note) (settings : Settings) (registry : Registry) :
    Except SynthesisError Unit × RecordDraft :=
  if draft.collector.contains property then (.error (.duplicateField draft.name property), draft)
  else
    let (outcome, collector) := draft.collector.tryCollect property type notes settings registry
    (outcome, { draft with collector })

/-- The draft with the field of a property. -/
def add (draft : RecordDraft) (property : String) (type : PropertyType)
    (notes : List Note) (settings : Settings) (registry : Registry) :
    Except SynthesisError RecordDraft :=
  let (outcome, next) := draft.tryAdd property type notes settings registry
  outcome.map fun _ => next

/-- The record with the fields added so far. -/
def finish (draft : RecordDraft) : Schema :=
  .record { name := draft.name, space := draft.space, doc := draft.doc } false
    draft.collector.fields

section Lemmas

variable {draft : RecordDraft} {property : String} {type : PropertyType} {notes : List Note}
  {settings : Settings} {registry : Registry}

theorem add_eq : draft.add property type notes settings registry =
    if draft.collector.contains property then .error (.duplicateField draft.name property)
    else do
      let collector ← draft.collector.collect property type notes settings registry
      return { draft with collector } := by
  rw [add, tryAdd]
  by_cases hmem : draft.collector.contains property
  · rw [if_pos hmem, if_pos hmem]
    rfl
  · rw [if_neg hmem, if_neg hmem, Collector.collect]
    dsimp only
    cases (draft.collector.tryCollect property type notes settings registry).1 <;> rfl

/-- A property that fails leaves the draft as it was. -/
theorem tryAdd_of_error {cause : SynthesisError}
    (h : (draft.tryAdd property type notes settings registry).1 = .error cause) :
    (draft.tryAdd property type notes settings registry).2 = draft := by
  rw [tryAdd] at h ⊢
  split
  next => rfl
  next hnew =>
    rw [if_neg hnew] at h
    dsimp only at h ⊢
    rw [Collector.tryCollect_of_error h]

end Lemmas

end RecordDraft

/-- A property as a document declares it. -/
structure PropertyDecl where
  name : String
  type : Option TypeSpec := none

/-- A type as a document declares it. -/
structure TypeDecl where
  name : String
  doc : Option String := none
  properties : List PropertyDecl
  notes : List Note := []

/-- A document. -/
structure Declarations where
  space : Option String := none
  /-- Settings of the document, which replace the ones it is declared under. -/
  settings : Option Settings := none
  types : List TypeDecl

namespace Registry

/-- Registers an event type; a name is registered once.  What comes of it, and the registry after
it. -/
def tryRegister (registry : Registry) (type : EventType) : Except SynthesisError Unit × Registry :=
  if type.name ∈ registry.names then (.error (.duplicateType type.name), registry)
  else (.ok (), { types := registry.types ++ [type] })

/-- The registry with an event type. -/
def register (registry : Registry) (type : EventType) : Except SynthesisError Registry :=
  let (outcome, next) := registry.tryRegister type
  outcome.map fun _ => next

/-- The record of a declared type. -/
def recordOf (registry : Registry) (space : Option String) (settings : Settings)
    (decl : TypeDecl) : Except SynthesisError Schema := do
  let draft : RecordDraft := { name := decl.name, space, doc := decl.doc }
  let draft ← decl.properties.foldlM
    (fun draft property =>
      draft.add property.name (TypeSpec.toType? property.type) decl.notes settings registry)
    draft
  return draft.finish

/-- Declares a type: builds its record and registers it.  What comes of it, and the registry after
it. -/
def tryDeclare (registry : Registry) (space : Option String) (settings : Settings)
    (decl : TypeDecl) : Except SynthesisError EventType × Registry :=
  match registry.recordOf space settings decl with
  | .error cause => (.error cause, registry)
  | .ok schema =>
    let type : EventType := { name := decl.name, representation := .avro schema }
    let (outcome, next) := registry.tryRegister type
    (outcome.map fun _ => type, next)

/-- A declared type, and the registry with it. -/
def declareType (registry : Registry) (space : Option String) (settings : Settings)
    (decl : TypeDecl) : Except SynthesisError (EventType × Registry) :=
  let (outcome, next) := registry.tryDeclare space settings decl
  outcome.map fun type => (type, next)

/-- Declares types in order up to the first failure.  The result holds the types declared and
the registry at the end, together with the failure if there was one. -/
def declareTypes (registry : Registry) (space : Option String) (settings : Settings) :
    List TypeDecl → Except SynthesisError (List EventType) × Registry
  | [] => (.ok [], registry)
  | decl :: rest =>
    match registry.tryDeclare space settings decl with
    | (.error error, registry) => (.error error, registry)
    | (.ok type, registry) =>
      let (outcome, registry) := registry.declareTypes space settings rest
      (outcome.map (type :: ·), registry)

/-- Declares every type of a document, under the document's own settings if it has some. -/
def declareAll (registry : Registry) (settings : Settings) (document : Declarations) :
    Except SynthesisError (List EventType) × Registry :=
  registry.declareTypes document.space (document.settings.getD settings) document.types

section Lemmas

variable {registry : Registry} {type : EventType} {space : Option String} {settings : Settings}
  {decl : TypeDecl} {cause : SynthesisError}

theorem register_eq : registry.register type =
    if type.name ∈ registry.names then .error (.duplicateType type.name)
    else .ok { types := registry.types ++ [type] } := by
  rw [register, tryRegister]
  by_cases hmem : type.name ∈ registry.names
  · rw [if_pos hmem, if_pos hmem]
    rfl
  · rw [if_neg hmem, if_neg hmem]
    rfl

/-- A type that is refused leaves the registry as it was. -/
theorem tryRegister_of_error (h : (registry.tryRegister type).1 = .error cause) :
    (registry.tryRegister type).2 = registry := by
  rw [tryRegister] at h ⊢
  split
  next => rfl
  next hnew =>
    rw [if_neg hnew] at h
    cases h

theorem declareType_eq : registry.declareType space settings decl = do
    let schema ← registry.recordOf space settings decl
    let type : EventType := { name := decl.name, representation := .avro schema }
    return (type, ← registry.register type) := by
  rw [declareType, tryDeclare]
  cases registry.recordOf space settings decl with
  | error cause => rfl
  | ok schema =>
      change _ = (registry.register _).bind fun next => .ok (_, next)
      rw [register]
      dsimp only
      cases (registry.tryRegister ⟨decl.name, .avro schema⟩).1 <;> rfl

/-- A type that fails leaves the registry as it was. -/
theorem tryDeclare_of_error (h : (registry.tryDeclare space settings decl).1 = .error cause) :
    (registry.tryDeclare space settings decl).2 = registry := by
  rw [tryDeclare] at h ⊢
  cases hrecord : registry.recordOf space settings decl with
  | error cause => rfl
  | ok schema =>
      rw [hrecord] at h
      dsimp only at h ⊢
      cases houtcome : (registry.tryRegister ⟨decl.name, .avro schema⟩).1 with
      | error cause => exact tryRegister_of_error houtcome
      | ok _ =>
          rw [houtcome] at h
          cases h

theorem declareTypes_cons (registry : Registry) (space : Option String) (settings : Settings)
    (decl : TypeDecl) (rest : List TypeDecl) :
    registry.declareTypes space settings (decl :: rest) =
      match registry.declareType space settings decl with
      | .error cause => (.error cause, registry)
      | .ok (type, next) =>
        let (outcome, final) := next.declareTypes space settings rest
        (outcome.map (type :: ·), final) := by
  rw [declareTypes, declareType]
  cases hcall : registry.tryDeclare space settings decl with
  | mk outcome next =>
      cases outcome with
      | ok type => rfl
      | error cause =>
          have hnext := @tryDeclare_of_error registry space settings decl cause
          rw [hcall] at hnext
          rw [← hnext rfl]
          rfl

end Lemmas

end Registry

end EventSchema
