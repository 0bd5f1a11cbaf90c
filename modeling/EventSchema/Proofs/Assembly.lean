import EventSchema.Proofs.Declared

/-!
# Assembling a record

A record is assembled by calls that add the field of a property each.  A call can
fail, because a field of the name is there or because the property has none, and
the calls after it go on.  The main statement says what a record holds after any
calls, namely the fields of those that succeeded, and what the next call returns
and changes.
-/

namespace EventSchema

/-- A call that adds the field of a property to a record. -/
structure Addition where
  property : String
  type : PropertyType
  notes : List Note := []
  settings : Settings := {}
  registry : Registry := {}

/-- What synthesis gives for the property of a call. -/
def Addition.field (addition : Addition) : Except SynthesisError Field :=
  synthesize addition.property addition.type addition.notes addition.settings addition.registry

section Fields

variable {property : String} {type : PropertyType} {notes : List Note} {settings : Settings}
  {registry : Registry} {addition : Addition} {field : Field}

theorem Addition.name_eq (h : addition.field = .ok field) : field.name = addition.property := by
  obtain ⟨-, shape, rfl, -⟩ := synthesize_eq_ok_iff.mp h
  rfl

theorem Addition.isDotted_eq_false (h : addition.field = .ok field) :
    Name.isDotted field.name = false := by
  rw [name_eq h]
  exact (synthesize_eq_ok_iff.mp h).1

theorem Addition.names_eq {additions : List Addition} {fields : List Field}
    (h : List.Forall₂ (fun addition field => addition.field = .ok field) additions fields) :
    fields.map FieldOf.name = additions.map Addition.property := by
  induction h with
  | nil => rfl
  | cons hfield _ ih => rw [List.map_cons, List.map_cons, name_eq hfield, ih]

theorem shapeOfType_ne_duplicateField (record duplicate : String) :
    shapeOfType property type settings registry ≠ .error (.duplicateField record duplicate) := by
  intro h
  cases type with
  | none => cases h
  | named name =>
      rw [shapeOfType] at h
      split at h <;> cases h
  | value value =>
      rw [shapeOfType] at h
      split at h <;> cases h
  | event event =>
      rw [shapeOfType, eventSchema] at h
      cases hschema : event.schema? <;> rw [hschema] at h <;> cases h
  | eventArray events =>
      cases events with
      | nil => cases h
      | cons event rest =>
          rw [shapeOfType, eventSchema] at h
          cases hschema : event.schema? <;> rw [hschema] at h <;> cases h
  | nested properties => cases h

/-- Synthesis knows nothing of other fields. -/
theorem Addition.field_ne_duplicateField (addition : Addition) (record duplicate : String) :
    addition.field ≠ .error (.duplicateField record duplicate) := by
  intro h
  rw [field, synthesize] at h
  split at h
  next => cases h
  next =>
    split at h
    next => split at h <;> cases h
    next =>
      cases hshape : shapeOfType addition.property addition.type addition.settings
          addition.registry with
      | ok shape =>
          rw [hshape] at h
          cases h
      | error cause =>
          rw [hshape] at h
          cases h
          exact shapeOfType_ne_duplicateField record duplicate hshape

end Fields

namespace RecordDraft

/-! ## Calls -/

/-- A record that has no fields yet. -/
def start (name : String) (space doc : Option String) : RecordDraft :=
  { name, space, doc }

/-- What a call returns, and the draft after it. -/
def call (draft : RecordDraft) (addition : Addition) : Except SynthesisError Unit × RecordDraft :=
  draft.tryAdd addition.property addition.type addition.notes addition.settings addition.registry

/-- The draft after calls one after the other, whether they fail or not. -/
def run (draft : RecordDraft) (additions : List Addition) : RecordDraft :=
  additions.foldl (fun draft addition => (draft.call addition).2) draft

/-- Those of calls one after the other that succeed. -/
def succeeding (draft : RecordDraft) : List Addition → List Addition
  | [] => []
  | addition :: rest =>
    match draft.call addition with
    | (.ok _, next) => addition :: next.succeeding rest
    | (.error _, next) => next.succeeding rest

/-- `Effect draft addition outcome next`: what a call may return and leave.  The name is taken, or
the property has no field, or its field is added at the end. -/
inductive Effect (draft : RecordDraft) (addition : Addition) :
    Except SynthesisError Unit → RecordDraft → Prop
  | taken (hmem : addition.property ∈ draft.collector.names) :
      Effect draft addition (.error (.duplicateField draft.name addition.property)) draft
  | refused {cause} (hnew : addition.property ∉ draft.collector.names)
      (hfield : addition.field = .error cause) : Effect draft addition (.error cause) draft
  | added {field} (hnew : addition.property ∉ draft.collector.names)
      (hfield : addition.field = .ok field) :
      Effect draft addition (.ok ()) { draft with collector := draft.collector.push field }

section Calls

variable {draft next : RecordDraft} {addition : Addition} {outcome : Except SynthesisError Unit}
  {done : List Addition}

/-- Every call has one of the effects. -/
theorem effect_call (draft : RecordDraft) (addition : Addition) :
    Effect draft addition (draft.call addition).1 (draft.call addition).2 := by
  rw [call, tryAdd]
  by_cases hmem : addition.property ∈ draft.collector.names
  · rw [Collector.contains, if_pos (decide_eq_true hmem)]
    exact .taken hmem
  · rw [Collector.contains, if_neg (by simpa using hmem), Collector.tryCollect]
    cases hfield : addition.field with
    | error cause =>
        rw [← Addition.field, hfield]
        exact .refused hmem hfield
    | ok field =>
        rw [← Addition.field, hfield]
        exact .added hmem hfield

/-- A call fails because of another field exactly if there is one of the name. -/
theorem Effect.eq_duplicateField_iff (h : Effect draft addition outcome next)
    (record property : String) :
    outcome = .error (.duplicateField record property) ↔
      record = draft.name ∧ property = addition.property ∧
        addition.property ∈ draft.collector.names := by
  cases h with
  | taken hmem => simp [hmem, eq_comm]
  | added hnew => simp [hnew]
  | @refused cause hnew hfield =>
      have hcause : cause ≠ .duplicateField record property := by
        rintro rfl
        exact addition.field_ne_duplicateField record property hfield
      simp [hnew, hcause]

/-- A call for a new name returns what synthesis does. -/
theorem Effect.eq_map (h : Effect draft addition outcome next)
    (hnew : addition.property ∉ draft.collector.names) :
    outcome = addition.field.map fun _ => () := by
  cases h with
  | taken hmem => exact absurd hmem hnew
  | refused _ hfield =>
      rw [hfield]
      rfl
  | added _ hfield =>
      rw [hfield]
      rfl

/-- A call that fails leaves the draft as it was. -/
theorem call_ok_or_same (draft : RecordDraft) (addition : Addition) :
    (draft.call addition).1 = .ok () ∨ (draft.call addition).2 = draft := by
  cases houtcome : (draft.call addition).1 with
  | ok _ => exact .inl rfl
  | error cause => exact .inr (tryAdd_of_error houtcome)

theorem Effect.exists_collector (h : Effect draft addition outcome next) :
    ∃ collector, next = { draft with collector } := by
  cases h with
  | taken | refused => exact ⟨draft.collector, rfl⟩
  | added => exact ⟨_, rfl⟩

/-! ## Runs -/

theorem run_cons (draft : RecordDraft) (addition : Addition) (rest : List Addition) :
    draft.run (addition :: rest) = (draft.call addition).2.run rest :=
  rfl

theorem run_append (draft : RecordDraft) (before after : List Addition) :
    draft.run (before ++ after) = (draft.run before).run after :=
  List.foldl_append

/-- `Collects draft done`: the fields of a draft are those of the given calls, under distinct
names. -/
structure Collects (draft : RecordDraft) (done : List Addition) : Prop where
  fields : List.Forall₂ (fun addition field => addition.field = .ok field) done
    draft.collector.fields
  nodup : draft.collector.names.Nodup

theorem Collects.names_eq (h : Collects draft done) :
    draft.collector.names = done.map Addition.property :=
  Addition.names_eq h.fields

theorem Collects.push {field : Field} (h : Collects draft done)
    (hnew : addition.property ∉ draft.collector.names) (hfield : addition.field = .ok field) :
    Collects { draft with collector := draft.collector.push field } (done ++ [addition]) where
  fields := List.rel_append h.fields (.cons hfield .nil)
  nodup := by
    have hnames : (draft.collector.push field).names =
        draft.collector.names ++ [addition.property] := by
      rw [Collector.names, Collector.push, List.map_append, ← Addition.name_eq hfield]
      rfl
    rw [hnames, ← List.concat_eq_append]
    exact h.nodup.concat hnew

/-- After calls, a record has gained the fields of those that succeed. -/
theorem Collects.run (h : Collects draft done) (additions : List Addition) :
    Collects (draft.run additions) (done ++ draft.succeeding additions) := by
  induction additions generalizing draft done with
  | nil =>
      rw [succeeding, List.append_nil]
      exact h
  | cons addition rest ih =>
      have heffect := effect_call draft addition
      rw [run_cons, succeeding]
      generalize draft.call addition = result at heffect ⊢
      obtain ⟨outcome, next⟩ := result
      dsimp only at heffect
      cases heffect with
      | taken | refused => exact ih h
      | added hnew hfield =>
          dsimp only
          rw [List.append_cons]
          exact ih (h.push hnew hfield)

/-- Calls change nothing of a record but its fields. -/
theorem exists_collector_run (draft : RecordDraft) (additions : List Addition) :
    ∃ collector, draft.run additions = { draft with collector } := by
  induction additions generalizing draft with
  | nil => exact ⟨draft.collector, rfl⟩
  | cons addition rest ih =>
      obtain ⟨collector, hnext⟩ := (effect_call draft addition).exists_collector
      obtain ⟨last, hrun⟩ := ih (draft.call addition).2
      refine ⟨last, ?_⟩
      rw [run_cons, hrun, hnext]

/-- The record that is finished after calls has the head that it was started with. -/
theorem finish_run_start (name : String) (space doc : Option String) (calls : List Addition) :
    ((start name space doc).run calls).finish =
      .record { name, space, doc } false ((start name space doc).run calls).collector.fields := by
  obtain ⟨collector, hrun⟩ := exists_collector_run (start name space doc) calls
  rw [hrun]
  rfl

/-- A call that leaves the draft as it was may be left out of a run. -/
theorem run_append_cons_of_same {before : List Addition}
    (h : ((draft.run before).call addition).2 = draft.run before) (after : List Addition) :
    draft.run (before ++ addition :: after) = draft.run (before ++ after) := by
  rw [run_append, run_cons, h, run_append]

end Calls

/-- After any calls, a record holds the fields of those that succeeded, in order, as synthesis gives
them; their names are distinct and have no points.  The next call fails because of another field
exactly if a call for the same name succeeded before, and without such a call it returns what
synthesis does.  If it fails, the record is as it was, and whatever follows comes out as if it had
not been made. -/
theorem finish_run (name : String) (space doc : Option String) (calls : List Addition)
    (next : Addition) :
    let draft := (start name space doc).run calls
    let succeeded := (start name space doc).succeeding calls
    (∃ fields, draft.finish = .record { name, space, doc } false fields ∧
      List.Forall₂ (fun addition field => addition.field = .ok field) succeeded fields ∧
      (fields.map FieldOf.name).Nodup ∧ ∀ field ∈ fields, Name.isDotted field.name = false) ∧
    (∀ record property, (draft.call next).1 = .error (.duplicateField record property) ↔
      record = name ∧ property = next.property ∧
        ∃ earlier ∈ succeeded, earlier.property = next.property) ∧
    ((∃ earlier ∈ succeeded, earlier.property = next.property) ∨
      (draft.call next).1 = next.field.map fun _ => ()) ∧
    ((draft.call next).1 = .ok () ∨
      (draft.call next).2 = draft ∧ ∀ after,
        (start name space doc).run (calls ++ next :: after) =
          (start name space doc).run (calls ++ after)) := by
  intro draft succeeded
  have hstart : Collects (start name space doc) [] := ⟨.nil, List.nodup_nil⟩
  have hcollects : Collects draft succeeded := hstart.run calls
  have heffect := effect_call draft next
  have hname : draft.name = name := by
    obtain ⟨collector, hrun⟩ := exists_collector_run (start name space doc) calls
    exact congrArg RecordDraft.name hrun
  have hearlier : next.property ∈ draft.collector.names ↔
      ∃ earlier ∈ succeeded, earlier.property = next.property := by
    rw [hcollects.names_eq, List.mem_map]
  refine ⟨⟨draft.collector.fields, finish_run_start name space doc calls, hcollects.fields,
    hcollects.nodup, ?_⟩, ?_, ?_, ?_⟩
  · intro field hmem
    obtain ⟨addition, -, hfield⟩ := exists_of_forall₂_right hcollects.fields hmem
    exact Addition.isDotted_eq_false hfield
  · intro record property
    rw [heffect.eq_duplicateField_iff, hname, hearlier]
  · by_cases hmem : next.property ∈ draft.collector.names
    · exact .inl (hearlier.mp hmem)
    · exact .inr (heffect.eq_map hmem)
  · rcases call_ok_or_same draft next with hok | hsame
    · exact .inl hok
    · exact .inr ⟨hsame, run_append_cons_of_same hsame⟩

/-- A name that failed may be used again, and one that succeeded may not. -/
example :
    (start "R" none none).succeeding
        [{ property := "x", type := .value (.basic .short) },
          { property := "x", type := .value (.basic .int) },
          { property := "x", type := .value (.basic .long) }] =
      [{ property := "x", type := .value (.basic .int) }] := rfl

end RecordDraft

end EventSchema
