import EventSchema.Proofs.Occurrence
import EventSchema.Schema.Equality
import EventSchema.Schema.OfJson

/-!
# Closing a finished record

A record is finished by putting its definition in place of the references to it
inside its fields.  Closing changes nothing in a schema without such references.
Else a place of the closed schema is one from before or lies in the definition
that was put in, and a finished record leaves open exactly the other names that
its fields do.
-/

namespace EventSchema

namespace Schema

variable {fullName other : String} {definition schema : Schema}

@[simp] theorem schema_closeField (fullName : String) (definition : Schema) (field : Field) :
    (closeField fullName definition field).schema = close fullName definition field.schema := by
  cases field
  rfl

@[simp] theorem label_closeField (fullName : String) (definition : Schema) (field : Field) :
    (closeField fullName definition field).label = field.label := by
  cases field
  rfl

theorem closeField_eq_self {field : Field}
    (h : close fullName definition field.schema = field.schema) :
    closeField fullName definition field = field := by
  cases field
  rw [closeField, h]

/-- A named type keeps its head where references below it are closed. -/
theorem head?_close {head : TypeHead} (h : schema.head? = some head) :
    (close fullName definition schema).head? = some head := by
  cases schema <;> cases h <;> rfl

/-- A named type in a closed schema stood there before, or the definition was put in its place. -/
theorem head?_of_close {head : TypeHead}
    (h : (close fullName definition schema).head? = some head) :
    schema.head? = some head ∨ schema = ref fullName ∧ definition.head? = some head := by
  cases schema with
  | primitive | array | map | union | record | enum | fixed => exact .inl h
  | ref name =>
      rw [close] at h
      split at h
      next heq => exact .inr ⟨congrArg ref heq, h⟩
      next => exact .inl h

/-- Closing a name changes nothing in a schema without references to it. -/
theorem close_eq_self (h : ∀ path, ¬ Occurs path (ref fullName) schema) :
    close fullName definition schema = schema := by
  induction schema using induct with
  | primitive | enum | fixed => rfl
  | array items props ih =>
      have hitems : close fullName definition items = items := by
        apply ih
        intro path hitems
        exact h path (.items hitems)
      rw [close, hitems]
  | map values props ih =>
      have hvalues : close fullName definition values = values := by
        apply ih
        intro path hvalues
        exact h path (.values hvalues)
      rw [close, hvalues]
  | union members ih =>
      have hmembers : members.map (close fullName definition) = members.map id := by
        apply List.map_congr_left
        intro member hmem
        apply ih member hmem
        intro path hmember
        exact h path (.member hmem hmember)
      rw [close, closeList_eq_map, hmembers, List.map_id]
  | record head isError fields ih =>
      have hfields : fields.map (closeField fullName definition) = fields.map id := by
        apply List.map_congr_left
        intro field hmem
        apply closeField_eq_self
        apply ih field hmem
        intro path hfield
        exact h _ (.field hmem hfield)
      rw [close, closeFields_eq_map, hfields, List.map_id]
  | ref name =>
      rw [close, if_neg]
      rintro rfl
      exact h [] .here

theorem eq_ref_of_close (h : close fullName definition schema = ref other)
    (hne : schema ≠ ref fullName) : schema = ref other := by
  cases schema with
  | primitive | array | map | union | record | enum | fixed => cases h
  | ref name =>
      rw [close, if_neg] at h
      · exact h
      · rintro rfl
        exact hne rfl

/-! ## Places in a closed schema -/

/-- A place of a closed schema is one that the schema had before, or lies in the definition that
was put in place of a reference. -/
inductive ClosedPlace (fullName : String) (definition schema : Schema) :
    List String → Schema → Prop
  | kept {path part} (hpart : Occurs path part schema) (hne : part ≠ ref fullName) :
      ClosedPlace fullName definition schema path (close fullName definition part)
  | put {outer inner node} (houter : Occurs outer (ref fullName) schema)
      (hinner : Occurs inner node definition) :
      ClosedPlace fullName definition schema (outer ++ inner) node

section Places

variable {path : List String} {node part : Schema}

theorem Occurs.close (h : Occurs path node schema) :
    Occurs path (close fullName definition node) (close fullName definition schema) := by
  induction h with
  | here => exact .here
  | items _ ih => exact .items ih
  | values _ ih => exact .values ih
  | member hmem _ ih =>
      rw [Schema.close, closeList_eq_map]
      exact .member (List.mem_map_of_mem hmem) ih
  | @field _ _ field _ _ _ hmem _ ih =>
      rw [Schema.close, closeFields_eq_map]
      have hfield := List.mem_map_of_mem (f := closeField fullName definition) hmem
      rw [← schema_closeField] at ih
      exact .field hfield ih

/-- A place of a part, below some records, is a place of the whole. -/
theorem ClosedPlace.of_part (before : List String)
    (hpart : ∀ {path node}, Occurs path node part → Occurs (before ++ path) node schema)
    (h : ClosedPlace fullName definition part path node) :
    ClosedPlace fullName definition schema (before ++ path) node := by
  cases h with
  | kept hplace hne => exact .kept (hpart hplace) hne
  | put houter hinner =>
      rw [← List.append_assoc]
      exact .put (hpart houter) hinner

theorem Occurs.of_close (h : Occurs path node (Schema.close fullName definition schema)) :
    ClosedPlace fullName definition schema path node := by
  induction schema using induct generalizing path with
  | primitive | enum | fixed =>
      cases h
      exact .kept .here nofun
  | array items props ih =>
      cases h with
      | here => exact .kept .here nofun
      | items h => exact (ih h).of_part [] .items
  | map values props ih =>
      cases h with
      | here => exact .kept .here nofun
      | values h => exact (ih h).of_part [] .values
  | union members ih =>
      rw [Schema.close] at h
      cases h with
      | here => exact .kept .here nofun
      | member hmem h =>
          rw [closeList_eq_map] at hmem
          obtain ⟨member, hmember, rfl⟩ := List.mem_map.mp hmem
          exact (ih member hmember h).of_part [] (.member hmember)
  | record head isError fields ih =>
      rw [Schema.close] at h
      cases h with
      | here => exact .kept .here nofun
      | field hmem h =>
          rw [closeFields_eq_map] at hmem
          obtain ⟨field, hfield, rfl⟩ := List.mem_map.mp hmem
          rw [schema_closeField] at h
          exact (ih field hfield h).of_part [head.fullName] (.field hfield)
  | ref name =>
      by_cases hname : ref name = ref fullName
      · cases hname
        rw [Schema.close, if_pos rfl] at h
        exact @ClosedPlace.put fullName definition _ [] _ _ .here h
      · have hkept : ClosedPlace fullName definition (ref name) [] _ := .kept .here hname
        rw [Schema.close, if_neg (fun heq => hname (congrArg ref heq))] at h hkept
        cases h
        exact hkept

/-- What holds of all nodes of a schema and of the definition put in, and is kept where references
below a node are closed, holds of all nodes of the closed schema. -/
theorem AllNodes.close {p : Schema → Prop} (hdefinition : AllNodes p definition)
    (hclose : ∀ node, p node → p (close fullName definition node)) (h : AllNodes p schema) :
    AllNodes p (close fullName definition schema) := by
  intro path node hnode
  cases hnode.of_close with
  | kept hpart _ => exact hclose _ (h path _ hpart)
  | put _ hinner => exact hdefinition _ node hinner

end Places

/-- What a closed schema leaves open was open before, or is open in the definition put in. -/
theorem LeavesOpen.of_close (h : LeavesOpen (close fullName definition schema) other) :
    (other ≠ fullName ∧ LeavesOpen schema other) ∨ LeavesOpen definition other := by
  obtain ⟨path, href, hpath⟩ := h
  generalize hnode : ref other = node at href
  cases href.of_close with
  | kept hpart hne =>
      left
      obtain rfl := eq_ref_of_close hnode.symm hne
      refine ⟨?_, path, hpart, hpath⟩
      rintro rfl
      exact hne rfl
  | @put outer inner _ _ hinner =>
      right
      subst hnode
      refine ⟨inner, hinner, ?_⟩
      intro hmem
      exact hpath (List.mem_append_right outer hmem)

/-- Closing a name leaves every other open name open. -/
theorem LeavesOpen.close (hne : other ≠ fullName) (h : LeavesOpen schema other) :
    LeavesOpen (close fullName definition schema) other := by
  obtain ⟨path, href, hpath⟩ := h
  have hclosed := @Occurs.close fullName definition _ _ _ href
  rw [Schema.close, if_neg hne] at hclosed
  exact ⟨path, hclosed, hpath⟩

theorem leavesOpen_close_iff (hne : other ≠ fullName)
    (hdefinition : ¬ LeavesOpen definition other) :
    LeavesOpen (Schema.close fullName definition schema) other ↔ LeavesOpen schema other := by
  constructor
  · intro h
    rcases h.of_close with ⟨-, hschema⟩ | hput
    · exact hschema
    · exact absurd hput hdefinition
  · exact LeavesOpen.close hne

/-! ## Finished records -/

/-- A record whose fields do not refer to it is finished as it is. -/
theorem closeRecord_eq_self {head : TypeHead} {isError : Bool} {fields : List Field}
    (h : ∀ field ∈ fields, ∀ path, ¬ Occurs path (ref head.fullName) (FieldOf.schema field)) :
    closeRecord head isError fields = record head isError fields := by
  have hfields : fields.map (closeField head.fullName (record head isError fields)) =
      fields.map id := by
    apply List.map_congr_left
    intro field hmem
    exact closeField_eq_self (close_eq_self (h field hmem))
  rw [closeRecord, closeFields_eq_map, hfields, List.map_id]

/-- A record is finished by closing it with itself. -/
theorem closeRecord_eq_close (head : TypeHead) (isError : Bool) (fields : List Field) :
    closeRecord head isError fields =
      close head.fullName (record head isError fields) (record head isError fields) := rfl

@[simp] theorem head?_closeRecord (head : TypeHead) (isError : Bool) (fields : List Field) :
    (closeRecord head isError fields).head? = some head := rfl

/-- A finished record leaves open exactly the other names that its fields leave open. -/
theorem leavesOpen_closeRecord {head : TypeHead} {isError : Bool} {fields : List Field} :
    LeavesOpen (closeRecord head isError fields) other ↔
      other ≠ head.fullName ∧ ∃ field ∈ fields, LeavesOpen field.schema other := by
  rw [closeRecord_eq_close, ← @leavesOpen_record other head isError fields]
  constructor
  · intro h
    rcases h.of_close with ⟨-, hrecord⟩ | hrecord
    · exact hrecord
    · exact hrecord
  · intro h
    exact h.close (leavesOpen_record.mp h).1

end Schema

end EventSchema
