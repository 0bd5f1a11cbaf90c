import EventSchema.Proofs.Soundness
import EventSchema.Proofs.Writing

/-!
# Definitions up to the types below them

A definition is copied wherever its name is mentioned, and copies that are taken
at different times are unrolled to different depths.  What they have in common
is their outline, in which every named type below is replaced by a reference.
While a value is read, every named type has the outline of the finished
definition of its full name; the main statement follows, that in one value a
full name determines its definition.
-/

namespace EventSchema

namespace Schema

/-! ## Outlines -/

mutual

/-- Replaces each named type that no other is around by a reference to it. -/
def contract : Schema → Schema
  | primitive kind props => primitive kind props
  | array items props => array (contract items) props
  | map values props => map (contract values) props
  | union members => union (contractList members)
  | record head _ _ => ref head.fullName
  | enum head _ _ => ref head.fullName
  | fixed head _ => ref head.fullName
  | ref name => ref name
termination_by structural schema => schema

/-- `contract` on each schema of a list. -/
def contractList : List Schema → List Schema
  | [] => []
  | schema :: rest => contract schema :: contractList rest
termination_by structural schemas => schemas

end

theorem contractList_eq_map (schemas : List Schema) :
    contractList schemas = schemas.map contract := by
  induction schemas with
  | nil => rfl
  | cons schema rest ih => rw [contractList, ih, List.map_cons]

/-- `contract` on the schema of a field. -/
def contractField (field : Field) : Field :=
  { field with schema := contract field.schema }

/-- Replaces each named type strictly below a node by a reference to it, topmost ones first. -/
def outline : Schema → Schema
  | record head isError fields => record head isError (fields.map contractField)
  | enum head symbols defaultSymbol => enum head symbols defaultSymbol
  | fixed head size => fixed head size
  | schema => contract schema

@[simp] theorem head?_outline (schema : Schema) : schema.outline.head? = schema.head? := by
  cases schema <;> rfl

section Closing

variable {fullName : String} {definition schema : Schema}

theorem contract_close (hdefinition : definition.contract = ref fullName) (schema : Schema) :
    (close fullName definition schema).contract = schema.contract := by
  induction schema using induct with
  | primitive | record | enum | fixed => rfl
  | array items props ih => rw [close, contract, contract, ih]
  | map values props ih => rw [close, contract, contract, ih]
  | union members ih =>
      have hmembers : (members.map (close fullName definition)).map contract =
          members.map contract := by
        rw [List.map_map]
        apply List.map_congr_left
        exact ih
      rw [close, closeList_eq_map, contract, contract, contractList_eq_map, contractList_eq_map,
        hmembers]
  | ref name =>
      rw [close]
      split
      next heq => rw [hdefinition, heq, contract]
      next => rfl

theorem contractField_closeField (hdefinition : definition.contract = ref fullName)
    (field : Field) : contractField (closeField fullName definition field) =
      contractField field := by
  apply FieldOf.ext_label
  · exact label_closeField fullName definition field
  · change (closeField fullName definition field).schema.contract = field.schema.contract
    rw [schema_closeField, contract_close hdefinition]

/-- Closing references below a named type keeps its outline. -/
theorem outline_close {head : TypeHead} (hdefinition : definition.contract = ref fullName)
    (hhead : schema.head? = some head) :
    (close fullName definition schema).outline = schema.outline := by
  cases schema with
  | record found isError fields =>
      have hfields : (fields.map (closeField fullName definition)).map contractField =
          fields.map contractField := by
        rw [List.map_map]
        apply List.map_congr_left
        intro field _
        exact contractField_closeField hdefinition field
      rw [close, closeFields_eq_map, outline, outline, hfields]
  | enum | fixed => rfl
  | primitive | array | map | union | ref => cases hhead

@[simp] theorem outline_closeRecord (head : TypeHead) (isError : Bool) (fields : List Field) :
    (closeRecord head isError fields).outline = (record head isError fields).outline := by
  rw [closeRecord_eq_close]
  exact outline_close rfl rfl

end Closing

end Schema

/-! ## Finished definitions -/

namespace Scope

/-- A type that has just been claimed is not finished. -/
theorem Settled.get?_of_claim {scope opened : Scope} {fullName : String} (hscope : scope.Settled)
    (hclaim : scope.claim fullName = .ok opened) : opened.finished.get? fullName = none := by
  have hnew : fullName ∉ scope.claimed := (claim_eq_ok_iff.mp hclaim).2.1
  rw [finished_of_claim hclaim]
  cases hfound : scope.finished.get? fullName with
  | none => rfl
  | some definition => exact absurd (hscope.finished hfound).1 hnew

/-- A node that is a named type has the outline of the finished definition of its full name. -/
def Matches (scope : Scope) (node : Schema) : Prop :=
  ∀ head, node.head? = some head → ∃ definition,
    scope.finished.get? head.fullName = some definition ∧ definition.outline = node.outline

/-- Every node of a finished type that is itself a named type has the outline of the finished
definition of its full name. -/
structure Coherent (scope : Scope) : Prop where
  settled : scope.Settled
  finished : ∀ {fullName definition}, scope.finished.get? fullName = some definition →
    Schema.AllNodes scope.Matches definition

/-- A scope keeps the finished definitions of an earlier one. -/
def Keeps (earlier scope : Scope) : Prop :=
  ∀ fullName definition, earlier.finished.get? fullName = some definition →
    scope.finished.get? fullName = some definition

section Coherence

variable {earlier scope opened : Scope} {fullName : String} {definition node : Schema}
  {head : TypeHead}

theorem Keeps.matches (hkeeps : Keeps earlier scope) (h : earlier.Matches node) :
    scope.Matches node := by
  intro head hhead
  obtain ⟨definition, hfound, houtline⟩ := h head hhead
  exact ⟨definition, hkeeps _ _ hfound, houtline⟩

theorem keeps_finish (scope : Scope) (fullName : String) (definition : Schema) :
    Keeps scope (scope.finish fullName definition) := by
  intro other found hfound
  rw [finished_finish, Entries.get?_append, hfound, Option.some_or]

theorem matches_of_unnamed (hhead : node.head? = none) : scope.Matches node := by
  intro head hsome
  rw [hhead] at hsome
  cases hsome

/-- A node with the outline of an open type matches once the type is finished. -/
theorem matches_finish (hopen : scope.finished.get? head.fullName = none)
    (hhead : node.head? = some head) (houtline : definition.outline = node.outline) :
    (scope.finish head.fullName definition).Matches node := by
  intro found hfound
  rw [hhead] at hfound
  cases hfound
  exact ⟨definition, get?_finished_finish_self hopen, houtline⟩

theorem coherent_empty : ({} : Scope).Coherent := by
  refine ⟨settled_empty, ?_⟩
  intro fullName definition h
  cases h

theorem Coherent.claim (hscope : scope.Coherent) (hclaim : scope.claim fullName = .ok opened) :
    opened.Coherent := by
  have hsettled := hscope.settled.claim hclaim
  obtain ⟨-, -, rfl⟩ := claim_eq_ok_iff.mp hclaim
  exact ⟨hsettled, hscope.finished⟩

theorem Coherent.finish (hscope : scope.Coherent) (hmem : fullName ∈ scope.claimed)
    (hdefines : Schema.Defines definition fullName head)
    (hnodes : Schema.AllNodes (scope.finish fullName definition).Matches definition) :
    (scope.finish fullName definition).Coherent := by
  refine ⟨hscope.settled.finish hmem hdefines, ?_⟩
  intro other found h
  rcases get?_finished_finish h with hearlier | ⟨rfl, rfl⟩
  · have hall : Schema.AllNodes scope.Matches found := hscope.finished hearlier
    exact hall.imp fun node => (keeps_finish scope fullName definition).matches
  · exact hnodes

/-- A definition without other types in it matches as soon as it is finished. -/
theorem Coherent.finish_leaf (hscope : scope.Coherent)
    (hclaim : scope.claim head.fullName = .ok opened)
    (hdefines : Schema.Defines definition head.fullName head)
    (hleaf : ∀ {path node}, Schema.Occurs path node definition → node = definition) :
    (opened.finish head.fullName definition).Coherent ∧
      Schema.AllNodes (opened.finish head.fullName definition).Matches definition := by
  have hopen := hscope.settled.get?_of_claim hclaim
  have hroot : (opened.finish head.fullName definition).Matches definition :=
    matches_finish hopen hdefines.head_eq rfl
  have hnodes := Schema.allNodes_leaf hroot hleaf
  have hmem := Schema.mem_claimed_of_claim hclaim
  exact ⟨(hscope.claim hclaim).finish hmem hdefines hnodes, hnodes⟩

theorem Coherent.schemaOfName {space : Option String} {name : String} {schema : Schema}
    (hscope : scope.Coherent) (h : scope.schemaOfName space name = .ok schema) :
    Schema.AllNodes scope.Matches schema :=
  allNodes_schemaOfName (fun _ => matches_of_unnamed rfl) (fun _ => matches_of_unnamed rfl)
    hscope.finished h

end Coherence

end Scope

namespace Schema

/-! ## Following a reading -/

mutual

/-- A reading neither finishes nor changes a type that was claimed before it. -/
theorem Reads.finished_eq {scope scope' : Scope} {space : Option String} {value : Json}
    {schema : Schema} {fullName : String} :
    Reads scope space value schema scope' → fullName ∈ scope.claimed →
      scope'.finished.get? fullName = scope.finished.get? fullName
  | .name _, _ => rfl
  | .union h, hmem => h.finished_eq hmem
  | .primitive _, _ => rfl
  | .array _ _ h, hmem => h.finished_eq hmem
  | .map _ _ h, hmem => h.finished_eq hmem
  | @Reads.record _ _ _ _ _ _ _ opened _ _ _ hclaim _ h, hmem => by
      have hopened : fullName ∈ opened.claimed := by
        rw [claimed_of_claim hclaim]
        exact List.mem_append_left _ hmem
      have hne := ne_of_mem_of_not_mem hmem (Scope.claim_eq_ok_iff.mp hclaim).2.1
      rw [Scope.get?_finished_finish_of_ne hne, h.finished_eq hopened,
        Scope.finished_of_claim hclaim]
  | .enum _ _ hclaim _ _ _, hmem => Scope.get?_finished_finish_of_claim hclaim hmem
  | .fixed _ _ hclaim _ _, hmem => Scope.get?_finished_finish_of_claim hclaim hmem
  | .named _ _ _ _, _ => rfl

theorem ReadsMembers.finished_eq {scope scope' : Scope} {space : Option String}
    {seen : List String} {items : List Json} {schemas : List Schema} {fullName : String} :
    ReadsMembers scope space seen items schemas scope' → fullName ∈ scope.claimed →
      scope'.finished.get? fullName = scope.finished.get? fullName
  | .nil, _ => rfl
  | .cons h _ _ hrest, hmem => by
      rw [hrest.finished_eq (h.mem_claimed hmem), h.finished_eq hmem]

theorem ReadsFields.finished_eq {scope scope' : Scope} {space : Option String}
    {seen : List String} {items : List Json} {fields : List Field} {fullName : String} :
    ReadsFields scope space seen items fields scope' → fullName ∈ scope.claimed →
      scope'.finished.get? fullName = scope.finished.get? fullName
  | .nil, _ => rfl
  | .cons _ _ h _ hrest, hmem => by
      rw [hrest.finished_eq (h.mem_claimed hmem), h.finished_eq hmem]

end

theorem ReadsMembers.keeps {scope scope' : Scope} {space : Option String} {seen : List String}
    {items : List Json} {schemas : List Schema}
    (h : ReadsMembers scope space seen items schemas scope') (hscope : scope.Settled) :
    scope.Keeps scope' := by
  intro fullName definition hfound
  rw [h.finished_eq (hscope.finished hfound).1, hfound]

theorem ReadsFields.keeps {scope scope' : Scope} {space : Option String} {seen : List String}
    {items : List Json} {fields : List Field}
    (h : ReadsFields scope space seen items fields scope') (hscope : scope.Settled) :
    scope.Keeps scope' := by
  intro fullName definition hfound
  rw [h.finished_eq (hscope.finished hfound).1, hfound]

/-- Closing a record keeps all outlines, so that what matched before matches in the finished
record. -/
theorem allMatches_closeRecord {scope : Scope} {head : TypeHead} {isError : Bool}
    {fields : List Field} (h : AllNodes scope.Matches (record head isError fields)) :
    AllNodes scope.Matches (closeRecord head isError fields) := by
  have hclose : ∀ node, scope.Matches node →
      scope.Matches (close head.fullName (record head isError fields) node) := by
    intro node hnode found hfound
    rcases head?_of_close hfound with hsame | ⟨rfl, hput⟩
    · rw [outline_close rfl hsame]
      exact hnode found hsame
    · rw [close, if_pos rfl]
      exact h.root found hput
  exact h.close hclose h

mutual

/-- A reading from a coherent scope leaves a coherent scope, which the schema matches
throughout. -/
theorem Reads.coherent {scope scope' : Scope} {space : Option String} {value : Json}
    {schema : Schema} :
    Reads scope space value schema scope' → scope.Coherent →
      scope'.Coherent ∧ AllNodes scope'.Matches schema
  | .name h, hscope => ⟨hscope, hscope.schemaOfName h⟩
  | .union h, hscope => by
      obtain ⟨hscope', hmembers⟩ := h.coherent hscope
      exact ⟨hscope', allNodes_union.mpr ⟨Scope.matches_of_unnamed rfl, hmembers⟩⟩
  | .primitive _, hscope =>
      ⟨hscope, allNodes_primitive.mpr (Scope.matches_of_unnamed rfl)⟩
  | .array _ _ h, hscope => by
      obtain ⟨hscope', hitems⟩ := h.coherent hscope
      exact ⟨hscope', allNodes_array.mpr ⟨Scope.matches_of_unnamed rfl, hitems⟩⟩
  | .map _ _ h, hscope => by
      obtain ⟨hscope', hvalues⟩ := h.coherent hscope
      exact ⟨hscope', allNodes_map.mpr ⟨Scope.matches_of_unnamed rfl, hvalues⟩⟩
  | @Reads.record _ _ _ head isError _ fields opened after _ hhead hclaim _ h, hscope => by
      obtain ⟨hafter, hfields⟩ := h.coherent (hscope.claim hclaim)
      have hmem : head.fullName ∈ opened.claimed := mem_claimed_of_claim hclaim
      -- Nothing that is read inside the record finishes its name, which was claimed before.
      have hopen : after.finished.get? head.fullName = none := by
        rw [h.finished_eq hmem, hscope.settled.get?_of_claim hclaim]
      have hkeeps := after.keeps_finish head.fullName (closeRecord head isError fields)
      have hroot : (after.finish head.fullName (closeRecord head isError fields)).Matches
          (record head isError fields) :=
        Scope.matches_finish hopen rfl (outline_closeRecord head isError fields)
      have hrecord := allNodes_record.mpr
        ⟨hroot, fun field hfield => (hfields field hfield).imp fun _ => hkeeps.matches⟩
      have hnodes := allMatches_closeRecord hrecord
      have hdefines : Defines (closeRecord head isError fields) head.fullName head :=
        ⟨rfl, rfl, hhead.sound.name⟩
      exact ⟨hafter.finish (h.mem_claimed hmem) hdefines hnodes, hnodes⟩
  | .enum _ hhead hclaim _ _ _, hscope => by
      refine hscope.finish_leaf hclaim ⟨rfl, rfl, hhead.sound.name⟩ ?_
      rintro path node ⟨⟩
      rfl
  | .fixed _ hhead hclaim _ _, hscope => by
      refine hscope.finish_leaf hclaim ⟨rfl, rfl, hhead.sound.name⟩ ?_
      rintro path node ⟨⟩
      rfl
  | .named _ _ _ h, hscope => ⟨hscope, hscope.schemaOfName h⟩

theorem ReadsMembers.coherent {scope scope' : Scope} {space : Option String}
    {seen : List String} {items : List Json} {schemas : List Schema} :
    ReadsMembers scope space seen items schemas scope' → scope.Coherent →
      scope'.Coherent ∧ ∀ member ∈ schemas, AllNodes scope'.Matches member
  | .nil, hscope => ⟨hscope, List.forall_mem_nil _⟩
  | .cons h _ _ hrest, hscope => by
      obtain ⟨hbetween, hfirst⟩ := h.coherent hscope
      obtain ⟨hscope', hothers⟩ := hrest.coherent hbetween
      have hkeeps := hrest.keeps hbetween.settled
      refine ⟨hscope', List.forall_mem_cons.mpr ⟨?_, hothers⟩⟩
      exact hfirst.imp fun node => hkeeps.matches

theorem ReadsFields.coherent {scope scope' : Scope} {space : Option String}
    {seen : List String} {items : List Json} {fields : List Field} :
    ReadsFields scope space seen items fields scope' → scope.Coherent →
      scope'.Coherent ∧ ∀ field ∈ fields, AllNodes scope'.Matches (FieldOf.schema field)
  | .nil, hscope => ⟨hscope, List.forall_mem_nil _⟩
  | .cons _ _ h _ hrest, hscope => by
      obtain ⟨hbetween, hfirst⟩ := h.coherent hscope
      obtain ⟨hscope', hothers⟩ := hrest.coherent hbetween
      have hkeeps := hrest.keeps hbetween.settled
      refine ⟨hscope', List.forall_mem_cons.mpr ⟨?_, hothers⟩⟩
      exact hfirst.imp fun node => hkeeps.matches

end

/-- In one value a full name determines its definition: any two named types of the schema that
have one full name, however far they are unrolled, have one outline. -/
theorem outline_eq_of_ofJson {value : Json} {schema node other : Schema} {fullName : String}
    (h : ofJson value = .ok schema) (hnode : NamedIn schema fullName node)
    (hother : NamedIn schema fullName other) : node.outline = other.outline := by
  obtain ⟨scope, hreads⟩ := ofJson_eq_ok_iff.mp h
  have hmatches := (hreads.coherent Scope.coherent_empty).2
  obtain ⟨⟨path, hoccurs⟩, head, hhead, hname⟩ := hnode
  obtain ⟨⟨otherPath, hotherOccurs⟩, otherHead, hotherHead, hotherName⟩ := hother
  obtain ⟨definition, hfound, houtline⟩ := hmatches path node hoccurs head hhead
  obtain ⟨found, hotherFound, hotherOutline⟩ :=
    hmatches otherPath other hotherOccurs otherHead hotherHead
  rw [hname] at hfound
  rw [hotherName, hfound] at hotherFound
  rw [← houtline, ← hotherOutline, Option.some.inj hotherFound]

/-- A record that is followed by null or a record like it. -/
def chainRecord : Json :=
  .obj [("type", .str "record"), ("name", .str "Chain"), ("namespace", .str "a"),
    ("fields", .arr [.obj [("name", .str "next"), ("type", .arr [.str "null", .str "Chain"])]])]

/-- A record of this kind, followed by null or by the given schema. -/
def chainOf (next : Schema) : Schema :=
  record { name := "Chain", space := some "a" } false [{ name := "next", schema := nullable next }]

/-- The record that is read and its copy below differ, but not in outline. -/
theorem outline_eq_of_ofJson_chainRecord :
    ofJson chainRecord = .ok (chainOf (chainOf (ref "a.Chain"))) ∧
      chainOf (chainOf (ref "a.Chain")) ≠ chainOf (ref "a.Chain") ∧
      (chainOf (chainOf (ref "a.Chain"))).outline = (chainOf (ref "a.Chain")).outline := by
  have h : ofJson chainRecord = .ok (chainOf (chainOf (ref "a.Chain"))) := rfl
  have hnode : NamedIn (chainOf (chainOf (ref "a.Chain"))) "a.Chain"
      (chainOf (chainOf (ref "a.Chain"))) := ⟨⟨[], .here⟩, _, rfl, by decide⟩
  have hother : NamedIn (chainOf (chainOf (ref "a.Chain"))) "a.Chain"
      (chainOf (ref "a.Chain")) :=
    ⟨⟨_, .field List.mem_cons_self (.member (by simp) .here)⟩, _, rfl, by decide⟩
  exact ⟨h, by decide, outline_eq_of_ofJson h hnode hother⟩

end Schema

end EventSchema
