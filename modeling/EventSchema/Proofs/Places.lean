import EventSchema.Proofs.Enclosure
import EventSchema.Proofs.Outline

/-!
# Places of a value and nodes of its schema

A place of a value is reached by a path through items, values, members of unions
and fields, and the schema that is read from the value has a node at the same
path.  The main statement says what stands there: what was read at the place,
after the records around it were closed one by one, the innermost first.
-/

namespace EventSchema

/-- A step from a value or a schema to a part of it. -/
inductive Step where
  | items
  | values
  | member (index : Nat)
  | field (index : Nat)
  deriving DecidableEq

namespace Schema

/-! ## Nodes at a path -/

/-- The part of a schema that a step leads to. -/
def child? : Schema → Step → Option Schema
  | array items _, .items => some items
  | map values _, .values => some values
  | union members, .member index => members[index]?
  | record _ _ fields, .field index => fields[index]?.map FieldOf.schema
  | _, _ => none

/-- The node of a schema that a path leads to. -/
def at? (schema : Schema) : List Step → Option Schema
  | [] => some schema
  | step :: path => (schema.child? step).bind fun child => child.at? path

section Paths

variable {schema child node definition : Schema} {fullName : String} {step : Step}
  {path : List Step}

theorem at?_cons (h : schema.child? step = some child) :
    schema.at? (step :: path) = child.at? path := by
  rw [at?, h, Option.bind_some]

theorem at?_append (schema : Schema) (path more : List Step) :
    schema.at? (path ++ more) = (schema.at? path).bind fun node => node.at? more := by
  induction path generalizing schema with
  | nil => rfl
  | cons step path ih =>
      rw [List.cons_append, at?, at?]
      cases schema.child? step with
      | none => rfl
      | some child => exact ih child

theorem at?_member {members : List Schema} (h : schema.at? path = some (union members))
    (index : Nat) : schema.at? (path ++ [.member index]) = members[index]? := by
  rw [at?_append, h, Option.bind_some, at?, child?]
  cases members[index]? <;> rfl

/-- A part of a schema is closed where the schema is. -/
theorem child?_close (h : schema.child? step = some child) :
    (close fullName definition schema).child? step = some (close fullName definition child) := by
  cases schema with
  | primitive | enum | fixed | ref => cases step <;> cases h
  | array items props =>
      cases step <;> cases h
      rfl
  | map values props =>
      cases step <;> cases h
      rfl
  | union members =>
      cases step with
      | items | values | field => cases h
      | member index =>
          have hmember : members[index]? = some child := h
          rw [close, closeList_eq_map, child?, List.getElem?_map, hmember, Option.map_some]
  | record head isError fields =>
      cases step with
      | items | values | member => cases h
      | field index =>
          obtain ⟨field, hfield, rfl⟩ := Option.map_eq_some_iff.mp h
          rw [close, closeFields_eq_map, child?, List.getElem?_map, hfield, Option.map_some,
            Option.map_some, schema_closeField]

theorem at?_close (h : schema.at? path = some node) :
    (close fullName definition schema).at? path = some (close fullName definition node) := by
  induction path generalizing schema with
  | nil =>
      cases h
      rfl
  | cons step path ih =>
      obtain ⟨child, hchild, hnode⟩ := Option.bind_eq_some_iff.mp h
      rw [at?_cons (child?_close hchild)]
      exact ih hnode

/-- A node at a path occurs in the schema. -/
theorem exists_occurs_of_at? (h : schema.at? path = some node) :
    ∃ around, Occurs around node schema := by
  induction path generalizing schema with
  | nil =>
      cases h
      exact ⟨[], .here⟩
  | cons step path ih =>
      obtain ⟨child, hchild, hnode⟩ := Option.bind_eq_some_iff.mp h
      obtain ⟨around, hoccurs⟩ := ih hnode
      cases schema with
      | primitive | enum | fixed | ref => cases step <;> cases hchild
      | array items props =>
          cases step <;> cases hchild
          exact ⟨around, .items hoccurs⟩
      | map values props =>
          cases step <;> cases hchild
          exact ⟨around, .values hoccurs⟩
      | union members =>
          cases step with
          | items | values | field => cases hchild
          | member index => exact ⟨around, .member (List.mem_of_getElem? hchild) hoccurs⟩
      | record head isError fields =>
          cases step with
          | items | values | member => cases hchild
          | field index =>
              obtain ⟨field, hfield, rfl⟩ := Option.map_eq_some_iff.mp hchild
              exact ⟨_, .field (List.mem_of_getElem? hfield) hoccurs⟩

end Paths

/-! ## Closing again and again -/

/-- `Closings names part node`: a node is what a part becomes when records of these full names are
closed around it, the last one first. -/
inductive Closings : List String → Schema → Schema → Prop
  | nil {part} : Closings [] part part
  | cons {names part node} (head : TypeHead) (isError : Bool) (fields : List Field)
      (h : Closings names part node) :
      Closings (head.fullName :: names) part
        (close head.fullName (record head isError fields) node)

section Closings

variable {names : List String} {part node : Schema}

theorem Closings.head? {head : TypeHead} (h : Closings names part node)
    (hhead : part.head? = some head) : node.head? = some head := by
  induction h with
  | nil => exact hhead
  | cons _ _ _ _ ih => exact head?_close (ih hhead)

/-- A reference stays until a record of its name is closed around it. -/
theorem Closings.ref_cases {fullName : String} (h : Closings names (ref fullName) node) :
    (node = ref fullName ∧ fullName ∉ names) ∨
      ∃ head, node.head? = some head ∧ head.fullName = fullName := by
  generalize hpart : ref fullName = part at h
  induction h with
  | nil =>
      subst hpart
      exact .inl ⟨rfl, List.not_mem_nil⟩
  | cons head isError fields _ ih =>
      subst hpart
      rcases ih rfl with ⟨rfl, hnot⟩ | ⟨found, hfound, hname⟩
      · by_cases heq : fullName = head.fullName
        · rw [close, if_pos heq]
          exact .inr ⟨head, rfl, heq.symm⟩
        · rw [close, if_neg heq]
          exact .inl ⟨rfl, List.not_mem_cons_of_ne_of_not_mem heq hnot⟩
      · exact .inr ⟨found, head?_close hfound, hname⟩

/-- A reference becomes a record when a record of its name is closed around it. -/
theorem Closings.head?_of_ref {fullName : String} (h : Closings names (ref fullName) node)
    (hmem : fullName ∈ names) : ∃ head, node.head? = some head ∧ head.fullName = fullName := by
  rcases h.ref_cases with ⟨-, hnot⟩ | hrecord
  · exact absurd hmem hnot
  · exact hrecord

theorem ne_ref_of_head? {head : TypeHead} (hhead : part.head? = some head) (name : String) :
    part ≠ ref name := by
  rintro rfl
  cases hhead

/-- Closing keeps the kind of every node but a reference. -/
theorem Closings.isRecord (h : Closings names part node) (hpart : ∀ name, part ≠ ref name) :
    node.isRecord = part.isRecord ∧ ∀ name, node ≠ ref name := by
  induction h with
  | nil => exact ⟨rfl, hpart⟩
  | @cons names part node head isError fields _ ih =>
      obtain ⟨hkind, hnode⟩ := ih hpart
      rw [← hkind]
      cases node with
      | ref name => exact absurd rfl (hnode name)
      | primitive | array | map | union | record | enum | fixed =>
          refine ⟨rfl, ?_⟩
          rintro name ⟨⟩

theorem Closings.union {members : List Schema} (h : Closings names (union members) node) :
    ∃ closed, node = .union closed ∧ closed.length = members.length := by
  generalize hpart : Schema.union members = part at h
  induction h with
  | nil => exact ⟨members, hpart.symm, rfl⟩
  | cons head isError fields _ ih =>
      obtain ⟨closed, rfl, hlength⟩ := ih hpart
      refine ⟨_, by rw [close], ?_⟩
      rw [closeList_eq_map, List.length_map, hlength]

end Closings

end Schema

/-! ## Places -/

/-- A place of a value: the value there, the definitions and mentions before it, the records
around it, outermost first, and the namespace that it stands in. -/
structure Site where
  value : Json
  before : List Mark := []
  within : List String := []
  space : Option String := none

namespace Site

/-- `Leads start path place`: a path leads from a place to a place inside it. -/
inductive Leads : Site → List Step → Site → Prop
  | here {place} : Leads place [] place
  | items {members value before within space path place}
      (htype : Entries.get? members "type" = some (.str "array"))
      (hvalue : Entries.get? members "items" = some value)
      (h : Leads ⟨value, before, within, space⟩ path place) :
      Leads ⟨.obj members, before, within, space⟩ (.items :: path) place
  | values {members value before within space path place}
      (htype : Entries.get? members "type" = some (.str "map"))
      (hvalue : Entries.get? members "values" = some value)
      (h : Leads ⟨value, before, within, space⟩ path place) :
      Leads ⟨.obj members, before, within, space⟩ (.values :: path) place
  | member {first item rest before within space path place}
      (h : Leads ⟨item, before ++ Json.marksOfItems within space first, within, space⟩ path
        place) :
      Leads ⟨.arr (first ++ item :: rest), before, within, space⟩ (.member first.length :: path)
        place
  | field {members first entries rest value before within space path place} (isError : Bool)
      (definition : Definition) (hdefinition : definition = .ofMembers space members)
      (htype : Entries.get? members "type" = some (.str (Schema.recordWord isError)))
      (hfields : Entries.get? members "fields" = some (.arr (first ++ .obj entries :: rest)))
      (hvalue : Entries.get? entries "type" = some value)
      (h : Leads ⟨value,
          before ++ [.defines within definition] ++
            Json.marksOfFieldItems (within ++ [definition.fullName]) definition.innerSpace first,
          within ++ [definition.fullName], definition.innerSpace⟩ path place) :
      Leads ⟨.obj members, before, within, space⟩ (.field first.length :: path) place

theorem Leads.trans {start middle place : Site} {path more : List Step}
    (h : Leads start path middle) (hmore : Leads middle more place) :
    Leads start (path ++ more) place := by
  induction h with
  | here => exact hmore
  | items htype hvalue _ ih => exact .items htype hvalue (ih hmore)
  | values htype hvalue _ ih => exact .values htype hvalue (ih hmore)
  | member _ ih => exact .member (ih hmore)
  | field isError definition hdefinition htype hfields hvalue _ ih =>
      exact .field isError definition hdefinition htype hfields hvalue (ih hmore)

/-- A member of a union stands after the members before it. -/
theorem leads_member_iff {items : List Json} {before : List Mark} {within : List String}
    {space : Option String} {index : Nat} {path : List Step} {place : Site} :
    Leads ⟨.arr items, before, within, space⟩ (.member index :: path) place ↔
      ∃ item, items[index]? = some item ∧
        Leads ⟨item, before ++ Json.marksOfItems within space (items.take index), within, space⟩
          path place := by
  constructor
  · intro h
    cases h with
    | @member first item rest _ _ _ _ _ h =>
        have htake : (first ++ item :: rest).take first.length = first := by simp
        rw [htake]
        exact ⟨item, by simp, h⟩
  · rintro ⟨item, hitem, h⟩
    obtain ⟨hindex, rfl⟩ := List.getElem?_eq_some_iff.mp hitem
    have hsplit : items.take index ++ items[index] :: items.drop (index + 1) = items := by simp
    have hlength : (items.take index).length = index := by
      rw [List.length_take]
      omega
    have hleads := @Leads.member (items.take index) _ (items.drop (index + 1)) _ _ _ _ _ h
    rw [hsplit, hlength] at hleads
    exact hleads

end Site

namespace Schema

/-! ## Reading at a place -/

theorem recordWord_mem_typeWords (isError : Bool) : recordWord isError ∈ typeWords := by
  cases isError <;> decide

theorem recordWord_injective {isError other : Bool} (h : recordWord isError = recordWord other) :
    isError = other := by
  cases isError <;> cases other <;> simp_all [recordWord]

section Objects

variable {scope scope' : Scope} {space : Option String} {members : Entries Json}
  {schema : Schema} {value : Json}

theorem Reads.of_array (htype : Entries.get? members "type" = some (.str "array"))
    (hvalue : Entries.get? members "items" = some value)
    (h : Reads scope space (.obj members) schema scope') :
    ∃ items props, schema = Schema.array items props ∧ Reads scope space value items scope' := by
  have hkind : PrimitiveKind.ofName? "array" = none := by decide
  have hread := read_of_reads h
  simp only [read, htype, hkind, if_true] at hread
  rw [readAttribute_of_get? hvalue] at hread
  obtain ⟨⟨items, after⟩, hitems, hread⟩ := bind_eq_ok_iff.mp hread
  cases hread
  exact ⟨items, _, rfl, reads_of_read hitems⟩

theorem Reads.of_map (htype : Entries.get? members "type" = some (.str "map"))
    (hvalue : Entries.get? members "values" = some value)
    (h : Reads scope space (.obj members) schema scope') :
    ∃ values props, schema = Schema.map values props ∧
      Reads scope space value values scope' := by
  have hkind : PrimitiveKind.ofName? "map" = none := by decide
  have harray : "map" ≠ "array" := by decide
  have hread := read_of_reads h
  simp only [read, htype, hkind, if_neg harray, if_true] at hread
  rw [readAttribute_of_get? hvalue] at hread
  obtain ⟨⟨values, after⟩, hvalues, hread⟩ := bind_eq_ok_iff.mp hread
  cases hread
  exact ⟨values, _, rfl, reads_of_read hvalues⟩

theorem Reads.of_record {isError : Bool} {items : List Json} {definition : Definition}
    (hdefinition : definition = .ofMembers space members)
    (htype : Entries.get? members "type" = some (.str (recordWord isError)))
    (hvalue : Entries.get? members "fields" = some (.arr items))
    (h : Reads scope space (.obj members) schema scope') :
    ∃ head fields opened after, schema = closeRecord head isError fields ∧
      head.fullName = definition.fullName ∧ scope.claim definition.fullName = .ok opened ∧
        ReadsFields opened definition.innerSpace [] items fields after := by
  have hsame : ∀ word, Entries.get? members "type" = some (.str word) →
      word = recordWord isError := by
    intro word hother
    rw [htype] at hother
    cases hother
    rfl
  cases h with
  | @record _ _ _ head otherError found fields opened after hother hhead hclaim hfields hreads =>
      have herror : otherError = isError := recordWord_injective (hsame _ hother)
      rw [hvalue] at hfields
      cases hfields
      rw [hdefinition, hhead.fullName_definition, hhead.innerSpace_definition]
      exact ⟨head, fields, opened, after, by rw [herror], rfl, hclaim, hreads⟩
  | @primitive _ _ _ kind hother =>
      have hword := recordWord_mem_typeWords isError
      rw [← hsame _ hother] at hword
      exact absurd hword (name_notMem_typeWords kind)
  | named hother _ hword _ =>
      rw [hsame _ hother] at hword
      exact absurd (recordWord_mem_typeWords isError) hword
  | array hother | map hother | enum hother | fixed hother =>
      have hword := hsame _ hother
      cases isError <;> simp [recordWord] at hword

end Objects

/-- A scope as a reading has it at a place: it knows the names before the place, the open ones are
the records around it, and what is finished has its definition. -/
structure Reaches (before : List Mark) (within : List String) (scope : Scope) : Prop where
  tracks : Tracks before within scope
  coherent : scope.Coherent

theorem reaches_empty : Reaches [] [] {} :=
  ⟨tracks_empty, Scope.coherent_empty⟩

theorem Reaches.reads {before : List Mark} {within : List String} {scope scope' : Scope}
    {space : Option String} {value : Json} {schema : Schema} (h : Reaches before within scope)
    (hreads : Reads scope space value schema scope') :
    Reaches (before ++ value.marks within space) within scope' :=
  ⟨(hreads.tracks h.tracks).1, (hreads.coherent h.coherent).1⟩

theorem Reaches.claim {before : List Mark} {within : List String} {scope opened : Scope}
    {definition : Definition} (h : Reaches before within scope)
    (hclaim : scope.claim definition.fullName = .ok opened) :
    Reaches (before ++ [.defines within definition]) (within ++ [definition.fullName]) opened :=
  ⟨h.tracks.defines hclaim, h.coherent.claim hclaim⟩

theorem ReadsMembers.length_eq {scope scope' : Scope} {space : Option String}
    {seen : List String} {items : List Json} {schemas : List Schema}
    (h : ReadsMembers scope space seen items schemas scope') : schemas.length = items.length := by
  induction items generalizing scope seen schemas with
  | nil =>
      cases h
      rfl
  | cons item rest ih =>
      cases h with
      | cons _ _ _ hrest => rw [List.length_cons, List.length_cons, ih hrest]

/-- The member of a union that comes after others is read after them. -/
theorem ReadsMembers.at_index {first rest : List Json} {item : Json} {before : List Mark}
    {within : List String} {space : Option String} {scope scope' : Scope} {seen : List String}
    {schemas : List Schema}
    (h : ReadsMembers scope space seen (first ++ item :: rest) schemas scope')
    (hscope : Reaches before within scope) :
    ∃ part inner inner', schemas[first.length]? = some part ∧
      Reads inner space item part inner' ∧
        Reaches (before ++ Json.marksOfItems within space first) within inner := by
  induction first generalizing before scope seen schemas with
  | nil =>
      cases h with
      | cons h =>
          rw [Json.marksOfItems, List.append_nil]
          exact ⟨_, _, _, rfl, h, hscope⟩
  | cons earlier others ih =>
      cases h with
      | cons h _ _ hrest =>
          rw [Json.marksOfItems, ← List.append_assoc]
          exact ih hrest (hscope.reads h)

/-- The field of a record that comes after others is read after them. -/
theorem ReadsFields.at_index {first rest : List Json} {entries : Entries Json} {value : Json}
    {before : List Mark} {within : List String} {space : Option String} {scope scope' : Scope}
    {seen : List String} {fields : List Field}
    (h : ReadsFields scope space seen (first ++ .obj entries :: rest) fields scope')
    (hvalue : Entries.get? entries "type" = some value) (hscope : Reaches before within scope) :
    ∃ field inner inner', fields[first.length]? = some field ∧
      Reads inner space value (FieldOf.schema field) inner' ∧
        Reaches (before ++ Json.marksOfFieldItems within space first) within inner := by
  induction first generalizing before scope seen fields with
  | nil =>
      cases h with
      | cons _ hfound h =>
          rw [hvalue] at hfound
          cases hfound
          rw [Json.marksOfFieldItems, List.append_nil]
          exact ⟨_, _, _, rfl, h, hscope⟩
  | cons earlier others ih =>
      cases h with
      | cons _ hfound h _ hrest =>
          rw [Json.marksOfFieldItems, Json.marksOfField, Json.marksOfMember_of_get? hfound,
            ← List.append_assoc]
          exact ih hrest (hscope.reads h)

/-- What stands at a path of a schema was read at the place that the path leads to, and then closed
by the records around the place. -/
theorem Reads.at_site {start site : Site} {path : List Step} (hleads : Site.Leads start path site)
    {scope scope' : Scope} {schema : Schema}
    (h : Reads scope start.space start.value schema scope')
    (hscope : Reaches start.before start.within scope) :
    ∃ names part node inner inner', site.within = start.within ++ names ∧
      schema.at? path = some node ∧ Closings names part node ∧
        Reads inner site.space site.value part inner' ∧
          Reaches site.before site.within inner := by
  induction hleads generalizing scope scope' schema with
  | here => exact ⟨[], schema, schema, scope, scope', by simp, rfl, .nil, h, hscope⟩
  | items htype hvalue _ ih =>
      obtain ⟨items, props, rfl, hitems⟩ := h.of_array htype hvalue
      exact ih hitems hscope
  | values htype hvalue _ ih =>
      obtain ⟨values, props, rfl, hvalues⟩ := h.of_map htype hvalue
      exact ih hvalues hscope
  | @member first _ _ _ _ _ _ _ _ ih =>
      cases h with
      | @union _ _ _ schemas _ hmembers =>
          obtain ⟨child, between, between', hfound, hitem, hbetween⟩ := hmembers.at_index hscope
          obtain ⟨names, part, node, inner, inner', hwithin, hnode, hrest⟩ := ih hitem hbetween
          have hchild : (Schema.union schemas).child? (.member first.length) = some child := hfound
          exact ⟨names, part, node, inner, inner', hwithin, (at?_cons hchild).trans hnode, hrest⟩
  | @field _ first _ _ _ _ _ _ _ _ isError definition hdefinition htype hfields hvalue _ ih =>
      obtain ⟨head, fields, opened, after, rfl, hname, hclaim, hreads⟩ :=
        h.of_record hdefinition htype hfields
      obtain ⟨field, between, between', hfield, hitem, hbetween⟩ :=
        hreads.at_index hvalue (hscope.claim hclaim)
      obtain ⟨names, part, node, inner, inner', hwithin, hnode, hclosings, hrest⟩ :=
        ih hitem hbetween
      have hchild : (Schema.record head isError fields).child? (.field first.length) =
          some field.schema := by
        rw [child?, hfield, Option.map_some]
      have hrecord := (at?_cons hchild).trans hnode
      -- The record closes what stands below it, after all records inside it did.
      refine ⟨head.fullName :: names, part, _, inner, inner', ?_, at?_close hrecord,
        .cons head isError fields hclosings, hrest⟩
      rw [hwithin, hname, List.append_assoc, List.singleton_append]

end Schema

end EventSchema
