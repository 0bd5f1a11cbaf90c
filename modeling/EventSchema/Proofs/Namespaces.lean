import EventSchema.Proofs.Mentions
import EventSchema.Proofs.Writings

/-!
# Namespaces of written definitions

The writer leaves out a namespace where the records around a definition give it.
This module follows a place of a written value to the node of the schema that
was written there.  The main statement is that nothing is lost: with the
namespaces taken from the value alone, each definition in it has the full name
of the node that it was written for, and the definitions are those of the types
written out, in the same order.
-/

namespace EventSchema

open Mark (definedNames)

namespace Schema

/-! ## Nodes that are written as objects -/

/-- The word that the object of a node has as its type. -/
def typeWord : Schema → String
  | primitive kind _ => kind.name
  | array .. => "array"
  | map .. => "map"
  | record _ isError _ => recordWord isError
  | enum .. => "enum"
  | fixed .. => "fixed"
  | union _ | ref _ => ""

section Words

variable {schema : Schema}

theorem typeWord_eq_array (h : schema.typeWord = "array") :
    ∃ items props, schema = array items props := by
  cases schema with
  | array items props => exact ⟨items, props, rfl⟩
  | primitive kind => cases kind <;> simp [typeWord, PrimitiveKind.name] at h
  | record _ isError => cases isError <;> simp [typeWord, recordWord] at h
  | map | union | enum | fixed | ref => simp [typeWord] at h

theorem typeWord_eq_map (h : schema.typeWord = "map") :
    ∃ values props, schema = map values props := by
  cases schema with
  | map values props => exact ⟨values, props, rfl⟩
  | primitive kind => cases kind <;> simp [typeWord, PrimitiveKind.name] at h
  | record _ isError => cases isError <;> simp [typeWord, recordWord] at h
  | array | union | enum | fixed | ref => simp [typeWord] at h

theorem typeWord_eq_recordWord {isError : Bool} (h : schema.typeWord = recordWord isError) :
    ∃ head fields, schema = record head isError fields := by
  cases schema with
  | record head other fields => exact ⟨head, fields, by rw [recordWord_injective h]⟩
  | primitive kind =>
      have hword := recordWord_mem_typeWords isError
      rw [← h] at hword
      exact absurd hword (name_notMem_typeWords kind)
  | array | map | union | enum | fixed | ref => cases isError <;> simp [typeWord, recordWord] at h

end Words

section Objects

variable {space : Option String} {written written' : List String} {members : Entries Json}
  {schema : Schema} {value : Json}

/-- An object that a schema is written as has the word of the schema as its type. -/
theorem Writes.typeWord_eq {word : String}
    (htype : Entries.get? members "type" = some (.str word))
    (h : Writes space written schema (.obj members) written') : schema.typeWord = word := by
  have hword : Entries.get? members "type" = some (.str schema.typeWord) := by
    generalize hjson : Json.obj members = json at h
    cases h with
    | word | union => cases hjson
    | again | ref =>
        rw [reference_eq] at hjson
        cases hjson
    | primitive | array | map =>
        cases hjson
        exact get?_withProps (by simp [typeWord])
    | record | enum | fixed =>
        cases hjson
        exact get?_writtenMembers_type
  rw [htype] at hword
  cases hword
  rfl

theorem Writes.of_array (htype : Entries.get? members "type" = some (.str "array"))
    (hvalue : Entries.get? members "items" = some value)
    (h : Writes space written schema (.obj members) written') :
    ∃ items props, schema = Schema.array items props ∧
      Writes space written items value written' := by
  obtain ⟨items, props, rfl⟩ := typeWord_eq_array (h.typeWord_eq htype)
  generalize hjson : Json.obj members = json at h
  cases h with
  | @array _ _ _ _ json _ h =>
      cases hjson
      have hitems : Entries.get? (Entries.addAllMissing [("type", .str "array"), ("items", json)]
          props.entries) "items" = some json := get?_withProps (by simp)
      rw [hitems] at hvalue
      cases hvalue
      exact ⟨items, props, rfl, h⟩
  | again hhead => cases hhead

theorem Writes.of_map (htype : Entries.get? members "type" = some (.str "map"))
    (hvalue : Entries.get? members "values" = some value)
    (h : Writes space written schema (.obj members) written') :
    ∃ values props, schema = Schema.map values props ∧
      Writes space written values value written' := by
  obtain ⟨values, props, rfl⟩ := typeWord_eq_map (h.typeWord_eq htype)
  generalize hjson : Json.obj members = json at h
  cases h with
  | @map _ _ _ _ json _ h =>
      cases hjson
      have hvalues : Entries.get? (Entries.addAllMissing [("type", .str "map"), ("values", json)]
          props.entries) "values" = some json := get?_withProps (by simp)
      rw [hvalues] at hvalue
      cases hvalue
      exact ⟨values, props, rfl, h⟩
  | again hhead => cases hhead

theorem Writes.of_union {items : List Json}
    (h : Writes space written schema (.arr items) written') :
    ∃ parts, schema = Schema.union parts ∧ WritesMembers space written parts items written' := by
  generalize hjson : Json.arr items = json at h
  cases h with
  | @union _ _ parts _ _ h =>
      cases hjson
      exact ⟨parts, rfl, h⟩
  | word | primitive | array | map | record | enum | fixed => cases hjson
  | again | ref =>
      rw [reference_eq] at hjson
      cases hjson

/-- The object of a record has the fields of the record, which are written in the namespace that
the object gives them. -/
theorem Writes.of_record {isError : Bool} {items : List Json}
    (htype : Entries.get? members "type" = some (.str (recordWord isError)))
    (hvalue : Entries.get? members "fields" = some (.arr items))
    (h : Writes space written schema (.obj members) written') (hkeeps : KeepsSpaces schema) :
    ∃ head fields, schema = Schema.record head isError fields ∧
      (Definition.ofMembers space members).innerSpace = head.ownSpace ∧
        WritesFields head.ownSpace (written ++ [head.fullName]) fields items written' := by
  obtain ⟨head, fields, rfl⟩ := typeWord_eq_recordWord (h.typeWord_eq htype)
  generalize hjson : Json.obj members = json at h
  cases h with
  | @record _ _ _ _ _ jsons _ hname _ h =>
      cases hjson
      have hfields : (writtenMembers space (recordWord isError) head
          [("fields", .arr jsons)]).get? "fields" = some (.arr jsons) :=
        get?_writtenMembers_of_body (by decide) (by simp)
      rw [hfields] at hvalue
      cases hvalue
      have hdefinition := @definition_writtenMembers space (recordWord isError) head
        [("fields", .arr items)] hname (allHeads_record.mp hkeeps).1 (by simp)
      exact ⟨head, fields, rfl, hdefinition.2, h⟩
  | again =>
      rw [reference_eq] at hjson
      cases hjson

theorem role_of_reference {fullName : String} :
    (reference space fullName).role space = .mentions (referenceText space fullName) := by
  rw [reference_eq, Json.role]

/-- A definition is written for a named type of the full name that it has where it stands. -/
theorem Writes.of_defines {json : Json} {isRecord : Bool} {fullName : String}
    (h : Writes space written schema json written') (hkeeps : KeepsSpaces schema)
    (hrole : json.role space = .defines isRecord fullName) :
    ∃ head, schema.head? = some head ∧ head.fullName = fullName ∧ schema.isRecord = isRecord := by
  cases h with
  | word | union => cases hrole
  | again | ref =>
      rw [role_of_reference] at hrole
      cases hrole
  | @primitive _ _ kind =>
      rw [withProps, role_of_word (get?_withProps (by simp)) (name_notMem_typeWords kind)] at hrole
      cases hrole
  | array =>
      rw [withProps, role_of_container (.inl rfl) (get?_withProps (by simp))] at hrole
      cases hrole
  | map =>
      rw [withProps, role_of_container (.inr rfl) (get?_withProps (by simp))] at hrole
      cases hrole
  | @record _ _ head isError _ jsons _ hname =>
      obtain ⟨hfullName, -⟩ := @definition_writtenMembers space (recordWord isError) head
        [("fields", .arr jsons)] hname (allHeads_record.mp hkeeps).1 (by simp)
      rw [withProps, role_of_recordWord get?_writtenMembers_type, hfullName] at hrole
      cases hrole
      exact ⟨head, rfl, rfl, rfl⟩
  | @enum _ _ head symbols defaultSymbol hname =>
      obtain ⟨hfullName, -⟩ := @definition_writtenMembers space "enum" head
        (enumMembers symbols defaultSymbol) hname (allHeads_enum.mp hkeeps)
        (get?_enumMembers symbols defaultSymbol "namespace")
      rw [withProps, role_of_leafWord (.inl rfl) get?_writtenMembers_type, hfullName] at hrole
      cases hrole
      exact ⟨head, rfl, rfl, rfl⟩
  | @fixed _ _ head size hname =>
      obtain ⟨hfullName, -⟩ := @definition_writtenMembers space "fixed" head
        [("size", .ofUInt64 size)] hname (allHeads_fixed.mp hkeeps) (by simp)
      rw [withProps, role_of_leafWord (.inr rfl) get?_writtenMembers_type, hfullName] at hrole
      cases hrole
      exact ⟨head, rfl, rfl, rfl⟩

end Objects

theorem WritesMembers.at_index {first rest : List Json} {item : Json} {space : Option String}
    {written written' : List String} {members : List Schema}
    (h : WritesMembers space written members (first ++ item :: rest) written') :
    ∃ member between between', members[first.length]? = some member ∧
      Writes space between member item between' := by
  induction first generalizing written members with
  | nil =>
      cases h with
      | cons _ h => exact ⟨_, _, _, rfl, h⟩
  | cons earlier others ih =>
      cases h with
      | cons _ _ hrest => exact ih hrest

theorem WritesFields.at_index {first rest : List Json} {entries : Entries Json} {value : Json}
    {space : Option String} {written written' : List String} {fields : List Field}
    (h : WritesFields space written fields (first ++ .obj entries :: rest) written')
    (hvalue : Entries.get? entries "type" = some value) :
    ∃ field between between', fields[first.length]? = some field ∧
      Writes space between (FieldOf.schema field) value between' := by
  generalize hitems : first ++ Json.obj entries :: rest = items at h
  induction first generalizing written fields items with
  | nil =>
      cases h with
      | nil => cases hitems
      | @cons _ _ field _ json _ _ _ h =>
          cases hitems
          have htype : Entries.get? ((fieldMembers field json).addAllMissing field.props.entries)
              "type" = some json := get?_withProps (get?_fieldMembers field json "type")
          rw [htype] at hvalue
          cases hvalue
          exact ⟨field, _, _, rfl, h⟩
  | cons earlier others ih =>
      cases h with
      | nil => cases hitems
      | cons _ hrest =>
          exact ih _ (List.cons.inj hitems).2 hrest

/-- What stands at a place of a written value was written there for the node at the same path. -/
theorem Writes.at_site {start site : Site} {path : List Step}
    (hleads : Site.Leads start path site) {written written' : List String} {schema : Schema}
    (h : Writes start.space written schema start.value written') (hkeeps : KeepsSpaces schema) :
    ∃ node between between', schema.at? path = some node ∧
      Writes site.space between node site.value between' ∧ KeepsSpaces node := by
  induction hleads generalizing written written' schema with
  | here => exact ⟨schema, written, written', rfl, h, hkeeps⟩
  | items htype hvalue _ ih =>
      obtain ⟨items, props, rfl, hitems⟩ := h.of_array htype hvalue
      exact ih hitems (allHeads_array.mp hkeeps)
  | values htype hvalue _ ih =>
      obtain ⟨values, props, rfl, hvalues⟩ := h.of_map htype hvalue
      exact ih hvalues (allHeads_map.mp hkeeps)
  | @member first _ _ _ _ _ _ _ _ ih =>
      obtain ⟨members, rfl, hwrites⟩ := h.of_union
      obtain ⟨member, between, between', hmember, hitem⟩ := hwrites.at_index
      obtain ⟨node, inner, inner', hnode, hrest⟩ :=
        ih hitem (allHeads_union.mp hkeeps member (List.mem_of_getElem? hmember))
      have hchild : (Schema.union members).child? (.member first.length) = some member := hmember
      exact ⟨node, inner, inner', (at?_cons hchild).trans hnode, hrest⟩
  | @field _ first _ _ _ _ _ _ _ _ isError definition hdefinition htype hfields hvalue _ ih =>
      -- The value gives the fields the namespace in which the writer wrote them.
      obtain ⟨head, fields, rfl, hinner, hwrites⟩ := h.of_record htype hfields hkeeps
      obtain ⟨field, between, between', hfield, hitem⟩ := hwrites.at_index hvalue
      rw [← hinner, ← hdefinition] at hitem
      obtain ⟨node, inner, inner', hnode, hrest⟩ :=
        ih hitem ((allHeads_record.mp hkeeps).2 field (List.mem_of_getElem? hfield))
      have hchild : (Schema.record head isError fields).child? (.field first.length) =
          some field.schema := by
        rw [child?, hfield, Option.map_some]
      exact ⟨node, inner, inner', (at?_cons hchild).trans hnode, hrest⟩

/-- A written value defines the types that were written out, in the same order; the definition at
each of its places, read in the namespace that the value gives the place, has the full name of the
node that it was written for. -/
theorem definitions_of_toJson {schema : Schema} {json : Json} (h : schema.toJson = .ok json)
    (hkeeps : KeepsSpaces schema) :
    definedNames (json.marks [] none) = Writing.names (writings none [] schema) ∧
      ∀ path site isRecord fullName, Site.Leads { value := json } path site →
        site.role = .defines isRecord fullName →
          ∃ node head, schema.at? path = some node ∧ node.head? = some head ∧
            head.fullName = fullName ∧ node.isRecord = isRecord := by
  obtain ⟨written, hwrites⟩ := toJson_eq_ok_iff.mp h
  refine ⟨names_of_shows (hwrites.shows [] hkeeps (by decide)), ?_⟩
  intro path site isRecord fullName hleads hrole
  obtain ⟨node, between, between', hnode, hthere, hkeepsNode⟩ := hwrites.at_site hleads hkeeps
  obtain ⟨head, hhead, hname, hkind⟩ := hthere.of_defines hkeepsNode hrole
  exact ⟨node, head, hnode, hhead, hname, hkind⟩

/-- Types in given, carried, inherited and empty namespaces, inside each other and side by side. -/
def scopedSchema : Schema :=
  record { name := "R", space := some "a" } false [
    { name := "x", schema := (record { name := "b.S" } false
      [{ name := "k", schema := enum { name := "K", space := some "b" } ["V"] none }]) },
    { name := "y", schema := fixed { name := "F" } 4 },
    { name := "z", schema := (record { name := "H", space := some "" } false
      [{ name := "u", schema := fixed { name := "G", space := some "a" } 2 }]) },
    { name := "w", schema := enum { name := "E", space := some "a" } ["V"] none }]

theorem keepsSpaces_scopedSchema : KeepsSpaces scopedSchema := by
  simp [scopedSchema, KeepsSpaces, allHeads_record, allHeads_enum, allHeads_fixed, Props.keys,
    Props.empty]

theorem definitions_of_toJson_scopedSchema :
    ∃ json, scopedSchema.toJson = .ok json ∧ definedNames (json.marks [] none) =
      ["a.R", "b.S", "b.K", "F", "H", "a.G", "a.E"] := by
  have h : ∃ json, scopedSchema.toJson = .ok json := ⟨_, rfl⟩
  obtain ⟨json, hjson⟩ := h
  obtain ⟨hnames, -⟩ := definitions_of_toJson hjson keepsSpaces_scopedSchema
  exact ⟨json, hjson, hnames⟩

end Schema

end EventSchema
