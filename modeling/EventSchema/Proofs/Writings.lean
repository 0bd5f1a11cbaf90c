import EventSchema.Proofs.Marks
import EventSchema.Proofs.Rereading

/-!
# What is written where

The writer writes words for primitive types, definitions, and names in place of
types.  This module lists what is written at each place of a schema, in document
order, and shows that the places of the written value are these: each of them
defines the type or mentions the name that was written there.
-/

namespace EventSchema

/-- What is written at a place: the word of a primitive type, the definition of a named type, or
within a namespace the name of a type. -/
inductive Writing where
  | word (kind : PrimitiveKind)
  | definition (fullName : String)
  | reference (space : Option String) (fullName : String)
  deriving DecidableEq

namespace Writing

/-- The full name that is defined at a place. -/
def defined? : Writing → Option String
  | definition fullName => some fullName
  | _ => none

/-- The full names that are defined, in order. -/
def names (writings : List Writing) : List String :=
  writings.filterMap defined?

@[simp] theorem names_nil : names [] = [] := rfl

@[simp] theorem names_word (kind : PrimitiveKind) (writings : List Writing) :
    names (word kind :: writings) = names writings := rfl

@[simp] theorem names_definition (fullName : String) (writings : List Writing) :
    names (definition fullName :: writings) = fullName :: names writings := rfl

@[simp] theorem names_reference (space : Option String) (fullName : String)
    (writings : List Writing) :
    names (reference space fullName :: writings) = names writings := rfl

@[simp] theorem names_append (first second : List Writing) :
    names (first ++ second) = names first ++ names second :=
  List.filterMap_append

end Writing

namespace Schema

/-- What is written for a named type: its name if it is written already, else its definition and
what follows from it. -/
def namedWritings (space : Option String) (written : List String) (head : TypeHead)
    (body : List String → List Writing) : List Writing :=
  if head.fullName ∈ written then [.reference space head.fullName]
  else .definition head.fullName :: body (written ++ [head.fullName])

mutual

/-- What is written for a schema, given the current namespace and the full names written so far. -/
def writings (space : Option String) (written : List String) : Schema → List Writing
  | primitive kind _ => [.word kind]
  | array items _ => writings space written items
  | map values _ => writings space written values
  | union members => writingsOfMembers space written members
  | record head _ fields =>
    namedWritings space written head fun written => writingsOfFields head.ownSpace written fields
  | enum head _ _ => namedWritings space written head fun _ => []
  | fixed head _ => namedWritings space written head fun _ => []
  | ref name => [.reference space name]
termination_by structural schema => schema

/-- `writings` of the members of a union. -/
def writingsOfMembers (space : Option String) (written : List String) :
    List Schema → List Writing
  | [] => []
  | member :: rest =>
    writings space written member ++
      writingsOfMembers space (written ++ Writing.names (writings space written member)) rest
termination_by structural members => members

/-- `writings` of the schema of a field. -/
def writingsOfField (space : Option String) (written : List String) :
    FieldOf Schema → List Writing
  | ⟨_, schema, _, _, _, _, _⟩ => writings space written schema
termination_by structural field => field

/-- `writings` of the fields of a record. -/
def writingsOfFields (space : Option String) (written : List String) :
    List (FieldOf Schema) → List Writing
  | [] => []
  | field :: rest =>
    writingsOfField space written field ++
      writingsOfFields space (written ++ Writing.names (writingsOfField space written field)) rest
termination_by structural fields => fields

end

@[simp] theorem writingsOfField_eq (space : Option String) (written : List String)
    (field : Field) :
    writingsOfField space written field = writings space written field.schema := by
  cases field
  rfl

theorem writings_of_mem {space : Option String} {written : List String} {schema : Schema}
    {head : TypeHead} (hhead : schema.head? = some head) (hmem : head.fullName ∈ written) :
    writings space written schema = [.reference space head.fullName] := by
  cases schema with
  | record | enum | fixed =>
      cases hhead
      rw [writings, namedWritings, if_pos hmem]
  | primitive | array | map | union | ref => cases hhead

theorem namedWritings_of_notMem {space : Option String} {written : List String} {head : TypeHead}
    {body : List String → List Writing} (hnew : head.fullName ∉ written) :
    namedWritings space written head body =
      .definition head.fullName :: body (written ++ [head.fullName]) := by
  rw [namedWritings, if_neg hnew]

mutual

/-- A writing adds the names that it defines to the written ones. -/
theorem Writes.written_eq {space : Option String} {written written' : List String}
    {schema : Schema} {json : Json} :
    Writes space written schema json written' →
      written' = written ++ Writing.names (writings space written schema)
  | .word _ => by simp [writings]
  | .primitive _ => by simp [writings]
  | .array h => h.written_eq
  | .map h => h.written_eq
  | .union h => h.written_eq
  | .record _ hnew h => by
      rw [h.written_eq, writings, namedWritings_of_notMem hnew, Writing.names_definition,
        List.append_assoc, List.singleton_append]
  | .enum _ hnew => by
      rw [writings, namedWritings_of_notMem hnew, Writing.names_definition, Writing.names_nil]
  | .fixed _ hnew => by
      rw [writings, namedWritings_of_notMem hnew, Writing.names_definition, Writing.names_nil]
  | .again hhead _ hmem => by simp [writings_of_mem hhead hmem]
  | .ref _ => by simp [writings]

theorem WritesMembers.written_eq {space : Option String} {written written' : List String}
    {members : List Schema} {jsons : List Json} :
    WritesMembers space written members jsons written' →
      written' = written ++ Writing.names (writingsOfMembers space written members)
  | .nil => by simp [writingsOfMembers]
  | .cons _ h hrest => by
      rw [hrest.written_eq, h.written_eq, writingsOfMembers, Writing.names_append,
        List.append_assoc]

theorem WritesFields.written_eq {space : Option String} {written written' : List String}
    {fields : List Field} {jsons : List Json} :
    WritesFields space written fields jsons written' →
      written' = written ++ Writing.names (writingsOfFields space written fields)
  | .nil => by simp [writingsOfFields]
  | .cons h hrest => by
      rw [hrest.written_eq, h.written_eq, writingsOfFields, writingsOfField_eq,
        Writing.names_append, List.append_assoc]

end

/-! ## Namespaces of written definitions -/

section Definitions

variable {space : Option String} {word : String} {head : TypeHead} {body : Entries Json}

theorem ownSpace_eq_filter (hname : Name.isDotted head.name = false) :
    head.ownSpace = head.space.filter fun own => !own.isEmpty := by
  rw [TypeHead.ownSpace, Name.splitLast_eq_none_iff.mpr hname]

theorem ownSpace_ne_empty (hname : Name.isValid head.name = true) : head.ownSpace ≠ some "" := by
  rw [TypeHead.ownSpace]
  cases hsplit : Name.splitLast head.name with
  | none =>
      intro h
      have hnonempty := (Option.filter_eq_some_iff.mp h).2
      simp at hnonempty
  | some parts =>
      obtain ⟨carried, last⟩ := parts
      rintro ⟨⟩
      exact Name.ne_empty_of_isValid (Name.isValid_of_splitLast hname hsplit).1 rfl

theorem full_ownSpace : Name.full head.name head.ownSpace = head.fullName := by
  by_cases hname : Name.isDotted head.name = true
  · rw [TypeHead.fullName, Name.full_of_dotted hname, Name.full_of_dotted hname]
  · rw [TypeHead.fullName, ownSpace_eq_filter (by simpa using hname)]
    cases hspace : head.space with
    | none => rfl
    | some own =>
        by_cases hempty : own = ""
        · simp [Option.filter, Name.full, hempty]
        · simp [Option.filter, hempty]

/-- The members that a definition is written with. -/
abbrev writtenMembers (space : Option String) (word : String) (head : TypeHead)
    (body : Entries Json) : Entries Json :=
  Entries.addAllMissing (opening space word head ++ body) head.props.entries

theorem get?_writtenMembers_type :
    (writtenMembers space word head body).get? "type" = some (.str word) := by
  rw [Entries.get?_addAllMissing, Entries.get?_append, get?_opening]
  rfl

theorem get?_writtenMembers_of_body {key : String} {value : Json} (hkey : key ∉ headAttributes)
    (hvalue : body.get? key = some value) :
    (writtenMembers space word head body).get? key = some value := by
  have hnone : (opening space word head).get? key = none := by
    rw [Entries.get?_eq_none_iff]
    intro hmem
    exact hkey (keys_opening_subset _ _ _ hmem)
  rw [Entries.get?_addAllMissing, Entries.get?_append, hnone, hvalue, Option.none_or,
    Option.some_or]

theorem get?_writtenMembers_namespace (hprops : "namespace" ∉ head.props.keys)
    (hbody : body.get? "namespace" = none) :
    (writtenMembers space word head body).get? "namespace" =
      (opening space word head).get? "namespace" := by
  have hnone : Entries.get? head.props.entries "namespace" = none :=
    Entries.get?_eq_none_iff.mpr hprops
  rw [Entries.get?_addAllMissing, Entries.get?_append, hbody, hnone, Option.or_none,
    Option.or_none]

/-- A written definition gives the full name of its type and the namespace that its fields are
written in. -/
theorem definition_writtenMembers (hname : Name.isValid head.name = true)
    (hprops : "namespace" ∉ head.props.keys) (hbody : body.get? "namespace" = none) :
    (Definition.ofMembers space (writtenMembers space word head body)).fullName =
        head.fullName ∧
      (Definition.ofMembers space (writtenMembers space word head body)).innerSpace =
        head.ownSpace := by
  have htext : Definition.textOf (writtenMembers space word head body) "name" = some head.name := by
    rw [Definition.textOf, Entries.get?_addAllMissing, Entries.get?_append, get?_opening]
    rfl
  have hdefined : (Definition.ofMembers space (writtenMembers space word head body)).name =
      head.name := by
    rw [Definition.ofMembers, htext, Option.getD_some]
  have hexplicit : (Definition.ofMembers space (writtenMembers space word head body)).explicit =
      if !Name.isDotted head.name && head.ownSpace ≠ space then some (head.ownSpace.getD "")
      else none := by
    change Definition.textOf (writtenMembers space word head body) "namespace" = _
    rw [Definition.textOf, get?_writtenMembers_namespace hprops hbody, get?_opening,
      openingSlots]
    split_ifs <;> rfl
  by_cases hdotted : Name.isDotted head.name = true
  · constructor
    · rw [Definition.fullName, hdefined, TypeHead.fullName, Name.full_of_dotted hdotted,
        Name.full_of_dotted hdotted]
    · rw [Definition.innerSpace, hdefined, innerSpace, TypeHead.ownSpace]
      cases hsplit : Name.splitLast head.name with
      | none =>
          rw [Name.splitLast_eq_none_iff.mp hsplit] at hdotted
          cases hdotted
      | some parts => rfl
  · have hundotted : Name.isDotted head.name = false := by simpa using hdotted
    have hown : (Definition.ofMembers space (writtenMembers space word head body)).space =
        head.ownSpace := by
      rw [Definition.space, hexplicit, hundotted]
      change givenSpace _ space = head.ownSpace
      simpa using givenSpace_of_differing (ownSpace_ne_empty hname)
    constructor
    · rw [Definition.fullName, hdefined, hown, full_ownSpace]
    · rw [Definition.innerSpace, hdefined, hown, innerSpace,
        Name.splitLast_eq_none_iff.mpr hundotted]

end Definitions

/-! ## The places of a written value -/

/-- A place of a value is what was written there. -/
inductive Shows : Mark → Writing → Prop
  | word {within space kind} : Shows (.mentions within space (PrimitiveKind.name kind)) (.word kind)
  | definition {within definition} :
      Shows (.defines within definition) (.definition definition.fullName)
  | reference {within space fullName} (hspace : space ≠ some "") :
      Shows (.mentions within space (referenceText space fullName)) (.reference space fullName)

/-- No attribute of a named type passes for its namespace. -/
abbrev KeepsSpaces : Schema → Prop :=
  AllHeads fun head => "namespace" ∉ head.props.keys

theorem names_of_shows {marks : List Mark} {writings : List Writing}
    (h : List.Forall₂ Shows marks writings) :
    Mark.definedNames marks = Writing.names writings := by
  induction h with
  | nil => rfl
  | cons hfirst _ ih =>
      cases hfirst with
      | word => simpa using ih
      | definition => simp [ih]
      | reference _ => simpa using ih

theorem marks_of_reference {within : List String} {space : Option String} {fullName : String} :
    (reference space fullName).marks within space =
      [.mentions within space (referenceText space fullName)] := by
  rw [reference_eq, Json.marks]

theorem get?_withProps {members : Entries Json} {props : Props} {key : String} {value : Json}
    (h : members.get? key = some value) :
    Entries.get? (members.addAllMissing props.entries) key = some value := by
  rw [Entries.get?_addAllMissing, h, Option.some_or]

mutual

/-- The places of a written value are what was written, in the same order. -/
theorem Writes.shows {space : Option String} {written written' : List String} {schema : Schema}
    {json : Json} (within : List String) :
    Writes space written schema json written' → KeepsSpaces schema → space ≠ some "" →
      List.Forall₂ Shows (json.marks within space) (writings space written schema)
  | .word _, _, _ => .cons .word .nil
  | @Writes.primitive _ _ kind _ _, _, _ => by
      rw [withProps, Json.marks_of_word (get?_withProps (by simp)) (name_notMem_typeWords kind)]
      exact .cons .word .nil
  | @Writes.array _ _ _ props json _ h, hkeeps, hspace => by
      have hvalue : Entries.get? (Entries.addAllMissing [("type", .str "array"), ("items", json)]
          props.entries) "items" = some json := get?_withProps (by simp)
      rw [withProps, Json.marks_of_array (get?_withProps (by simp)) hvalue]
      exact h.shows within (allHeads_array.mp hkeeps) hspace
  | @Writes.map _ _ _ props json _ h, hkeeps, hspace => by
      have hvalue : Entries.get? (Entries.addAllMissing [("type", .str "map"), ("values", json)]
          props.entries) "values" = some json := get?_withProps (by simp)
      rw [withProps, Json.marks_of_map (get?_withProps (by simp)) hvalue]
      exact h.shows within (allHeads_map.mp hkeeps) hspace
  | .union h, hkeeps, hspace => by
      rw [Json.marks]
      exact h.shows within (allHeads_union.mp hkeeps) hspace
  | @Writes.record _ _ head isError _ jsons _ hname hnew h, hkeeps, _ => by
      obtain ⟨hhead, hfields⟩ := allHeads_record.mp hkeeps
      have hvalue : (writtenMembers space (recordWord isError) head
          [("fields", .arr jsons)]).get? "fields" = some (.arr jsons) :=
        get?_writtenMembers_of_body (by decide) (by simp)
      obtain ⟨hfullName, hinner⟩ := @definition_writtenMembers space (recordWord isError) head
        [("fields", .arr jsons)] hname hhead (by simp)
      rw [withProps, Json.marks_of_record get?_writtenMembers_type hvalue, writings,
        namedWritings_of_notMem hnew, hinner]
      refine .cons ?_ (h.shows _ hfields (ownSpace_ne_empty hname))
      rw [← hfullName]
      exact .definition
  | @Writes.enum _ _ head symbols defaultSymbol hname hnew, hkeeps, _ => by
      obtain ⟨hfullName, -⟩ := @definition_writtenMembers space "enum" head
        (enumMembers symbols defaultSymbol) hname (allHeads_enum.mp hkeeps)
        (get?_enumMembers symbols defaultSymbol "namespace")
      rw [withProps, Json.marks_of_enum get?_writtenMembers_type, writings,
        namedWritings_of_notMem hnew, ← hfullName]
      exact .cons .definition .nil
  | @Writes.fixed _ _ head size hname hnew, hkeeps, _ => by
      obtain ⟨hfullName, -⟩ := @definition_writtenMembers space "fixed" head
        [("size", .ofUInt64 size)] hname (allHeads_fixed.mp hkeeps) (by simp)
      rw [withProps, Json.marks_of_fixed get?_writtenMembers_type, writings,
        namedWritings_of_notMem hnew, ← hfullName]
      exact .cons .definition .nil
  | .again hhead _ hmem, _, hspace => by
      rw [marks_of_reference, writings_of_mem hhead hmem]
      exact .cons (.reference hspace) .nil
  | .ref _, _, hspace => by
      rw [marks_of_reference, writings]
      exact .cons (.reference hspace) .nil

theorem WritesMembers.shows {space : Option String} {written written' : List String}
    {members : List Schema} {jsons : List Json} (within : List String) :
    WritesMembers space written members jsons written' →
      (∀ member ∈ members, KeepsSpaces member) → space ≠ some "" →
        List.Forall₂ Shows (Json.marksOfItems within space jsons)
          (writingsOfMembers space written members)
  | .nil, _, _ => .nil
  | .cons _ h hrest, hkeeps, hspace => by
      obtain ⟨hfirst, hothers⟩ := List.forall_mem_cons.mp hkeeps
      rw [Json.marksOfItems, writingsOfMembers, ← h.written_eq]
      exact List.rel_append (h.shows within hfirst hspace) (hrest.shows within hothers hspace)

theorem WritesFields.shows {space : Option String} {written written' : List String}
    {fields : List Field} {jsons : List Json} (within : List String) :
    WritesFields space written fields jsons written' →
      (∀ field ∈ fields, KeepsSpaces (FieldOf.schema field)) → space ≠ some "" →
        List.Forall₂ Shows (Json.marksOfFieldItems within space jsons)
          (writingsOfFields space written fields)
  | .nil, _, _ => .nil
  | @WritesFields.cons _ _ field _ json _ _ _ h hrest, hkeeps, hspace => by
      obtain ⟨hfirst, hothers⟩ := List.forall_mem_cons.mp hkeeps
      have htype : Entries.get? ((fieldMembers field json).addAllMissing field.props.entries)
          "type" = some json := get?_withProps (get?_fieldMembers field json "type")
      rw [Json.marksOfFieldItems, withProps, Json.marksOfField, Json.marksOfMember_of_get? htype,
        writingsOfFields, writingsOfField_eq, ← h.written_eq]
      exact List.rel_append (h.shows within hfirst hspace) (hrest.shows within hothers hspace)

end

end Schema

end EventSchema
