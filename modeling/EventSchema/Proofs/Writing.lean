import EventSchema.Proofs.Closing
import EventSchema.Proofs.Resolution

/-!
# Derivations of writings

A schema that is written out successfully has a derivation: one rule for each
way in which a node is written, threading the full names written so far from
one part of the schema to the next.  The main statement is that the writer
succeeds exactly when there is a derivation.  Writing does not tell a reference
to a written type from the type's definition, so closing such references changes
no writing.
-/

namespace EventSchema

namespace Schema

/-! ## The rules -/

mutual

/-- `Writes space written schema json written'`: within a namespace, a schema is written as a
value, and takes the full names written before it to those written after it. -/
inductive Writes : Option String → List String → Schema → Json → List String → Prop
  | word {space written kind props} (hprops : props.entries.isEmpty = true) :
      Writes space written (primitive kind props) (.str (PrimitiveKind.name kind)) written
  | primitive {space written kind props} (hprops : props.entries.isEmpty = false) :
      Writes space written (primitive kind props)
        (withProps [("type", .str (PrimitiveKind.name kind))] props) written
  | array {space written items props json written'} (h : Writes space written items json written') :
      Writes space written (array items props)
        (withProps [("type", .str "array"), ("items", json)] props) written'
  | map {space written values props json written'} (h : Writes space written values json written') :
      Writes space written (map values props)
        (withProps [("type", .str "map"), ("values", json)] props) written'
  | union {space written members jsons written'}
      (h : WritesMembers space written members jsons written') :
      Writes space written (union members) (.arr jsons) written'
  | record {space written head isError fields jsons written'}
      (hname : Name.isValid (TypeHead.name head) = true) (hnew : head.fullName ∉ written)
      (h : WritesFields head.ownSpace (written ++ [head.fullName]) fields jsons written') :
      Writes space written (record head isError fields)
        (withProps (opening space (recordWord isError) head ++ [("fields", .arr jsons)])
          head.props) written'
  | enum {space written head symbols defaultSymbol}
      (hname : Name.isValid (TypeHead.name head) = true) (hnew : head.fullName ∉ written) :
      Writes space written (enum head symbols defaultSymbol)
        (withProps (opening space "enum" head ++ enumMembers symbols defaultSymbol) head.props)
        (written ++ [head.fullName])
  | fixed {space written head size}
      (hname : Name.isValid (TypeHead.name head) = true) (hnew : head.fullName ∉ written) :
      Writes space written (fixed head size)
        (withProps (opening space "fixed" head ++ [("size", .ofUInt64 size)]) head.props)
        (written ++ [head.fullName])
  | again {space written schema head} (hhead : head? schema = some head)
      (hname : Name.isValid (TypeHead.name head) = true) (hmem : head.fullName ∈ written) :
      Writes space written schema (reference space head.fullName) written
  | ref {space written name} (hname : name ≠ "") :
      Writes space written (ref name) (reference space name) written

/-- The members of a union from one of them on; none of them is a union. -/
inductive WritesMembers :
    Option String → List String → List Schema → List Json → List String → Prop
  | nil {space written} : WritesMembers space written [] [] written
  | cons {space written member members json jsons between written'}
      (hmember : ∀ inner, member ≠ union inner) (h : Writes space written member json between)
      (hrest : WritesMembers space between members jsons written') :
      WritesMembers space written (member :: members) (json :: jsons) written'

/-- The fields of a record from one of them on. -/
inductive WritesFields :
    Option String → List String → List Field → List Json → List String → Prop
  | nil {space written} : WritesFields space written [] [] written
  | cons {space written field fields json jsons between written'}
      (h : Writes space written (FieldOf.schema field) json between)
      (hrest : WritesFields space between fields jsons written') :
      WritesFields space written (field :: fields)
        (withProps (fieldMembers field json) field.props :: jsons) written'

end

/-! ## The writer follows the rules -/

theorem writeNamed_eq_ok {space : Option String} {written written' : List String}
    {head : TypeHead} {json : Json}
    {body : List String → Except SchemaWriteError (Json × List String)}
    (h : writeNamed space written head body = .ok (json, written')) :
    Name.isValid head.name = true ∧
      (head.fullName ∈ written ∧ json = reference space head.fullName ∧ written' = written ∨
        head.fullName ∉ written ∧ body (written ++ [head.fullName]) = .ok (json, written')) := by
  rw [writeNamed] at h
  split at h
  next => cases h
  next hname =>
    refine ⟨by simpa using hname, ?_⟩
    split at h
    next hmem =>
      cases h
      exact .inl ⟨hmem, rfl, rfl⟩
    next hnew => exact .inr ⟨hnew, h⟩

theorem writeNamed_of_mem {space : Option String} {written : List String} {head : TypeHead}
    {body : List String → Except SchemaWriteError (Json × List String)}
    (hname : Name.isValid head.name = true) (hmem : head.fullName ∈ written) :
    writeNamed space written head body = .ok (reference space head.fullName, written) := by
  rw [writeNamed, hname, if_neg (by decide), if_pos hmem]

theorem writeNamed_of_notMem {space : Option String} {written : List String} {head : TypeHead}
    {body : List String → Except SchemaWriteError (Json × List String)}
    (hname : Name.isValid head.name = true) (hnew : head.fullName ∉ written) :
    writeNamed space written head body = body (written ++ [head.fullName]) := by
  rw [writeNamed, hname, if_neg (by decide), if_neg hnew]

mutual

theorem writes_of_write {space : Option String} {written written' : List String} {json : Json} :
    ∀ {schema : Schema}, write space written schema = .ok (json, written') →
      Writes space written schema json written'
  | .primitive kind props, h => by
      rw [write] at h
      split at h
      next hprops =>
        cases h
        exact .word hprops
      next hprops =>
        cases h
        exact .primitive (by simpa using hprops)
  | .array items props, h => by
      rw [write] at h
      obtain ⟨⟨inner, after⟩, hitems, h⟩ := bind_eq_ok_iff.mp h
      cases h
      exact .array (writes_of_write hitems)
  | .map values props, h => by
      rw [write] at h
      obtain ⟨⟨inner, after⟩, hvalues, h⟩ := bind_eq_ok_iff.mp h
      cases h
      exact .map (writes_of_write hvalues)
  | .union members, h => by
      rw [write] at h
      obtain ⟨⟨jsons, after⟩, hmembers, h⟩ := bind_eq_ok_iff.mp h
      cases h
      exact .union (writesMembers_of_write hmembers)
  | .record head isError fields, h => by
      rw [write] at h
      obtain ⟨hname, ⟨hmem, rfl, rfl⟩ | ⟨hnew, h⟩⟩ := writeNamed_eq_ok h
      · exact .again rfl hname hmem
      · obtain ⟨⟨jsons, after⟩, hfields, h⟩ := bind_eq_ok_iff.mp h
        cases h
        exact .record hname hnew (writesFields_of_write hfields)
  | .enum head symbols defaultSymbol, h => by
      rw [write] at h
      obtain ⟨hname, ⟨hmem, rfl, rfl⟩ | ⟨hnew, h⟩⟩ := writeNamed_eq_ok h
      · exact .again rfl hname hmem
      · cases h
        exact .enum hname hnew
  | .fixed head size, h => by
      rw [write] at h
      obtain ⟨hname, ⟨hmem, rfl, rfl⟩ | ⟨hnew, h⟩⟩ := writeNamed_eq_ok h
      · exact .again rfl hname hmem
      · cases h
        exact .fixed hname hnew
  | .ref name, h => by
      rw [write] at h
      split at h
      next => cases h
      next hname =>
        cases h
        exact .ref (by simpa using hname)

theorem writesMembers_of_write {space : Option String} {written written' : List String}
    {place : Nat} {jsons : List Json} :
    ∀ {members : List Schema}, writeMembers space written place members = .ok (jsons, written') →
      WritesMembers space written members jsons written'
  | [], h => by
      cases h
      exact .nil
  | member :: rest, h => by
      rw [writeMembers.eq_def] at h
      split at h
      next heq => cases heq
      next => cases h
      next hmember heq =>
        cases heq
        obtain ⟨⟨json, between⟩, hjson, h⟩ := bind_eq_ok_iff.mp h
        obtain ⟨⟨others, after⟩, hrest, h⟩ := bind_eq_ok_iff.mp h
        cases h
        exact .cons hmember (writes_of_write hjson) (writesMembers_of_write hrest)

theorem writeField_eq_ok {space : Option String} {written written' : List String} {json : Json} :
    ∀ {field : Field}, writeField space written field = .ok (json, written') →
      ∃ type, json = withProps (fieldMembers field type) field.props ∧
        Writes space written field.schema type written'
  | ⟨_, schema, _, _, _, _, _⟩, h => by
      rw [writeField] at h
      obtain ⟨⟨type, after⟩, htype, h⟩ := bind_eq_ok_iff.mp h
      cases h
      exact ⟨type, rfl, writes_of_write htype⟩

theorem writesFields_of_write {space : Option String} {written written' : List String}
    {jsons : List Json} :
    ∀ {fields : List Field}, writeFields space written fields = .ok (jsons, written') →
      WritesFields space written fields jsons written'
  | [], h => by
      cases h
      exact .nil
  | field :: rest, h => by
      rw [writeFields] at h
      obtain ⟨⟨json, between⟩, hjson, h⟩ := bind_eq_ok_iff.mp h
      obtain ⟨⟨others, after⟩, hrest, h⟩ := bind_eq_ok_iff.mp h
      cases h
      obtain ⟨type, rfl, htype⟩ := writeField_eq_ok hjson
      exact .cons htype (writesFields_of_write hrest)

end

/-! ## Every derivation is a successful writing -/

theorem write_of_head? {space : Option String} {written : List String} {head : TypeHead}
    {schema : Schema} (hhead : schema.head? = some head) (hname : Name.isValid head.name = true)
    (hmem : head.fullName ∈ written) :
    write space written schema = .ok (reference space head.fullName, written) := by
  cases schema with
  | record | enum | fixed =>
      cases hhead
      rw [write]
      exact writeNamed_of_mem hname hmem
  | primitive | array | map | union | ref => cases hhead

mutual

theorem write_of_writes {space : Option String} {written written' : List String} {json : Json}
    {schema : Schema} :
    Writes space written schema json written' →
      write space written schema = .ok (json, written')
  | .word hprops => by rw [write, if_pos hprops]
  | .primitive hprops => by
      rw [write, if_neg]
      rw [hprops]
      decide
  | .array h => by
      rw [write, write_of_writes h]
      rfl
  | .map h => by
      rw [write, write_of_writes h]
      rfl
  | .union h => by
      rw [write, writeMembers_of_writes h]
      rfl
  | .record hname hnew h => by
      rw [write, writeNamed_of_notMem hname hnew, writeFields_of_writes h]
      rfl
  | .enum hname hnew => by rw [write, writeNamed_of_notMem hname hnew]
  | .fixed hname hnew => by rw [write, writeNamed_of_notMem hname hnew]
  | .again hhead hname hmem => write_of_head? hhead hname hmem
  | .ref hname => by
      rw [write, if_neg]
      simpa using hname

theorem writeMembers_of_writes {space : Option String} {written written' : List String}
    {members : List Schema} {jsons : List Json} {place : Nat} :
    WritesMembers space written members jsons written' →
      writeMembers space written place members = .ok (jsons, written')
  | .nil => rfl
  | .cons hmember h hrest => by
      rw [writeMembers, write_of_writes h, ok_bind]
      · dsimp only
        rw [writeMembers_of_writes hrest]
        rfl
      · exact hmember

theorem writeFields_of_writes {space : Option String} {written written' : List String}
    {fields : List Field} {jsons : List Json} :
    WritesFields space written fields jsons written' →
      writeFields space written fields = .ok (jsons, written')
  | .nil => rfl
  | @WritesFields.cons _ _ field _ json _ between _ h hrest => by
      have hfield : writeField space written field =
          .ok (withProps (fieldMembers field json) field.props, between) := by
        cases field
        rw [writeField, write_of_writes h]
        rfl
      rw [writeFields, hfield, ok_bind]
      dsimp only
      rw [writeFields_of_writes hrest]
      rfl

end

/-- The writer succeeds exactly when there is a derivation. -/
theorem write_eq_ok_iff {space : Option String} {written written' : List String} {schema : Schema}
    {json : Json} :
    write space written schema = .ok (json, written') ↔ Writes space written schema json written' :=
  ⟨writes_of_write, write_of_writes⟩

theorem toJson_eq_ok_iff {schema : Schema} {json : Json} :
    toJson schema = .ok json ↔ ∃ written, Writes none [] schema json written := by
  rw [toJson, bind_eq_ok_iff]
  constructor
  · rintro ⟨⟨found, written⟩, hwrite, h⟩
    cases h
    exact ⟨written, writes_of_write hwrite⟩
  · rintro ⟨written, h⟩
    exact ⟨(json, written), write_of_writes h, rfl⟩

/-! ## Names already written -/

mutual

theorem Writes.mem_written {fullName : String} {space : Option String}
    {written written' : List String} {schema : Schema} {json : Json} :
    Writes space written schema json written' → fullName ∈ written → fullName ∈ written'
  | .word _, hmem | .primitive _, hmem | .again .., hmem | .ref _, hmem => hmem
  | .array h, hmem | .map h, hmem => h.mem_written hmem
  | .union h, hmem => h.mem_written hmem
  | .record _ _ h, hmem => h.mem_written (List.mem_append_left _ hmem)
  | .enum .., hmem | .fixed .., hmem => List.mem_append_left _ hmem

theorem WritesMembers.mem_written {fullName : String} {space : Option String}
    {written written' : List String} {members : List Schema} {jsons : List Json} :
    WritesMembers space written members jsons written' → fullName ∈ written →
      fullName ∈ written'
  | .nil, hmem => hmem
  | .cons _ h hrest, hmem => hrest.mem_written (h.mem_written hmem)

theorem WritesFields.mem_written {fullName : String} {space : Option String}
    {written written' : List String} {fields : List Field} {jsons : List Json} :
    WritesFields space written fields jsons written' → fullName ∈ written →
      fullName ∈ written'
  | .nil, hmem => hmem
  | .cons h hrest, hmem => hrest.mem_written (h.mem_written hmem)

end

/-- The schema defines the named type of this full name, under a valid name. -/
structure Defines (schema : Schema) (fullName : String) (head : TypeHead) : Prop where
  head_eq : schema.head? = some head
  fullName_eq : head.fullName = fullName
  valid : Name.isValid head.name = true

end Schema

namespace Scope

/-- Every finished type is defined under the full name that it was claimed by. -/
structure Settled (scope : Scope) : Prop where
  finished : ∀ {fullName definition}, scope.finished.get? fullName = some definition →
    fullName ∈ scope.claimed ∧ ∃ head, Schema.Defines definition fullName head

theorem settled_empty : ({} : Scope).Settled := by
  constructor
  intro fullName definition h
  cases h

theorem Settled.claim {scope opened : Scope} {fullName : String} (hscope : scope.Settled)
    (hclaim : scope.claim fullName = .ok opened) : opened.Settled := by
  obtain ⟨-, -, rfl⟩ := claim_eq_ok_iff.mp hclaim
  constructor
  intro other definition h
  obtain ⟨hmem, hdefines⟩ := hscope.finished h
  exact ⟨List.mem_append_left _ hmem, hdefines⟩

theorem Settled.finish {scope : Scope} {fullName : String} {definition : Schema}
    {head : TypeHead} (hscope : scope.Settled) (hmem : fullName ∈ scope.claimed)
    (hdefines : Schema.Defines definition fullName head) :
    (scope.finish fullName definition).Settled := by
  constructor
  intro other found h
  rcases get?_finished_finish h with hearlier | ⟨rfl, rfl⟩
  · exact hscope.finished hearlier
  · exact ⟨hmem, head, hdefines⟩

end Scope

namespace Schema

theorem close_ne_union {fullName : String} {definition schema : Schema} {head : TypeHead}
    (hdefines : Defines definition fullName head) (h : ∀ members, schema ≠ union members)
    (members : List Schema) : close fullName definition schema ≠ union members := by
  cases schema with
  | union inner => exact absurd rfl (h inner)
  | ref name =>
      rw [close]
      split
      · rintro rfl
        cases hdefines.head_eq
      · rintro ⟨⟩
  | primitive | array | map | record | enum | fixed => rintro ⟨⟩

theorem fieldMembers_closeField {fullName : String} {definition : Schema} (field : Field)
    (json : Json) :
    withProps (fieldMembers (closeField fullName definition field) json)
        (closeField fullName definition field).props =
      withProps (fieldMembers field json) field.props := by
  cases field
  rfl

mutual

/-- Once a type is written, its definition is written as a reference to it would be. -/
theorem Writes.close {fullName : String} {definition : Schema} {head : TypeHead}
    (hdefines : Defines definition fullName head) {space : Option String}
    {written written' : List String} {schema : Schema} {json : Json} :
    Writes space written schema json written' → fullName ∈ written →
      Writes space written (close fullName definition schema) json written'
  | .word hprops, _ => .word hprops
  | .primitive hprops, _ => .primitive hprops
  | .array h, hmem => .array (h.close hdefines hmem)
  | .map h, hmem => .map (h.close hdefines hmem)
  | .union h, hmem => .union (h.close hdefines hmem)
  | .record hname hnew h, hmem =>
      .record hname hnew (h.close hdefines (List.mem_append_left _ hmem))
  | .enum hname hnew, _ => .enum hname hnew
  | .fixed hname hnew, _ => .fixed hname hnew
  | .again hhead hname hwritten, _ => .again (head?_close hhead) hname hwritten
  | @Writes.ref _ _ name hname, hmem => by
      rw [Schema.close]
      split
      next heq =>
        subst heq
        rw [← hdefines.fullName_eq] at hmem ⊢
        exact .again hdefines.head_eq hdefines.valid hmem
      next => exact .ref hname

theorem WritesMembers.close {fullName : String} {definition : Schema} {head : TypeHead}
    (hdefines : Defines definition fullName head) {space : Option String}
    {written written' : List String} {members : List Schema} {jsons : List Json} :
    WritesMembers space written members jsons written' → fullName ∈ written →
      WritesMembers space written (closeList fullName definition members) jsons written'
  | .nil, _ => .nil
  | .cons hmember h hrest, hmem =>
      .cons (close_ne_union hdefines hmember) (h.close hdefines hmem)
        (hrest.close hdefines (h.mem_written hmem))

theorem WritesFields.close {fullName : String} {definition : Schema} {head : TypeHead}
    (hdefines : Defines definition fullName head) {space : Option String}
    {written written' : List String} {fields : List Field} {jsons : List Json} :
    WritesFields space written fields jsons written' → fullName ∈ written →
      WritesFields space written (closeFields fullName definition fields) jsons written'
  | .nil, _ => .nil
  | @WritesFields.cons _ _ field _ _ _ _ _ h hrest, hmem => by
      have hclosed := h.close hdefines hmem
      rw [← schema_closeField] at hclosed
      rw [closeFields, ← fieldMembers_closeField]
      exact .cons hclosed (hrest.close hdefines (h.mem_written hmem))

end

end Schema

end EventSchema
