import EventSchema.Proofs.Enclosure
import EventSchema.Proofs.References

/-!
# Schemas that can be written

The writer refuses a named type with an invalid name, a union inside a union and
a reference without a name; a schema in which no node is refused is written,
whatever is written before it.  Reading leaves no such node.  The main statement
is that a schema that was read is written as a value that defines the types
claimed by the reading, in the same order, each of them before it is named.
-/

namespace EventSchema

open Mark (definedNames)

namespace Schema

/-! ## Nodes that are not refused -/

/-- The writer does not refuse the node. -/
def Writable : Schema → Prop
  | union members => ∀ member ∈ members, ∀ inner, member ≠ union inner
  | record head _ _ => Name.isValid head.name = true
  | enum head _ _ => Name.isValid head.name = true
  | fixed head _ => Name.isValid head.name = true
  | ref name => name ≠ ""
  | _ => True

section Writing

variable {space : Option String}

theorem exists_writesMembers {members : List Schema} {written : List String}
    (hmember : ∀ member ∈ members, ∀ inner, member ≠ union inner)
    (hwrites : ∀ member ∈ members, ∀ written, ∃ json written',
      Writes space written member json written') :
    ∃ jsons written', WritesMembers space written members jsons written' := by
  induction members generalizing written with
  | nil => exact ⟨[], written, .nil⟩
  | cons member rest ih =>
      obtain ⟨hfirst, hothers⟩ := List.forall_mem_cons.mp hmember
      obtain ⟨hwritesFirst, hwritesOthers⟩ := List.forall_mem_cons.mp hwrites
      obtain ⟨json, between, hjson⟩ := hwritesFirst written
      obtain ⟨jsons, written', hjsons⟩ := @ih between hothers hwritesOthers
      exact ⟨json :: jsons, written', .cons hfirst hjson hjsons⟩

theorem exists_writesFields {fields : List Field} {written : List String}
    (hwrites : ∀ field ∈ fields, ∀ written, ∃ json written',
      Writes space written (FieldOf.schema field) json written') :
    ∃ jsons written', WritesFields space written fields jsons written' := by
  induction fields generalizing written with
  | nil => exact ⟨[], written, .nil⟩
  | cons field rest ih =>
      obtain ⟨hfirst, hothers⟩ := List.forall_mem_cons.mp hwrites
      obtain ⟨json, between, hjson⟩ := hfirst written
      obtain ⟨jsons, written', hjsons⟩ := @ih between hothers
      exact ⟨_, written', .cons hjson hjsons⟩

/-- A schema in which no node is refused is written, whatever is written before it. -/
theorem exists_writes {schema : Schema} (h : AllNodes Writable schema) (written : List String) :
    ∃ json written', Writes space written schema json written' := by
  induction schema using induct generalizing space written with
  | primitive kind props =>
      cases hprops : props.entries.isEmpty with
      | true => exact ⟨_, written, .word hprops⟩
      | false => exact ⟨_, written, .primitive hprops⟩
  | array items props ih =>
      obtain ⟨json, written', hitems⟩ := @ih space (allNodes_array.mp h).2 written
      exact ⟨_, written', .array hitems⟩
  | map values props ih =>
      obtain ⟨json, written', hvalues⟩ := @ih space (allNodes_map.mp h).2 written
      exact ⟨_, written', .map hvalues⟩
  | union members ih =>
      obtain ⟨hroot, hmembers⟩ := allNodes_union.mp h
      have hwrites : ∀ member ∈ members, ∀ written, ∃ json written',
          Writes space written member json written' := by
        intro member hmem written
        exact ih member hmem (hmembers member hmem) written
      obtain ⟨jsons, written', hjsons⟩ := exists_writesMembers hroot hwrites
      exact ⟨_, written', .union hjsons⟩
  | record head isError fields ih =>
      obtain ⟨hname, hfields⟩ := allNodes_record.mp h
      by_cases hmem : head.fullName ∈ written
      · exact ⟨_, written, .again rfl hname hmem⟩
      · have hwrites : ∀ field ∈ fields, ∀ written, ∃ json written',
            Writes head.ownSpace written (FieldOf.schema field) json written' := by
          intro field hfield written
          exact ih field hfield (hfields field hfield) written
        obtain ⟨jsons, written', hjsons⟩ := exists_writesFields hwrites
        exact ⟨_, written', .record hname hmem hjsons⟩
  | enum head symbols defaultSymbol =>
      have hname : Name.isValid head.name = true := h.root
      by_cases hmem : head.fullName ∈ written
      · exact ⟨_, written, .again rfl hname hmem⟩
      · exact ⟨_, _, .enum hname hmem⟩
  | fixed head size =>
      have hname : Name.isValid head.name = true := h.root
      by_cases hmem : head.fullName ∈ written
      · exact ⟨_, written, .again rfl hname hmem⟩
      · exact ⟨_, _, .fixed hname hmem⟩
  | ref name => exact ⟨_, written, .ref h.root⟩

end Writing

/-! ## References with names -/

/-- A reference has a name. -/
def Addressed (node : Schema) : Prop :=
  ∀ name, node = ref name → name ≠ ""

theorem addressed_of_head {node : Schema} {head : TypeHead} (hhead : node.head? = some head) :
    Addressed node := by
  rintro name rfl
  cases hhead

theorem Addressed.close {fullName : String} {definition schema : Schema}
    (hdefinition : Addressed definition) (h : Addressed schema) :
    Addressed (close fullName definition schema) := by
  cases schema with
  | primitive | array | map | union | record | enum | fixed =>
      rintro name ⟨⟩
  | ref name =>
      rw [Schema.close]
      split
      · exact hdefinition
      · exact h

theorem allAddressed_closeRecord (head : TypeHead) (isError : Bool) {fields : List Field}
    (h : ∀ field ∈ fields, AllNodes Addressed (FieldOf.schema field)) :
    AllNodes Addressed (closeRecord head isError fields) := by
  have hroot : Addressed (record head isError fields) := addressed_of_head rfl
  have hrecord : AllNodes Addressed (record head isError fields) :=
    allNodes_record.mpr ⟨hroot, h⟩
  have hclose : ∀ node, Addressed node →
      Addressed (Schema.close head.fullName (record head isError fields) node) := by
    intro node hnode
    exact hroot.close hnode
  rw [closeRecord_eq_close]
  exact hrecord.close hclose hrecord

end Schema

namespace Scope

/-- No claimed name is empty, and the references of finished types have names. -/
structure Addressed (scope : Scope) : Prop where
  claimed : ∀ fullName ∈ scope.claimed, fullName ≠ ""
  finished : ∀ {fullName definition}, scope.finished.get? fullName = some definition →
    Schema.AllNodes Schema.Addressed definition

section Addressing

variable {scope opened : Scope} {fullName : String} {definition schema : Schema}

theorem addressed_empty : ({} : Scope).Addressed := by
  constructor
  · exact List.forall_mem_nil _
  · intro fullName definition h
    cases h

theorem Addressed.claim {head : TypeHead} (hscope : scope.Addressed)
    (hname : Name.isValid head.name = true) (hclaim : scope.claim head.fullName = .ok opened) :
    opened.Addressed := by
  obtain ⟨-, -, rfl⟩ := claim_eq_ok_iff.mp hclaim
  refine ⟨?_, hscope.finished⟩
  intro other hmem
  rcases List.mem_append.mp hmem with hearlier | hnew
  · exact hscope.claimed other hearlier
  · rw [List.mem_singleton.mp hnew]
    exact Name.full_ne_empty (Name.ne_empty_of_isValid hname) head.space

theorem Addressed.finish (hscope : scope.Addressed)
    (hdefinition : Schema.AllNodes Schema.Addressed definition) :
    (scope.finish fullName definition).Addressed := by
  refine ⟨hscope.claimed, ?_⟩
  intro other found h
  rcases get?_finished_finish h with hearlier | ⟨rfl, rfl⟩
  · exact hscope.finished hearlier
  · exact hdefinition

theorem Addressed.schemaOfName {space : Option String} {name : String} (hscope : scope.Addressed)
    (h : scope.schemaOfName space name = .ok schema) : Schema.AllNodes Schema.Addressed schema := by
  rcases schemaOfName_eq_ok h with ⟨kind, -, rfl⟩ | ⟨fullName, hdenotes, rfl⟩
  · refine Schema.allNodes_primitive.mpr ?_
    rintro other ⟨⟩
  · rw [stored]
    cases hfound : scope.finished.get? fullName with
    | some found => exact hscope.finished hfound
    | none =>
        refine Schema.allNodes_ref.mpr ?_
        rintro other ⟨⟩
        exact hscope.claimed fullName hdenotes.mem

end Addressing

end Scope

namespace Schema

mutual

/-- A reading from a scope without empty names leaves such a scope, and gives every reference its
name. -/
theorem Reads.addressed {scope scope' : Scope} {space : Option String} {value : Json}
    {schema : Schema} :
    Reads scope space value schema scope' → scope.Addressed →
      scope'.Addressed ∧ AllNodes Addressed schema
  | .name h, hscope => ⟨hscope, hscope.schemaOfName h⟩
  | .union h, hscope => by
      obtain ⟨hscope', hmembers⟩ := h.addressed hscope
      refine ⟨hscope', allNodes_union.mpr ⟨?_, hmembers⟩⟩
      rintro name ⟨⟩
  | .primitive _, hscope => by
      refine ⟨hscope, allNodes_primitive.mpr ?_⟩
      rintro name ⟨⟩
  | .array _ _ h, hscope => by
      obtain ⟨hscope', hitems⟩ := h.addressed hscope
      refine ⟨hscope', allNodes_array.mpr ⟨?_, hitems⟩⟩
      rintro name ⟨⟩
  | .map _ _ h, hscope => by
      obtain ⟨hscope', hvalues⟩ := h.addressed hscope
      refine ⟨hscope', allNodes_map.mpr ⟨?_, hvalues⟩⟩
      rintro name ⟨⟩
  | @Reads.record _ _ _ head isError _ _ _ _ _ hhead hclaim _ h, hscope => by
      obtain ⟨hscope', hfields⟩ := h.addressed (hscope.claim hhead.sound.name hclaim)
      have hrecord := allAddressed_closeRecord head isError hfields
      exact ⟨hscope'.finish hrecord, hrecord⟩
  | @Reads.enum _ _ _ head _ symbols defaultSymbol _ _ hhead hclaim _ _ _, hscope => by
      have henum : AllNodes Addressed (enum head symbols defaultSymbol) :=
        allNodes_enum.mpr (addressed_of_head rfl)
      exact ⟨(hscope.claim hhead.sound.name hclaim).finish henum, henum⟩
  | @Reads.fixed _ _ _ head _ size _ _ hhead hclaim _ _, hscope => by
      have hfixed : AllNodes Addressed (fixed head size) :=
        allNodes_fixed.mpr (addressed_of_head rfl)
      exact ⟨(hscope.claim hhead.sound.name hclaim).finish hfixed, hfixed⟩
  | .named _ _ _ h, hscope => ⟨hscope, hscope.schemaOfName h⟩

theorem ReadsMembers.addressed {scope scope' : Scope} {space : Option String}
    {seen : List String} {items : List Json} {schemas : List Schema} :
    ReadsMembers scope space seen items schemas scope' → scope.Addressed →
      scope'.Addressed ∧ ∀ member ∈ schemas, AllNodes Addressed member
  | .nil, hscope => ⟨hscope, List.forall_mem_nil _⟩
  | .cons h _ _ hrest, hscope => by
      obtain ⟨hbetween, hfirst⟩ := h.addressed hscope
      obtain ⟨hscope', hothers⟩ := hrest.addressed hbetween
      exact ⟨hscope', List.forall_mem_cons.mpr ⟨hfirst, hothers⟩⟩

theorem ReadsFields.addressed {scope scope' : Scope} {space : Option String}
    {seen : List String} {items : List Json} {fields : List Field} :
    ReadsFields scope space seen items fields scope' → scope.Addressed →
      scope'.Addressed ∧ ∀ field ∈ fields, AllNodes Addressed (FieldOf.schema field)
  | .nil, hscope => ⟨hscope, List.forall_mem_nil _⟩
  | .cons _ _ h _ hrest, hscope => by
      obtain ⟨hbetween, hfirst⟩ := h.addressed hscope
      obtain ⟨hscope', hothers⟩ := hrest.addressed hbetween
      exact ⟨hscope', List.forall_mem_cons.mpr ⟨hfirst, hothers⟩⟩

end

/-! ## Writing what was read -/

/-- A node that has passed the checks of its kind is not refused, if it is no reference without a
name. -/
theorem Legal.writable {node : Schema} (h : node.Legal) (haddressed : Addressed node) :
    Writable node := by
  cases node with
  | primitive | array | map => trivial
  | union members =>
      rintro member hmem inner rfl
      have hkey := h.wellBuilt.1 _ hmem
      simp [unionKey?] at hkey
  | record head isError fields => exact h.wellBuilt.1.name
  | enum head symbols defaultSymbol => exact h.wellBuilt.1.name
  | fixed head size => exact TypeHead.Sound.name h.wellBuilt
  | ref name => exact haddressed name rfl

theorem allWritable_of_ofJson {value : Json} {schema : Schema} (h : ofJson value = .ok schema) :
    AllNodes Writable schema := by
  obtain ⟨scope, hreads⟩ := ofJson_eq_ok_iff.mp h
  have hlegal := (hreads.legal Scope.legal_empty).2
  have haddressed := (hreads.addressed Scope.addressed_empty).2
  intro path node hnode
  exact (hlegal path node hnode).writable (haddressed path node hnode)

/-- A schema that was read is written.  What is written defines the names that the reading
claimed, each of them once and in the same order, and mentions a type only after its definition. -/
theorem writes_in_place {value : Json} {schema : Schema} (h : ofJson value = .ok schema) :
    ∃ scope json, read {} none value = .ok (schema, scope) ∧ schema.toJson = .ok json ∧
      scope.claimed.Nodup ∧ definedNames (json.marks [] none) = scope.claimed ∧
        ∀ before space fullName after,
          writings none [] schema = before ++ .reference space fullName :: after →
          ∃ first within later,
            json.marks [] none =
              first ++ .mentions within space (referenceText space fullName) :: later ∧
            List.Forall₂ Shows first before ∧ List.Forall₂ Shows later after ∧
              fullName ∈ definedNames first := by
  obtain ⟨scope, hreads⟩ := ofJson_eq_ok_iff.mp h
  obtain ⟨json, written, hwrites⟩ := @exists_writes none _ (allWritable_of_ofJson h) []
  have hshows := hwrites.shows [] (Produced.keepsSpaces (.inl ⟨value, h⟩)) (by decide)
  obtain ⟨-, hclaimed, hvisible⟩ := hreads.visible Scope.settled_empty
  refine ⟨scope, json, read_of_reads hreads, toJson_eq_ok_iff.mpr ⟨written, hwrites⟩,
    (hreads.legal Scope.legal_empty).1.nodup, ?_, ?_⟩
  · rw [names_of_shows hshows, hclaimed]
    rfl
  · intro before space fullName after hwritings
    obtain ⟨hmem, -⟩ := hvisible before space fullName after hwritings
    have hsplit := hshows
    rw [hwritings] at hsplit
    obtain ⟨first, within, later, hmarks, hfirst, hlater, -⟩ := exists_mark_of_shows hsplit
    refine ⟨first, within, later, hmarks, hfirst, hlater, ?_⟩
    rw [names_of_shows hfirst]
    exact hmem

/-- A record of one field. -/
def holding (name field : String) (inner : Schema) : Schema :=
  record { name } false [{ name := field, schema := inner }]

/-- The schema of `nestedRecord`. -/
def nestedSchema : Schema :=
  record { name := "C" } false [
    { name := "h1", schema := holding "A" "f" (holding "B" "g"
      (holding "A" "f" (holding "B" "g" (ref "A")))) },
    { name := "h2", schema := holding "B" "g" (ref "A") }]

/-- The records are written where they were defined, and the copy of the innermost one, which the
last field has, is written as its name. -/
theorem writes_in_place_nestedRecord :
    ofJson nestedRecord = .ok nestedSchema ∧ ∃ json first within later,
      nestedSchema.toJson = .ok json ∧ definedNames (json.marks [] none) = ["C", "A", "B"] ∧
        json.marks [] none = first ++ .mentions within none "B" :: later ∧
          "B" ∈ definedNames first := by
  have h : ofJson nestedRecord = .ok nestedSchema := rfl
  obtain ⟨scope, json, hread, hjson, -, hnames, hmentions⟩ := writes_in_place h
  have hclaimed : scope.claimed = ["C", "A", "B"] := by
    rw [(reads_of_read hread).claimed []]
    decide
  have hwritings : writings none [] nestedSchema =
      [.definition "C", .definition "A", .definition "B", .reference none "A"] ++
        .reference none "B" :: [] := by
    decide
  obtain ⟨first, within, later, hmarks, -, -, hmem⟩ := hmentions _ _ _ _ hwritings
  have htext : referenceText none "B" = "B" := by decide
  rw [htext] at hmarks
  exact ⟨h, json, first, within, later, hjson, hnames.trans hclaimed, hmarks, hmem⟩

end Schema

end EventSchema
