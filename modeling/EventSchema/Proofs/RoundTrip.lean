import EventSchema.Proofs.Marks
import EventSchema.Proofs.Rereading

/-!
# Reading, writing and reading again

A schema that was read is written as a value that is read as the same schema.
The writer has written exactly the full names that the reader has claimed at the
same place, so that a type is written as a name exactly where its name was read,
and the name denotes the type again.  This needs that no definition hides a
primitive type behind the last segment of its full name, and that no definition
gives two namespaces.
-/

namespace EventSchema

/-- The last segment of the full name is no primitive type's name, and a dotted name comes without
a namespace attribute. -/
structure Definition.Portable (definition : Definition) : Prop where
  last : PrimitiveKind.ofName? (Name.last definition.fullName) = none
  explicit : Name.isDotted definition.name = true → definition.explicit = none

instance (definition : Definition) : Decidable definition.Portable :=
  decidable_of_iff (PrimitiveKind.ofName? (Name.last definition.fullName) = none ∧
      (Name.isDotted definition.name = true → definition.explicit = none))
    ⟨fun h => ⟨h.1, h.2⟩, fun h => ⟨h.last, h.explicit⟩⟩

/-- Every claimed full name can be written as a name, and every finished type has its
definition. -/
structure Scope.Portable (scope : Scope) : Prop where
  last : ∀ fullName ∈ scope.claimed, PrimitiveKind.ofName? (Name.last fullName) = none
  nonempty : ∀ fullName ∈ scope.claimed, fullName ≠ ""
  settled : scope.Settled

namespace Scope

theorem portable_empty : ({} : Scope).Portable := by
  constructor
  · intro fullName hmem
    cases hmem
  · intro fullName hmem
    cases hmem
  · exact settled_empty

theorem Portable.claim {scope opened : Scope} {head : TypeHead} (hscope : scope.Portable)
    (hname : Name.isValid head.name = true)
    (hlast : PrimitiveKind.ofName? (Name.last head.fullName) = none)
    (hclaim : scope.claim head.fullName = .ok opened) : opened.Portable := by
  have hsettled := hscope.settled.claim hclaim
  obtain ⟨-, -, rfl⟩ := claim_eq_ok_iff.mp hclaim
  refine ⟨?_, ?_, hsettled⟩
  · intro fullName hmem
    rcases List.mem_append.mp hmem with hmem | hmem
    · exact hscope.last fullName hmem
    · rw [List.mem_singleton] at hmem
      rw [hmem, hlast]
  · intro fullName hmem
    rcases List.mem_append.mp hmem with hmem | hmem
    · exact hscope.nonempty fullName hmem
    · rw [List.mem_singleton] at hmem
      rw [hmem]
      exact Name.full_ne_empty (Name.ne_empty_of_isValid hname) head.space

theorem Portable.finish {scope : Scope} {fullName : String} {definition : Schema}
    {head : TypeHead} (hscope : scope.Portable) (hmem : fullName ∈ scope.claimed)
    (hdefines : Schema.Defines definition fullName head) :
    (scope.finish fullName definition).Portable :=
  ⟨hscope.last, hscope.nonempty, hscope.settled.finish hmem hdefines⟩

end Scope

namespace Schema

theorem innerSpace_ne_empty {reserved : List String} {head : TypeHead}
    (hsound : head.Sound reserved) : innerSpace head.name head.space ≠ some "" := by
  rw [innerSpace]
  cases hsplit : Name.splitLast head.name with
  | none =>
      intro hempty
      exact Name.ne_empty_of_isValid (hsound.space "" hempty) rfl
  | some parts =>
      obtain ⟨carried, last⟩ := parts
      rintro ⟨⟩
      exact Name.ne_empty_of_isValid (Name.isValid_of_splitLast hsound.name hsplit).1 rfl

/-- A name that is read is written as a name that is read the same. -/
theorem rewrite_name {scope : Scope} {space : Option String} {name : String} {schema : Schema}
    (hscope : scope.Portable) (hspace : space ≠ some "")
    (h : scope.schemaOfName space name = .ok schema) :
    ∃ json, Writes space scope.claimed schema json scope.claimed ∧
      Reads scope space json schema scope := by
  rcases Scope.schemaOfName_eq_ok h with ⟨kind, -, rfl⟩ | ⟨fullName, hdenotes, rfl⟩
  · exact ⟨_, .word rfl, .name (Scope.schemaOfName_name scope space kind)⟩
  · have hmem := hdenotes.mem
    have hagain : Denotes scope.claimed space (referenceText space fullName) fullName :=
      (denotes_referenceText_iff hspace).mpr
        ⟨hmem, ofName?_referenceText (hscope.last fullName hmem), hdenotes.not_hidden⟩
    refine ⟨reference space fullName, ?_, ?_⟩
    · rw [Scope.stored]
      cases hfinished : scope.finished.get? fullName with
      | none => exact .ref (hscope.nonempty fullName hmem)
      | some definition =>
          obtain ⟨-, head, hdefines⟩ := hscope.settled.finished hfinished
          have hwritten : head.fullName ∈ scope.claimed := hdefines.fullName_eq ▸ hmem
          have hwrites : Writes space scope.claimed definition
              (reference space head.fullName) scope.claimed :=
            .again hdefines.head_eq hdefines.valid hwritten
          rwa [hdefines.fullName_eq] at hwrites
    · rw [reference_eq]
      exact .name (Scope.schemaOfName_of_denotes hagain)

/-- What the members of a portable definition give: a head that is written back within the same
namespace, under a name that keeps the scope portable. -/
theorem ReadsHead.portable {scope opened : Scope} {space : Option String} {kind : String}
    {reserved : List String} {members : Entries Json} {head : TypeHead}
    (hhead : ReadsHead space kind reserved members head) (hscope : scope.Portable)
    (hclaim : scope.claim head.fullName = .ok opened)
    (hportable : (Definition.ofMembers space members).Portable) :
    opened.Portable ∧ (Name.isDotted head.name = true → head.space = space) := by
  obtain ⟨hname, hspace⟩ := hhead.definition
  constructor
  · have hlast := hportable.last
    rw [hhead.fullName_definition] at hlast
    exact hscope.claim hhead.sound.name hlast hclaim
  · intro hdotted
    rw [← hname] at hdotted
    rw [← hspace, Definition.space, hportable.explicit hdotted]
    rfl

mutual

/-- The step of the round trip: a reading of portable definitions is followed by a writing that
starts and ends with the claimed names, and by a reading of what is written from the same scope
to the same scope. -/
theorem Reads.rewrite {scope scope' : Scope} {space : Option String} {value : Json}
    {schema : Schema} {within : List String} :
    Reads scope space value schema scope' → scope.Portable → space ≠ some "" →
      (∀ definition ∈ Mark.definitions (value.marks within space), definition.Portable) →
      scope'.Portable ∧ ∃ json, Writes space scope.claimed schema json scope'.claimed ∧
        Reads scope space json schema scope'
  | .name h, hscope, hspace, _ => ⟨hscope, rewrite_name hscope hspace h⟩
  | .union h, hscope, hspace, hportable => by
      rw [Json.marks] at hportable
      obtain ⟨hscope', jsons, hwrites, hreads⟩ := h.rewrite hscope hspace hportable
      exact ⟨hscope', _, .union hwrites, .union hreads⟩
  | @Reads.primitive _ _ members kind _, hscope, _, _ => by
      refine ⟨hscope, ?_⟩
      cases hprops : (Props.ofMembers primitiveAttributes members).entries.isEmpty with
      | true => exact ⟨_, .word hprops, reads_word hprops⟩
      | false =>
          refine ⟨_, .primitive hprops, reads_primitive ?_⟩
          intro key hkey
          exact Props.notMem_reserved_of_mem_keys_ofMembers hkey
  | .array htype hvalue h, hscope, hspace, hportable => by
      rw [Json.marks_of_array htype hvalue] at hportable
      obtain ⟨hscope', json, hwrites, hreads⟩ := h.rewrite hscope hspace hportable
      refine ⟨hscope', _, .array hwrites, reads_array ?_ hreads⟩
      intro key hkey
      exact Props.notMem_reserved_of_mem_keys_ofMembers hkey
  | .map htype hvalue h, hscope, hspace, hportable => by
      rw [Json.marks_of_map htype hvalue] at hportable
      obtain ⟨hscope', json, hwrites, hreads⟩ := h.rewrite hscope hspace hportable
      refine ⟨hscope', _, .map hwrites, reads_map ?_ hreads⟩
      intro key hkey
      exact Props.notMem_reserved_of_mem_keys_ofMembers hkey
  | @Reads.record _ _ _ head isError _ fields _ after htype hhead hclaim hvalue h, hscope, _,
      hportable => by
      rw [Json.marks_of_record htype hvalue, Mark.definitions_defines, List.forall_mem_cons,
        hhead.innerSpace_definition] at hportable
      obtain ⟨hopened, hcarried⟩ := hhead.portable hscope hclaim hportable.1
      have hinner := innerSpace_ne_empty hhead.sound
      obtain ⟨hafter, jsons, hwrites, hreads⟩ := h.rewrite hopened hinner hportable.2
      have hnew : head.fullName ∉ Scope.claimed _ := (Scope.claim_eq_ok_iff.mp hclaim).2.1
      have hdefines : Defines (record head isError fields) head.fullName head :=
        ⟨rfl, rfl, hhead.sound.name⟩
      have hmem : head.fullName ∈ after.claimed := h.mem_claimed (mem_claimed_of_claim hclaim)
      rw [innerSpace_eq_ownSpace hhead.sound] at hwrites hreads
      rw [claimed_of_claim hclaim] at hwrites
      -- The fields are written closed as they were written open, since the name comes first.
      have hclosed := hwrites.close hdefines (by simp)
      refine ⟨hafter.finish hmem ⟨head?_closeRecord head isError fields, rfl, hhead.sound.name⟩,
        _, .record hhead.sound.name hnew hclosed, ?_⟩
      exact reads_record hhead.sound hcarried hclaim hreads
  | .enum htype hhead hclaim _ hsymbols hdefault, hscope, _, hportable => by
      rw [Json.marks_of_enum htype, Mark.definitions_defines, List.forall_mem_cons] at hportable
      obtain ⟨hopened, hcarried⟩ := hhead.portable hscope hclaim hportable.1
      have hnew := (Scope.claim_eq_ok_iff.mp hclaim).2.1
      obtain ⟨-, hsegments, hnodup, -⟩ := symbolsOfJson_eq_ok_iff.mp hsymbols
      refine ⟨hopened.finish (mem_claimed_of_claim hclaim) ⟨rfl, rfl, hhead.sound.name⟩, _, ?_,
        reads_enum hhead.sound hcarried ⟨hsegments, hnodup, defaultSymbolOf_eq_ok hdefault⟩ hclaim⟩
      rw [Scope.claimed_finish, claimed_of_claim hclaim]
      exact .enum hhead.sound.name hnew
  | .fixed htype hhead hclaim _ _, hscope, _, hportable => by
      rw [Json.marks_of_fixed htype, Mark.definitions_defines, List.forall_mem_cons] at hportable
      obtain ⟨hopened, hcarried⟩ := hhead.portable hscope hclaim hportable.1
      have hnew := (Scope.claim_eq_ok_iff.mp hclaim).2.1
      refine ⟨hopened.finish (mem_claimed_of_claim hclaim) ⟨rfl, rfl, hhead.sound.name⟩, _, ?_,
        reads_fixed hhead.sound hcarried hclaim⟩
      rw [Scope.claimed_finish, claimed_of_claim hclaim]
      exact .fixed hhead.sound.name hnew
  | .named _ _ _ h, hscope, hspace, _ => ⟨hscope, rewrite_name hscope hspace h⟩

theorem ReadsMembers.rewrite {scope scope' : Scope} {space : Option String} {seen : List String}
    {items : List Json} {schemas : List Schema} {within : List String} :
    ReadsMembers scope space seen items schemas scope' → scope.Portable → space ≠ some "" →
      (∀ definition ∈ Mark.definitions (Json.marksOfItems within space items),
        definition.Portable) →
      scope'.Portable ∧ ∃ jsons, WritesMembers space scope.claimed schemas jsons scope'.claimed ∧
        ReadsMembers scope space seen jsons schemas scope'
  | .nil, hscope, _, _ => ⟨hscope, [], .nil, .nil⟩
  | .cons h hkey hnew hrest, hscope, hspace, hportable => by
      rw [Json.marksOfItems, Mark.definitions_append, List.forall_mem_append] at hportable
      obtain ⟨hbetween, json, hwrites, hreads⟩ := h.rewrite hscope hspace hportable.1
      obtain ⟨hscope', jsons, hwritesRest, hreadsRest⟩ :=
        hrest.rewrite hbetween hspace hportable.2
      refine ⟨hscope', json :: jsons, .cons ?_ hwrites hwritesRest,
        .cons hreads hkey hnew hreadsRest⟩
      rintro inner rfl
      cases hkey

theorem ReadsFields.rewrite {scope scope' : Scope} {space : Option String} {seen : List String}
    {items : List Json} {fields : List Field} {within : List String} :
    ReadsFields scope space seen items fields scope' → scope.Portable → space ≠ some "" →
      (∀ definition ∈ Mark.definitions (Json.marksOfFieldItems within space items),
        definition.Portable) →
      scope'.Portable ∧ ∃ jsons, WritesFields space scope.claimed fields jsons scope'.claimed ∧
        ReadsFields scope space seen jsons fields scope'
  | .nil, hscope, _, _ => ⟨hscope, [], .nil, .nil⟩
  | .cons hlabel hvalue h hnew hrest, hscope, hspace, hportable => by
      rw [Json.marksOfFieldItems, Json.marksOfField, Json.marksOfMember_of_get? hvalue,
        Mark.definitions_append, List.forall_mem_append] at hportable
      obtain ⟨hbetween, json, hwrites, hreads⟩ := h.rewrite hscope hspace hportable.1
      obtain ⟨hscope', jsons, hwritesRest, hreadsRest⟩ :=
        hrest.rewrite hbetween hspace hportable.2
      exact ⟨hscope', _, .cons hwrites hwritesRest,
        readsFields_cons hlabel.sound hreads hnew hreadsRest⟩

end

/-- A value whose definitions are portable is read as a schema that can be written, and what is
written is read as the same schema. -/
theorem read_write_read {value : Json} {schema : Schema} (h : ofJson value = .ok schema)
    (hportable : ∀ definition ∈ Mark.definitions (value.marks [] none), definition.Portable) :
    ∃ json, schema.toJson = .ok json ∧ ofJson json = .ok schema := by
  obtain ⟨scope, hreads⟩ := ofJson_eq_ok_iff.mp h
  obtain ⟨-, json, hwrites, hagain⟩ :=
    hreads.rewrite Scope.portable_empty (by decide) hportable
  exact ⟨json, toJson_eq_ok_iff.mpr ⟨_, hwrites⟩, ofJson_eq_ok_iff.mpr ⟨_, hagain⟩⟩

/-- A record that mentions itself by its full name. -/
def nodeRecord : Json :=
  .obj [("type", .str "record"), ("name", .str "a.Node"),
    ("fields", .arr [.obj [("name", .str "next"), ("type", .arr [.str "null", .str "a.Node"])]])]

/-- The same record as it is written, where the mention is short. -/
def nodeJson : Json :=
  .obj [("type", .str "record"), ("name", .str "a.Node"),
    ("fields", .arr [.obj [("name", .str "next"), ("type", .arr [.str "null", .str "Node"])]])]

/-- A record of this kind, followed by null or by the given schema. -/
def nodeOf (next : Schema) : Schema :=
  record { name := "a.Node" } false [{ name := "next", schema := nullable next }]

theorem read_write_read_nodeRecord :
    ofJson nodeRecord = .ok (nodeOf (nodeOf (ref "a.Node"))) ∧
      (nodeOf (nodeOf (ref "a.Node"))).toJson = .ok nodeJson ∧
      ofJson nodeJson = .ok (nodeOf (nodeOf (ref "a.Node"))) := by
  have h : ofJson nodeRecord = .ok (nodeOf (nodeOf (ref "a.Node"))) := rfl
  have hwritten : (nodeOf (nodeOf (ref "a.Node"))).toJson = .ok nodeJson := rfl
  obtain ⟨json, hjson, hagain⟩ := read_write_read h (by decide)
  rw [hwritten, Except.ok.injEq] at hjson
  rw [← hjson] at hagain
  exact ⟨h, hwritten, hagain⟩

end Schema

end EventSchema
