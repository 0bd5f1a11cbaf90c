import EventSchema.Proofs.Writable
import EventSchema.Proofs.WriteRead
import EventSchema.Schema.Equality

/-!
# Schemas that are refused

The writer does not look into a named type that it wrote before.  If all types
of one name are equal, nothing is missed by this: a name written so far is that
of a record around the place of the writer, which no type below it can equal, or
that of a type all of whose nodes were written.  The main statement is that the
writer refuses such a schema exactly if one of its nodes is corrupt.
-/

namespace EventSchema

theorem TypeHead.names_eq_of_sameAs {first second : TypeHead} (h : first.sameAs second = true) :
    first.name = second.name ∧ first.fullName = second.fullName := by
  rw [TypeHead.sameAs, Bool.and_eq_true, decide_eq_true_iff] at h
  obtain ⟨hname, hspace, -⟩ := TypeHead.mk.inj h.1
  refine ⟨hname, ?_⟩
  rw [TypeHead.fullName, TypeHead.fullName, hname, hspace]

namespace Schema

/-! ## Equal schemas -/

/-- Two schemas are equal, be it up to the order of extra attributes and of object members. -/
def Equal (first second : Schema) : Prop :=
  first = second ∨ first.sameAs second = true

theorem exists_sameAs_of_sameList {member : Schema} {members others : List Schema}
    (h : sameList members others = true) (hmem : member ∈ members) :
    ∃ other ∈ others, member.sameAs other = true := by
  induction members generalizing others with
  | nil => cases hmem
  | cons first rest ih =>
      cases others with
      | nil => cases h
      | cons other rest' =>
          rw [sameList, Bool.and_eq_true] at h
          rcases List.mem_cons.mp hmem with rfl | hmem
          · exact ⟨other, List.mem_cons_self, h.1⟩
          · obtain ⟨found, hfound, hsame⟩ := ih h.2 hmem
            exact ⟨found, List.mem_cons_of_mem _ hfound, hsame⟩

theorem sameAs_of_sameField {field other : Field} (h : sameField field other = true) :
    field.schema.sameAs other.schema = true := by
  cases field
  simp only [sameField, Bool.and_eq_true] at h
  exact h.1.1.1.1.1.2

theorem exists_sameAs_of_sameFields {field : Field} {fields others : List Field}
    (h : sameFields fields others = true) (hmem : field ∈ fields) :
    ∃ other ∈ others, field.schema.sameAs (FieldOf.schema other) = true := by
  induction fields generalizing others with
  | nil => cases hmem
  | cons first rest ih =>
      cases others with
      | nil => cases h
      | cons other rest' =>
          rw [sameFields, Bool.and_eq_true] at h
          rcases List.mem_cons.mp hmem with rfl | hmem
          · exact ⟨other, List.mem_cons_self, sameAs_of_sameField h.1⟩
          · obtain ⟨found, hfound, hsame⟩ := ih h.2 hmem
            exact ⟨found, List.mem_cons_of_mem _ hfound, hsame⟩

/-- Each node has its counterpart at the same place of an equal schema. -/
theorem Equal.occurs {path : List String} {node schema other : Schema} (h : Equal schema other)
    (hnode : Occurs path node schema) : ∃ counterpart, Occurs path counterpart other ∧
      Equal node counterpart := by
  rcases h with rfl | h
  · exact ⟨node, hnode, .inl rfl⟩
  · induction hnode generalizing other with
    | here => exact ⟨other, .here, .inr h⟩
    | items _ ih =>
        cases other <;> simp only [sameAs, Bool.and_eq_true, Bool.false_eq_true] at h
        obtain ⟨counterpart, hplace, hequal⟩ := ih h.1
        exact ⟨counterpart, .items hplace, hequal⟩
    | values _ ih =>
        cases other <;> simp only [sameAs, Bool.and_eq_true, Bool.false_eq_true] at h
        obtain ⟨counterpart, hplace, hequal⟩ := ih h.1
        exact ⟨counterpart, .values hplace, hequal⟩
    | member hmem _ ih =>
        cases other <;> simp only [sameAs, Bool.false_eq_true] at h
        obtain ⟨found, hfound, hsame⟩ := exists_sameAs_of_sameList h hmem
        obtain ⟨counterpart, hplace, hequal⟩ := ih hsame
        exact ⟨counterpart, .member hfound hplace, hequal⟩
    | field hmem _ ih =>
        cases other <;> simp only [sameAs, Bool.and_eq_true, Bool.false_eq_true] at h
        obtain ⟨found, hfound, hsame⟩ := exists_sameAs_of_sameFields h.2 hmem
        obtain ⟨counterpart, hplace, hequal⟩ := ih hsame
        rw [(TypeHead.names_eq_of_sameAs h.1.1).2]
        exact ⟨counterpart, .field hfound hplace, hequal⟩

/-- No schema equals one below its records: it would have another one like itself below it. -/
theorem Occurs.not_equal {path : List String} {inner outer : Schema}
    (h : Occurs path inner outer) (hpath : path ≠ []) : ¬ Equal outer inner := by
  induction hsize : sizeOf outer using Nat.strongRecOn generalizing inner outer with
  | ind size ih =>
      intro hequal
      obtain ⟨counterpart, hplace, hcounterpart⟩ := hequal.occurs h
      exact ih (sizeOf inner) (hsize ▸ h.sizeOf_lt hpath) hplace rfl hcounterpart

/-! ## Corrupt nodes -/

/-- A node is corrupt: a named type with an invalid name, a union with a union among its members,
or a reference without a name. -/
inductive Corrupt : Schema → Prop
  | name {node head} (hhead : head? node = some head)
      (hname : Name.isValid (TypeHead.name head) = false) : Corrupt node
  | union {members inner} (hmem : Schema.union inner ∈ members) : Corrupt (.union members)
  | ref : Corrupt (.ref "")

theorem corrupt_iff_not_writable {node : Schema} : Corrupt node ↔ ¬ Writable node := by
  constructor
  · rintro (⟨hhead, hname⟩ | hmem | -) hwritable
    · cases node <;> cases hhead <;> simp [Writable, hname] at hwritable
    · exact hwritable _ hmem _ rfl
    · exact hwritable rfl
  · intro h
    cases node with
    | primitive | array | map => exact absurd trivial h
    | union members =>
        simp only [Writable, not_forall, not_not] at h
        obtain ⟨member, hmem, inner, rfl⟩ := h
        exact .union hmem
    | record head isError fields => exact .name rfl (Bool.eq_false_iff.mpr h)
    | enum head symbols defaultSymbol => exact .name rfl (Bool.eq_false_iff.mpr h)
    | fixed head size => exact .name rfl (Bool.eq_false_iff.mpr h)
    | ref name =>
        obtain rfl := not_not.mp h
        exact .ref

theorem Equal.writable {node other : Schema} (h : Equal node other) (hother : Writable other) :
    Writable node := by
  rcases h with rfl | h
  · exact hother
  · cases node with
    | primitive | array | map => trivial
    | union members =>
        cases other <;> simp only [sameAs, Bool.false_eq_true] at h
        rintro member hmem inner rfl
        obtain ⟨found, hfound, hsame⟩ := exists_sameAs_of_sameList h hmem
        cases found <;> simp only [sameAs, Bool.false_eq_true] at hsame
        exact hother _ hfound _ rfl
    | record head isError fields =>
        cases other <;> simp only [sameAs, Bool.and_eq_true, Bool.false_eq_true] at h
        rw [Writable, (TypeHead.names_eq_of_sameAs h.1.1).1]
        exact hother
    | enum head symbols defaultSymbol =>
        cases other <;> simp only [sameAs, Bool.and_eq_true, Bool.false_eq_true] at h
        rw [Writable, (TypeHead.names_eq_of_sameAs h.1.1).1]
        exact hother
    | fixed head size =>
        cases other <;> simp only [sameAs, Bool.and_eq_true, Bool.false_eq_true] at h
        rw [Writable, (TypeHead.names_eq_of_sameAs h.1).1]
        exact hother
    | ref name =>
        cases other <;> simp only [sameAs, beq_iff_eq, Bool.false_eq_true] at h
        exact h ▸ hother

theorem Equal.allWritable {node other : Schema} (h : Equal node other)
    (hother : AllNodes Writable other) : AllNodes Writable node := by
  intro path inner hinner
  obtain ⟨counterpart, hplace, hequal⟩ := h.occurs hinner
  exact hequal.writable (hother path counterpart hplace)

/-! ## What is written has no corrupt node -/

/-- At a place below these records, every other name written so far is that of a type without
corrupt nodes. -/
def Checked (root : Schema) (path written : List String) : Prop :=
  ∀ fullName ∈ written, fullName ∈ path ∨
    ∃ node, NamedIn root fullName node ∧ AllNodes Writable node

/-- Any two named types of one full name are equal. -/
def Consistent (root : Schema) : Prop :=
  ∀ {fullName node other}, NamedIn root fullName node → NamedIn root fullName other →
    Equal node other

section Checked

variable {root node : Schema} {path written : List String} {head : TypeHead}

theorem Checked.enter (h : Checked root path written) (fullName : String) :
    Checked root (path ++ [fullName]) (written ++ [fullName]) := by
  intro other hmem
  rcases List.mem_append.mp hmem with hmem | hmem
  · exact (h other hmem).imp_left (List.mem_append_left _)
  · exact .inl (List.mem_append_right _ hmem)

/-- When all nodes of a named type are written, its name is as good as that of any other type. -/
theorem Checked.leave (h : Checked root (path ++ [head.fullName]) written)
    (hnode : Occurs path node root) (hhead : node.head? = some head)
    (hall : AllNodes Writable node) : Checked root path written := by
  intro other hmem
  rcases h other hmem with hopen | hchecked
  · rcases List.mem_append.mp hopen with hopen | hnew
    · exact .inl hopen
    · rw [List.mem_singleton.mp hnew]
      exact .inr ⟨node, ⟨⟨path, hnode⟩, head, hhead, rfl⟩, hall⟩
  · exact .inr hchecked

/-- A type written before has no corrupt node: it does not lie below itself. -/
theorem Checked.again (h : Checked root path written) (hroot : Consistent root)
    (hnode : Occurs path node root) (hhead : node.head? = some head)
    (hmem : head.fullName ∈ written) : AllNodes Writable node := by
  have hnamed : NamedIn root head.fullName node := ⟨⟨path, hnode⟩, head, hhead, rfl⟩
  rcases h _ hmem with hopen | ⟨other, hother, hall⟩
  · -- The record around the place would be equal to the type below it.
    obtain ⟨outer, inner, houter, hinner, hne⟩ := hnode.exists_outer hopen
    exact absurd (hroot houter hnamed) (hinner.not_equal hne)
  · exact (hroot hnamed hother).allWritable hall

end Checked

mutual

/-- What is written at a place of a consistent schema has no corrupt node, and the names written
by then stay checked. -/
theorem Writes.checked {root schema : Schema} {path written written' : List String}
    {space : Option String} {json : Json} (hroot : Consistent root) :
    Writes space written schema json written' → Occurs path schema root →
      Checked root path written → Checked root path written' ∧ AllNodes Writable schema
  | .word _, _, hwritten | .primitive _, _, hwritten =>
      ⟨hwritten, allNodes_primitive.mpr trivial⟩
  | .array h, hnode, hwritten => by
      have hitems := hnode.trans (.items .here)
      rw [List.append_nil] at hitems
      obtain ⟨hwritten', hall⟩ := h.checked hroot hitems hwritten
      exact ⟨hwritten', allNodes_array.mpr ⟨trivial, hall⟩⟩
  | .map h, hnode, hwritten => by
      have hvalues := hnode.trans (.values .here)
      rw [List.append_nil] at hvalues
      obtain ⟨hwritten', hall⟩ := h.checked hroot hvalues hwritten
      exact ⟨hwritten', allNodes_map.mpr ⟨trivial, hall⟩⟩
  | @Writes.union _ _ members _ _ h, hnode, hwritten => by
      have hmembers : ∀ member ∈ members, Occurs path member root := by
        intro member hmem
        have hmember := hnode.trans (.member hmem .here)
        rwa [List.append_nil] at hmember
      obtain ⟨hwritten', hwritable, hall⟩ := h.checked hroot hmembers hwritten
      exact ⟨hwritten', allNodes_union.mpr ⟨hwritable, hall⟩⟩
  | @Writes.record _ _ head isError fields _ _ hname _ h, hnode, hwritten => by
      have hfields : ∀ field ∈ fields,
          Occurs (path ++ [head.fullName]) (FieldOf.schema field) root := by
        intro field hmem
        exact hnode.trans (.field hmem .here)
      obtain ⟨hwritten', hall⟩ := h.checked hroot hfields (hwritten.enter head.fullName)
      have hrecord : AllNodes Writable (record head isError fields) :=
        allNodes_record.mpr ⟨hname, hall⟩
      exact ⟨hwritten'.leave hnode rfl hrecord, hrecord⟩
  | @Writes.enum _ _ head symbols defaultSymbol hname _, hnode, hwritten => by
      have henum : AllNodes Writable (enum head symbols defaultSymbol) :=
        allNodes_enum.mpr hname
      exact ⟨(hwritten.enter head.fullName).leave hnode rfl henum, henum⟩
  | @Writes.fixed _ _ head size hname _, hnode, hwritten => by
      have hfixed : AllNodes Writable (fixed head size) := allNodes_fixed.mpr hname
      exact ⟨(hwritten.enter head.fullName).leave hnode rfl hfixed, hfixed⟩
  | .again hhead _ hmem, hnode, hwritten =>
      ⟨hwritten, hwritten.again hroot hnode hhead hmem⟩
  | .ref hname, _, hwritten => ⟨hwritten, allNodes_ref.mpr hname⟩

theorem WritesMembers.checked {root : Schema} {path written written' : List String}
    {space : Option String} {members : List Schema} {jsons : List Json}
    (hroot : Consistent root) :
    WritesMembers space written members jsons written' →
      (∀ member ∈ members, Occurs path member root) → Checked root path written →
        Checked root path written' ∧ Writable (union members) ∧
          ∀ member ∈ members, AllNodes Writable member
  | .nil, _, hwritten => ⟨hwritten, List.forall_mem_nil _, List.forall_mem_nil _⟩
  | .cons hmember h hrest, hnodes, hwritten => by
      obtain ⟨hfirst, hothers⟩ := List.forall_mem_cons.mp hnodes
      obtain ⟨hbetween, hall⟩ := h.checked hroot hfirst hwritten
      obtain ⟨hwritten', hwritable, hallRest⟩ := hrest.checked hroot hothers hbetween
      exact ⟨hwritten', List.forall_mem_cons.mpr ⟨hmember, hwritable⟩,
        List.forall_mem_cons.mpr ⟨hall, hallRest⟩⟩

theorem WritesFields.checked {root : Schema} {path written written' : List String}
    {space : Option String} {fields : List Field} {jsons : List Json}
    (hroot : Consistent root) :
    WritesFields space written fields jsons written' →
      (∀ field ∈ fields, Occurs path (FieldOf.schema field) root) → Checked root path written →
        Checked root path written' ∧ ∀ field ∈ fields, AllNodes Writable (FieldOf.schema field)
  | .nil, _, hwritten => ⟨hwritten, List.forall_mem_nil _⟩
  | .cons h hrest, hnodes, hwritten => by
      obtain ⟨hfirst, hothers⟩ := List.forall_mem_cons.mp hnodes
      obtain ⟨hbetween, hall⟩ := h.checked hroot hfirst hwritten
      obtain ⟨hwritten', hallRest⟩ := hrest.checked hroot hothers hbetween
      exact ⟨hwritten', List.forall_mem_cons.mpr ⟨hall, hallRest⟩⟩

end

/-- A schema whose named types of one full name are equal is refused exactly if it has a corrupt
node, at any depth and in any occurrence of a type. -/
theorem toJson_eq_error_iff {schema : Schema} (h : Consistent schema) :
    (∃ error, schema.toJson = .error error) ↔
      ∃ path node, Occurs path node schema ∧ Corrupt node := by
  have hwritten : (∃ json, schema.toJson = .ok json) ↔ AllNodes Writable schema := by
    constructor
    · rintro ⟨json, hjson⟩
      obtain ⟨written, hwrites⟩ := toJson_eq_ok_iff.mp hjson
      exact (hwrites.checked h .here (List.forall_mem_nil _)).2
    · intro hall
      obtain ⟨json, written, hwrites⟩ := exists_writes hall []
      exact ⟨json, toJson_eq_ok_iff.mpr ⟨written, hwrites⟩⟩
  have hrefused : (∃ error, schema.toJson = .error error) ↔ ¬ ∃ json, schema.toJson = .ok json := by
    cases schema.toJson <;> simp
  rw [hrefused, hwritten]
  simp only [AllNodes, not_forall, corrupt_iff_not_writable, exists_prop]

/-- A record that uses the types of `jobRecord` and a reference without a name. -/
def strayRecord : Schema :=
  record { name := "Stray" } false
    [{ name := "job", schema := jobRecord }, { name := "last", schema := arrayOf statusEnum },
      { name := "next", schema := union [ref ""] }]

theorem namedIn_strayRecord {fullName : String} {node : Schema}
    (h : NamedIn strayRecord fullName node) :
    fullName = "Stray" ∧ node = strayRecord ∨ NamedIn jobRecord fullName node := by
  obtain ⟨⟨path, hnode⟩, head, hhead, rfl⟩ := h
  rw [strayRecord] at hnode
  cases hnode with
  | here =>
      cases hhead
      exact .inl ⟨by decide, rfl⟩
  | field hmem hnode =>
      right
      simp only [List.mem_cons, List.not_mem_nil, or_false] at hmem
      rcases hmem with rfl | rfl | rfl
      · exact ⟨⟨_, hnode⟩, head, hhead, rfl⟩
      · cases hnode with
        | here => cases hhead
        | items hnode =>
            have hstatus : ∃ path, Occurs path statusEnum jobRecord :=
              ⟨_, .field List.mem_cons_self .here⟩
            obtain ⟨path, hstatus⟩ := hstatus
            exact ⟨⟨_, hstatus.trans hnode⟩, head, hhead, rfl⟩
      · cases hnode with
        | here => cases hhead
        | member hmem hnode =>
            rw [List.mem_singleton.mp hmem] at hnode
            cases hnode
            cases hhead

theorem consistent_strayRecord : Consistent strayRecord := by
  intro fullName node other hnode hother
  rcases namedIn_strayRecord hnode with ⟨rfl, rfl⟩ | hnode <;>
    rcases namedIn_strayRecord hother with ⟨heq, rfl⟩ | hother
  · exact .inl rfl
  · rcases namedIn_jobRecord hother with ⟨heq, -⟩ | ⟨heq, -⟩ <;> exact absurd heq (by decide)
  · rcases namedIn_jobRecord hnode with ⟨hjob, -⟩ | ⟨hjob, -⟩ <;>
      exact absurd (hjob.symm.trans heq) (by decide)
  · exact .inl (selfContained_jobRecord.agree hnode hother)

/-- The reference without a name is found behind the types that are written before it. -/
theorem toJson_eq_error_strayRecord :
    Consistent strayRecord ∧ strayRecord.toJson = .error .emptyReference := by
  have href : ∃ path, Occurs path (ref "") strayRecord :=
    ⟨_, .field (.tail _ (.tail _ (.head _))) (.member (.head _) .here)⟩
  obtain ⟨path, href⟩ := href
  obtain ⟨error, herror⟩ :=
    (toJson_eq_error_iff consistent_strayRecord).mpr ⟨path, ref "", href, .ref⟩
  have hcause : error = .emptyReference := Except.error.inj (herror.symm.trans rfl)
  rw [hcause] at herror
  exact ⟨consistent_strayRecord, herror⟩

end Schema

end EventSchema
