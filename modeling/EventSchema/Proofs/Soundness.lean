import EventSchema.Proofs.Closing
import EventSchema.Proofs.Marks

/-!
# Soundness of reading

Every node of a schema that was read has passed the checks of its kind: where it
was written, where it was copied to, and where it was put in place of a
reference.  The finished definitions of a scope are legal throughout, and
closing a record keeps them so, since the definition that is put in has the full
name of the reference that it replaces.
-/

namespace EventSchema

namespace Schema

/-- A node as reading leaves it: it is well built, and a named type is not called as a primitive
type. -/
structure Legal (node : Schema) : Prop where
  wellBuilt : node.WellBuilt
  noPrimitive : ∀ head, node.head? = some head → PrimitiveKind.ofName? head.fullName = none

theorem legal_of_unnamed {node : Schema} (hbuilt : node.WellBuilt) (hhead : node.head? = none) :
    node.Legal := by
  refine ⟨hbuilt, ?_⟩
  intro head hsome
  rw [hhead] at hsome
  cases hsome

theorem legal_of_head {node : Schema} {head : TypeHead} (hbuilt : node.WellBuilt)
    (hhead : node.head? = some head) (hkind : PrimitiveKind.ofName? head.fullName = none) :
    node.Legal := by
  refine ⟨hbuilt, ?_⟩
  intro found hfound
  rw [hhead] at hfound
  cases hfound
  exact hkind

/-! ## Closing -/

section Closing

variable {fullName : String} {definition schema : Schema}

/-- A definition is told from other members of a union by the name of the references that it is
put in place of. -/
theorem unionKey?_close (hkey : unionKey? definition = some fullName) (schema : Schema) :
    unionKey? (close fullName definition schema) = unionKey? schema := by
  cases schema with
  | primitive | array | map | union | record | enum | fixed => rfl
  | ref name =>
      rw [close]
      split
      next heq =>
        rw [hkey, ← heq]
        rfl
      next => rfl

theorem WellBuilt.close (hdefinition : definition.WellBuilt)
    (hkey : unionKey? definition = some fullName) (h : schema.WellBuilt) :
    (close fullName definition schema).WellBuilt := by
  cases schema with
  | primitive | array | map | enum | fixed => exact h
  | union members =>
      obtain ⟨hkeys, hnodup⟩ := h
      have hsame : (members.map (Schema.close fullName definition)).map unionKey? =
          members.map unionKey? := by
        rw [List.map_map]
        apply List.map_congr_left
        intro member _
        exact unionKey?_close hkey member
      rw [Schema.close, closeList_eq_map, WellBuilt, hsame]
      refine ⟨?_, hnodup⟩
      intro closed hclosed
      obtain ⟨member, hmem, rfl⟩ := List.mem_map.mp hclosed
      rw [unionKey?_close hkey]
      exact hkeys member hmem
  | record head isError fields =>
      obtain ⟨hhead, hfields, hnodup⟩ := h
      have hnames : (fields.map (closeField fullName definition)).map FieldOf.name =
          fields.map FieldOf.name := by
        rw [List.map_map]
        apply List.map_congr_left
        intro field _
        exact congrArg (@FieldOf.name Unit) (label_closeField fullName definition field)
      rw [Schema.close, closeFields_eq_map, WellBuilt, hnames]
      refine ⟨hhead, ?_, hnodup⟩
      intro closed hclosed
      obtain ⟨field, hmem, rfl⟩ := List.mem_map.mp hclosed
      exact (hfields field hmem).of_label (label_closeField fullName definition field).symm
  | ref name =>
      rw [Schema.close]
      split
      · exact hdefinition
      · exact h

theorem Legal.close (hdefinition : definition.Legal)
    (hkey : unionKey? definition = some fullName) (h : schema.Legal) :
    (close fullName definition schema).Legal := by
  refine ⟨hdefinition.wellBuilt.close hkey h.wellBuilt, ?_⟩
  intro head hhead
  rcases head?_of_close hhead with hsame | ⟨-, hput⟩
  · exact h.noPrimitive head hsame
  · exact hdefinition.noPrimitive head hput

theorem allLegal_closeRecord {head : TypeHead} {isError : Bool} {fields : List Field}
    (h : AllNodes Legal (record head isError fields)) :
    AllNodes Legal (closeRecord head isError fields) := by
  rw [closeRecord_eq_close]
  have hclose : ∀ node, Legal node →
      Legal (Schema.close head.fullName (record head isError fields) node) := by
    intro node hnode
    exact h.root.close rfl hnode
  exact h.close hclose h

end Closing

end Schema

/-! ## Following a reading -/

namespace Scope

/-- The claimed names of a scope are distinct, and its finished types are legal throughout. -/
structure Legal (scope : Scope) : Prop where
  nodup : scope.claimed.Nodup
  finished : ∀ {fullName definition}, scope.finished.get? fullName = some definition →
    Schema.AllNodes Schema.Legal definition

theorem legal_empty : ({} : Scope).Legal := by
  refine ⟨List.nodup_nil, ?_⟩
  intro fullName definition h
  cases h

theorem Legal.claim {scope opened : Scope} {fullName : String} (hscope : scope.Legal)
    (hclaim : scope.claim fullName = .ok opened) : opened.Legal := by
  obtain ⟨-, hnew, rfl⟩ := claim_eq_ok_iff.mp hclaim
  refine ⟨?_, hscope.finished⟩
  rw [List.nodup_append]
  refine ⟨hscope.nodup, List.nodup_singleton fullName, ?_⟩
  intro name hname other hother
  rw [List.mem_singleton.mp hother]
  rintro rfl
  exact hnew hname

theorem Legal.finish {scope : Scope} {fullName : String} {definition : Schema}
    (hscope : scope.Legal) (hdefinition : Schema.AllNodes Schema.Legal definition) :
    (scope.finish fullName definition).Legal := by
  refine ⟨hscope.nodup, ?_⟩
  intro other found h
  rcases get?_finished_finish h with hearlier | ⟨rfl, rfl⟩
  · exact hscope.finished hearlier
  · exact hdefinition

/-- What holds of primitive types, of references and of all nodes of finished types holds of all
nodes of what a name stands for. -/
theorem allNodes_schemaOfName {p : Schema → Prop} {scope : Scope} {space : Option String}
    {name : String} {schema : Schema} (hprimitive : ∀ kind, p (.ofKind kind))
    (href : ∀ fullName, p (.ref fullName))
    (hfinished : ∀ {fullName definition}, scope.finished.get? fullName = some definition →
      Schema.AllNodes p definition)
    (h : scope.schemaOfName space name = .ok schema) : Schema.AllNodes p schema := by
  rcases schemaOfName_eq_ok h with ⟨kind, -, rfl⟩ | ⟨fullName, -, rfl⟩
  · exact Schema.allNodes_primitive.mpr (hprimitive kind)
  · rw [stored]
    cases hfound : scope.finished.get? fullName with
    | some found => exact hfinished hfound
    | none => exact Schema.allNodes_ref.mpr (href fullName)

theorem Legal.schemaOfName {scope : Scope} {space : Option String} {name : String}
    {schema : Schema} (hscope : scope.Legal) (h : scope.schemaOfName space name = .ok schema) :
    Schema.AllNodes Schema.Legal schema := by
  refine allNodes_schemaOfName ?_ ?_ hscope.finished h
  · intro kind
    exact Schema.legal_of_unnamed (List.forall_mem_nil _) rfl
  · intro fullName
    exact Schema.legal_of_unnamed trivial rfl

end Scope

namespace Schema

/-- The members of a union that was read have distinct keys. -/
theorem ReadsMembers.keys {scope scope' : Scope} {space : Option String} {seen : List String}
    {items : List Json} {schemas : List Schema}
    (h : ReadsMembers scope space seen items schemas scope') :
    (∀ member ∈ schemas, ∃ key, unionKey? member = some key ∧ key ∉ seen) ∧
      (schemas.map unionKey?).Nodup := by
  induction schemas generalizing scope seen items with
  | nil => exact ⟨List.forall_mem_nil _, List.nodup_nil⟩
  | cons member rest ih =>
      cases h with
      | @cons _ _ _ _ _ _ _ key _ _ _ hkey hnew hrest =>
          obtain ⟨hkeys, hnodup⟩ := ih hrest
          constructor
          · rw [List.forall_mem_cons]
            refine ⟨⟨key, hkey, hnew⟩, ?_⟩
            intro other hother
            obtain ⟨otherKey, hotherKey, hotherNew⟩ := hkeys other hother
            exact ⟨otherKey, hotherKey, fun hseen => hotherNew (List.mem_append_left _ hseen)⟩
          · rw [List.map_cons, List.nodup_cons]
            refine ⟨?_, hnodup⟩
            intro hmem
            obtain ⟨other, hother, hsame⟩ := List.mem_map.mp hmem
            obtain ⟨otherKey, hotherKey, hotherNew⟩ := hkeys other hother
            rw [hotherKey, hkey, Option.some.injEq] at hsame
            apply hotherNew
            rw [hsame]
            exact List.mem_append_right _ (List.mem_singleton_self key)

/-- The fields of a record that was read are sound and have distinct names. -/
theorem ReadsFields.names {scope scope' : Scope} {space : Option String} {seen : List String}
    {items : List Json} {fields : List Field}
    (h : ReadsFields scope space seen items fields scope') :
    (∀ field ∈ fields, FieldOf.Sound field ∧ FieldOf.name field ∉ seen) ∧
      (fields.map FieldOf.name).Nodup := by
  induction fields generalizing scope seen items with
  | nil => exact ⟨List.forall_mem_nil _, List.nodup_nil⟩
  | cons field rest ih =>
      cases h with
      | cons hlabel _ _ hnew hrest =>
          obtain ⟨hfields, hnodup⟩ := ih hrest
          constructor
          · rw [List.forall_mem_cons]
            refine ⟨⟨hlabel.sound, hnew⟩, ?_⟩
            intro other hother
            obtain ⟨hsound, hotherNew⟩ := hfields other hother
            exact ⟨hsound, fun hseen => hotherNew (List.mem_append_left _ hseen)⟩
          · rw [List.map_cons, List.nodup_cons]
            refine ⟨?_, hnodup⟩
            intro hmem
            obtain ⟨other, hother, hsame⟩ := List.mem_map.mp hmem
            apply (hfields other hother).2
            rw [hsame]
            exact List.mem_append_right _ (List.mem_singleton_self field.name)

theorem ReadsMembers.wellBuilt {scope scope' : Scope} {space : Option String}
    {items : List Json} {schemas : List Schema}
    (h : ReadsMembers scope space [] items schemas scope') : (union schemas).WellBuilt := by
  obtain ⟨hkeys, hnodup⟩ := h.keys
  refine ⟨?_, hnodup⟩
  intro member hmem
  obtain ⟨key, hkey, -⟩ := hkeys member hmem
  rw [hkey]
  rfl

theorem ReadsFields.wellBuilt {scope scope' : Scope} {space : Option String} {items : List Json}
    {fields : List Field} {head : TypeHead} (isError : Bool)
    (hhead : head.Sound recordAttributes) (h : ReadsFields scope space [] items fields scope') :
    (record head isError fields).WellBuilt := by
  obtain ⟨hfields, hnodup⟩ := h.names
  refine ⟨hhead, ?_, hnodup⟩
  intro field hmem
  exact (hfields field hmem).1

mutual

/-- A reading from a legal scope leaves a legal scope and a schema that is legal throughout. -/
theorem Reads.legal {scope scope' : Scope} {space : Option String} {value : Json}
    {schema : Schema} :
    Reads scope space value schema scope' → scope.Legal →
      scope'.Legal ∧ AllNodes Legal schema
  | .name h, hscope => ⟨hscope, hscope.schemaOfName h⟩
  | .union h, hscope => by
      obtain ⟨hscope', hmembers⟩ := h.legal hscope
      exact ⟨hscope', allNodes_union.mpr ⟨legal_of_unnamed h.wellBuilt rfl, hmembers⟩⟩
  | .primitive _, hscope => by
      refine ⟨hscope, allNodes_primitive.mpr (legal_of_unnamed ?_ rfl)⟩
      intro key hkey
      exact Props.notMem_reserved_of_mem_keys_ofMembers hkey
  | .array _ _ h, hscope => by
      obtain ⟨hscope', hitems⟩ := h.legal hscope
      refine ⟨hscope', allNodes_array.mpr ⟨legal_of_unnamed ?_ rfl, hitems⟩⟩
      intro key hkey
      exact Props.notMem_reserved_of_mem_keys_ofMembers hkey
  | .map _ _ h, hscope => by
      obtain ⟨hscope', hvalues⟩ := h.legal hscope
      refine ⟨hscope', allNodes_map.mpr ⟨legal_of_unnamed ?_ rfl, hvalues⟩⟩
      intro key hkey
      exact Props.notMem_reserved_of_mem_keys_ofMembers hkey
  | @Reads.record _ _ _ head isError _ fields _ _ _ hhead hclaim _ h, hscope => by
      obtain ⟨hscope', hfields⟩ := h.legal (hscope.claim hclaim)
      have hkind := (Scope.claim_eq_ok_iff.mp hclaim).1
      have hroot : Legal (record head isError fields) :=
        legal_of_head (h.wellBuilt isError hhead.sound) rfl hkind
      have hrecord : AllNodes Legal (closeRecord head isError fields) :=
        allLegal_closeRecord (allNodes_record.mpr ⟨hroot, hfields⟩)
      exact ⟨hscope'.finish hrecord, hrecord⟩
  | @Reads.enum _ _ _ head _ symbols defaultSymbol _ _ hhead hclaim _ hsymbols hdefault,
      hscope => by
      have hkind := (Scope.claim_eq_ok_iff.mp hclaim).1
      obtain ⟨-, hsegments, hnodup, -⟩ := symbolsOfJson_eq_ok_iff.mp hsymbols
      have hbuilt : WellBuilt (enum head symbols defaultSymbol) :=
        ⟨hhead.sound, hsegments, hnodup, defaultSymbolOf_eq_ok hdefault⟩
      have henum : AllNodes Legal (enum head symbols defaultSymbol) :=
        allNodes_enum.mpr (legal_of_head hbuilt rfl hkind)
      exact ⟨(hscope.claim hclaim).finish henum, henum⟩
  | @Reads.fixed _ _ _ head _ size _ _ hhead hclaim _ _, hscope => by
      have hkind := (Scope.claim_eq_ok_iff.mp hclaim).1
      have hbuilt : WellBuilt (fixed head size) := hhead.sound
      have hfixed : AllNodes Legal (fixed head size) :=
        allNodes_fixed.mpr (legal_of_head hbuilt rfl hkind)
      exact ⟨(hscope.claim hclaim).finish hfixed, hfixed⟩
  | .named _ _ _ h, hscope => ⟨hscope, hscope.schemaOfName h⟩

theorem ReadsMembers.legal {scope scope' : Scope} {space : Option String} {seen : List String}
    {items : List Json} {schemas : List Schema} :
    ReadsMembers scope space seen items schemas scope' → scope.Legal →
      scope'.Legal ∧ ∀ member ∈ schemas, AllNodes Legal member
  | .nil, hscope => ⟨hscope, List.forall_mem_nil _⟩
  | .cons h _ _ hrest, hscope => by
      obtain ⟨hbetween, hfirst⟩ := h.legal hscope
      obtain ⟨hscope', hothers⟩ := hrest.legal hbetween
      exact ⟨hscope', List.forall_mem_cons.mpr ⟨hfirst, hothers⟩⟩

theorem ReadsFields.legal {scope scope' : Scope} {space : Option String} {seen : List String}
    {items : List Json} {fields : List Field} :
    ReadsFields scope space seen items fields scope' → scope.Legal →
      scope'.Legal ∧ ∀ field ∈ fields, AllNodes Legal (FieldOf.schema field)
  | .nil, hscope => ⟨hscope, List.forall_mem_nil _⟩
  | .cons _ _ h _ hrest, hscope => by
      obtain ⟨hbetween, hfirst⟩ := h.legal hscope
      obtain ⟨hscope', hothers⟩ := hrest.legal hbetween
      exact ⟨hscope', List.forall_mem_cons.mpr ⟨hfirst, hothers⟩⟩

end

/-- Every node of a schema that was read is legal. -/
theorem allLegal_of_ofJson {value : Json} {schema : Schema} (h : ofJson value = .ok schema) :
    AllNodes Legal schema := by
  obtain ⟨scope, hreads⟩ := ofJson_eq_ok_iff.mp h
  exact (hreads.legal Scope.legal_empty).2

theorem exists_ofJson_of_parse {text : String} {schema : Schema} (h : parse text = .ok schema) :
    ∃ value, ofJson value = .ok schema := by
  rw [parse] at h
  split at h
  next value _ => exact ⟨value, h⟩
  next => cases h

theorem allLegal_of_parse {text : String} {schema : Schema} (h : parse text = .ok schema) :
    AllNodes Legal schema := by
  obtain ⟨value, hvalue⟩ := exists_ofJson_of_parse h
  exact allLegal_of_ofJson hvalue

theorem AllNodes.checked {schema : Schema} (h : AllNodes Legal schema) :
    AllHeads TypeHead.Checked schema := by
  intro path node head hnode hhead
  exact (h path node hnode).wellBuilt.head_checked hhead

/-- A value that is read defines types of distinct full names, and every node of its schema,
copies and unrolled copies included, has passed the checks of its kind. -/
theorem legal_of_ofJson {value : Json} {schema : Schema} (h : ofJson value = .ok schema) :
    (∀ path node, Occurs path node schema → node.WellBuilt ∧
        ∀ head, node.head? = some head → PrimitiveKind.ofName? head.fullName = none) ∧
      (Mark.definedNames (value.marks [] none)).Nodup := by
  obtain ⟨scope, hreads⟩ := ofJson_eq_ok_iff.mp h
  obtain ⟨hscope, hnodes⟩ := hreads.legal Scope.legal_empty
  constructor
  · intro path node hnode
    have hlegal := hnodes path node hnode
    exact ⟨hlegal.wellBuilt, hlegal.noPrimitive⟩
  · have hclaimed : scope.claimed = [] ++ Mark.definedNames (value.marks [] none) :=
      hreads.claimed []
    rw [List.nil_append] at hclaimed
    rw [← hclaimed]
    exact hscope.nodup

/-- A record with an enum and a fixed, followed by null or a record like it. -/
def taskRecord : Json :=
  .obj [("type", .str "record"), ("name", .str "Task"), ("namespace", .str "a"),
    ("fields", .arr [
      .obj [("name", .str "status"), ("type", .obj [("type", .str "enum"),
        ("name", .str "Status"), ("aliases", .arr [.str "State"]),
        ("symbols", .arr [.str "OPEN", .str "DONE"]), ("default", .str "OPEN")])],
      .obj [("name", .str "digest"), ("type", .obj [("type", .str "fixed"),
        ("name", .str "b.Digest"), ("size", .num (.integer 16))])],
      .obj [("name", .str "next"), ("type", .arr [.str "null", .str "Task"])]])]

theorem legal_of_ofJson_taskRecord :
    ∃ schema, ofJson taskRecord = .ok schema ∧
      (∀ path node, Occurs path node schema → node.WellBuilt ∧
        ∀ head, node.head? = some head → PrimitiveKind.ofName? head.fullName = none) ∧
      (Mark.definedNames (taskRecord.marks [] none)).Nodup := by
  have h : ofJson taskRecord = .ok _ := rfl
  exact ⟨_, h, legal_of_ofJson h⟩

end Schema

end EventSchema
