import EventSchema.Schema.ToJson

/-!
# Occurrences in a schema

A schema is a tree whose inner nodes are containers and records.  This module
holds the induction that its shape gives, says where a node occurs, below which
records, and which references a schema leaves open: those that do not lie below
a record of the name that they refer to.
-/

namespace EventSchema

namespace Schema

/-- The head of a record, an enum or a fixed. -/
def head? : Schema → Option TypeHead
  | record head .. => some head
  | enum head .. => some head
  | fixed head _ => some head
  | _ => none

theorem fullName?_of_head? {schema : Schema} {head : TypeHead} (h : schema.head? = some head) :
    schema.fullName? = some head.fullName := by
  cases schema <;> cases h <;> rfl

/-- A property of all schemas follows from the members of each union and from the schemas of
each record's fields. -/
@[elab_as_elim]
theorem induct {motive : Schema → Prop}
    (primitive : ∀ kind props, motive (primitive kind props))
    (array : ∀ items props, motive items → motive (array items props))
    (map : ∀ values props, motive values → motive (map values props))
    (union : ∀ members, (∀ member ∈ members, motive member) → motive (union members))
    (record : ∀ head isError fields, (∀ field ∈ fields, motive (FieldOf.schema field)) →
      motive (record head isError fields))
    (enum : ∀ head symbols defaultSymbol, motive (enum head symbols defaultSymbol))
    (fixed : ∀ head size, motive (fixed head size))
    (ref : ∀ name, motive (ref name)) (schema : Schema) : motive schema := by
  refine @Schema.rec motive (fun members => ∀ member ∈ members, motive member)
    (fun fields => ∀ field ∈ fields, motive (FieldOf.schema field))
    (fun field => motive field.schema) primitive array map union record enum fixed ref
    ?_ ?_ ?_ ?_ ?_ schema
  · intro member hmem
    cases hmem
  · intro first rest hfirst hrest
    exact List.forall_mem_cons.mpr ⟨hfirst, hrest⟩
  · intro field hmem
    cases hmem
  · intro first rest hfirst hrest
    exact List.forall_mem_cons.mpr ⟨hfirst, hrest⟩
  · intro _ schema _ _ _ _ _ h
    exact h

/-! ## Nodes and the records around them -/

/-- `Occurs path node schema`: a node occurs in a schema below the records of these full names,
outermost first. -/
inductive Occurs : List String → Schema → Schema → Prop
  | here {schema} : Occurs [] schema schema
  | items {path node items props} (h : Occurs path node items) :
      Occurs path node (array items props)
  | values {path node values props} (h : Occurs path node values) :
      Occurs path node (map values props)
  | member {path node member members} (hmem : member ∈ members) (h : Occurs path node member) :
      Occurs path node (union members)
  | field {path node field head isError fields} (hmem : field ∈ fields)
      (h : Occurs path node (FieldOf.schema field)) :
      Occurs (head.fullName :: path) node (record head isError fields)

theorem sizeOf_schema_lt_of_mem {field : Field} {fields : List Field} (head : TypeHead)
    (isError : Bool) (hmem : field ∈ fields) :
    sizeOf field.schema < sizeOf (record head isError fields) := by
  have hfield : sizeOf field.schema < sizeOf field := by
    cases field
    simp
    omega
  have hlist : sizeOf field < sizeOf fields := List.sizeOf_lt_of_mem hmem
  simp
  omega

/-- A node is no larger than the schema that it occurs in. -/
theorem Occurs.sizeOf_le {path : List String} {node schema : Schema}
    (h : Occurs path node schema) : sizeOf node ≤ sizeOf schema := by
  induction h with
  | here => exact Nat.le_refl _
  | items _ ih =>
      simp
      omega
  | values _ ih =>
      simp
      omega
  | member hmem _ ih =>
      have hlist := List.sizeOf_lt_of_mem hmem
      simp
      omega
  | field hmem _ ih =>
      exact Nat.le_trans ih (Nat.le_of_lt (sizeOf_schema_lt_of_mem _ _ hmem))

/-- A node below a record is smaller than the schema that it occurs in. -/
theorem Occurs.sizeOf_lt {path : List String} {inner outer : Schema} (h : Occurs path inner outer)
    (hpath : path ≠ []) : sizeOf inner < sizeOf outer := by
  induction h with
  | here => exact absurd rfl hpath
  | items h ih =>
      have hsize := ih hpath
      simp
      omega
  | values h ih =>
      have hsize := ih hpath
      simp
      omega
  | member hmem h ih =>
      have hsize := ih hpath
      have hlist := List.sizeOf_lt_of_mem hmem
      simp
      omega
  | field hmem h _ => exact Nat.lt_of_le_of_lt h.sizeOf_le (sizeOf_schema_lt_of_mem _ _ hmem)

theorem Occurs.trans {outer inner : List String} {node middle schema : Schema}
    (h : Occurs outer middle schema) (hnode : Occurs inner node middle) :
    Occurs (outer ++ inner) node schema := by
  induction h with
  | here => exact hnode
  | items _ ih => exact .items (ih hnode)
  | values _ ih => exact .values (ih hnode)
  | member hmem _ ih => exact .member hmem (ih hnode)
  | field hmem _ ih => exact .field hmem (ih hnode)

/-- A node of a schema is a named type of this full name. -/
def NamedIn (root : Schema) (fullName : String) (node : Schema) : Prop :=
  (∃ path, Occurs path node root) ∧ ∃ head, node.head? = some head ∧ head.fullName = fullName

theorem namedIn_self {schema : Schema} {head : TypeHead} (hhead : schema.head? = some head) :
    NamedIn schema head.fullName schema :=
  ⟨⟨[], .here⟩, head, hhead, rfl⟩

theorem NamedIn.fullName?_eq {root node : Schema} {fullName : String}
    (h : NamedIn root fullName node) : node.fullName? = some fullName := by
  obtain ⟨-, head, hhead, rfl⟩ := h
  exact fullName?_of_head? hhead

theorem NamedIn.trans {root middle node : Schema} {path : List String} {fullName : String}
    (hmiddle : Occurs path middle root) (h : NamedIn middle fullName node) :
    NamedIn root fullName node := by
  obtain ⟨⟨inner, hnode⟩, hnamed⟩ := h
  exact ⟨⟨path ++ inner, hmiddle.trans hnode⟩, hnamed⟩

/-- A record around a node is the named type that the node lies below. -/
theorem Occurs.exists_outer {path : List String} {node root : Schema} {fullName : String}
    (h : Occurs path node root) (hmem : fullName ∈ path) :
    ∃ outer inner, NamedIn root fullName outer ∧ Occurs inner node outer ∧ inner ≠ [] := by
  induction h with
  | here => cases hmem
  | items _ ih =>
      obtain ⟨outer, inner, houter, hinner⟩ := ih hmem
      exact ⟨outer, inner, houter.trans (.items .here), hinner⟩
  | values _ ih =>
      obtain ⟨outer, inner, houter, hinner⟩ := ih hmem
      exact ⟨outer, inner, houter.trans (.values .here), hinner⟩
  | member hmember _ ih =>
      obtain ⟨outer, inner, houter, hinner⟩ := ih hmem
      exact ⟨outer, inner, houter.trans (.member hmember .here), hinner⟩
  | field hfield h ih =>
      rcases List.mem_cons.mp hmem with rfl | hmem
      · exact ⟨_, _, namedIn_self rfl, .field hfield h, List.cons_ne_nil _ _⟩
      · obtain ⟨outer, inner, houter, hinner⟩ := ih hmem
        exact ⟨outer, inner, houter.trans (.field hfield .here), hinner⟩

/-! ## Properties of all nodes -/

/-- Every node of a schema is of this kind. -/
def AllNodes (p : Schema → Prop) (schema : Schema) : Prop :=
  ∀ path node, Occurs path node schema → p node

section AllNodes

variable {p : Schema → Prop}

theorem AllNodes.root {schema : Schema} (h : AllNodes p schema) : p schema :=
  h [] schema .here

theorem AllNodes.imp {q : Schema → Prop} {schema : Schema} (hpq : ∀ node, p node → q node)
    (h : AllNodes p schema) : AllNodes q schema := by
  intro path node hnode
  exact hpq node (h path node hnode)

theorem allNodes_leaf {schema : Schema} (hroot : p schema)
    (hleaf : ∀ {path node}, Occurs path node schema → node = schema) : AllNodes p schema := by
  intro path node hnode
  rw [hleaf hnode]
  exact hroot

@[simp] theorem allNodes_primitive {kind : PrimitiveKind} {props : Props} :
    AllNodes p (primitive kind props) ↔ p (primitive kind props) := by
  constructor
  · exact AllNodes.root
  · intro hroot
    apply allNodes_leaf hroot
    rintro path node ⟨⟩
    rfl

@[simp] theorem allNodes_array {items : Schema} {props : Props} :
    AllNodes p (array items props) ↔ p (array items props) ∧ AllNodes p items := by
  constructor
  · intro h
    refine ⟨h.root, ?_⟩
    intro path node hnode
    exact h _ node (.items hnode)
  · rintro ⟨hroot, hitems⟩ path node hnode
    cases hnode with
    | here => exact hroot
    | items hnode => exact hitems _ node hnode

@[simp] theorem allNodes_map {values : Schema} {props : Props} :
    AllNodes p (map values props) ↔ p (map values props) ∧ AllNodes p values := by
  constructor
  · intro h
    refine ⟨h.root, ?_⟩
    intro path node hnode
    exact h _ node (.values hnode)
  · rintro ⟨hroot, hvalues⟩ path node hnode
    cases hnode with
    | here => exact hroot
    | values hnode => exact hvalues _ node hnode

@[simp] theorem allNodes_union {members : List Schema} :
    AllNodes p (union members) ↔ p (union members) ∧ ∀ member ∈ members, AllNodes p member := by
  constructor
  · intro h
    refine ⟨h.root, ?_⟩
    intro member hmem path node hnode
    exact h _ node (.member hmem hnode)
  · rintro ⟨hroot, hmembers⟩ path node hnode
    cases hnode with
    | here => exact hroot
    | member hmem hnode => exact hmembers _ hmem _ node hnode

@[simp] theorem allNodes_record {head : TypeHead} {isError : Bool} {fields : List Field} :
    AllNodes p (record head isError fields) ↔
      p (record head isError fields) ∧ ∀ field ∈ fields, AllNodes p (FieldOf.schema field) := by
  constructor
  · intro h
    refine ⟨h.root, ?_⟩
    intro field hmem path node hnode
    exact h _ node (.field hmem hnode)
  · rintro ⟨hroot, hfields⟩ path node hnode
    cases hnode with
    | here => exact hroot
    | field hmem hnode => exact hfields _ hmem _ node hnode

@[simp] theorem allNodes_enum {head : TypeHead} {symbols : List String}
    {defaultSymbol : Option String} :
    AllNodes p (enum head symbols defaultSymbol) ↔ p (enum head symbols defaultSymbol) := by
  constructor
  · exact AllNodes.root
  · intro hroot
    apply allNodes_leaf hroot
    rintro path node ⟨⟩
    rfl

@[simp] theorem allNodes_fixed {head : TypeHead} {size : UInt64} :
    AllNodes p (fixed head size) ↔ p (fixed head size) := by
  constructor
  · exact AllNodes.root
  · intro hroot
    apply allNodes_leaf hroot
    rintro path node ⟨⟩
    rfl

@[simp] theorem allNodes_ref {name : String} : AllNodes p (ref name) ↔ p (ref name) := by
  constructor
  · exact AllNodes.root
  · intro hroot
    apply allNodes_leaf hroot
    rintro path node ⟨⟩
    rfl

end AllNodes

/-- Every named type in a schema has a head of this kind. -/
def AllHeads (p : TypeHead → Prop) (schema : Schema) : Prop :=
  ∀ path node head, Occurs path node schema → node.head? = some head → p head

section AllHeads

variable {p : TypeHead → Prop}

theorem allHeads_iff_allNodes {schema : Schema} :
    AllHeads p schema ↔ AllNodes (fun node => ∀ head, node.head? = some head → p head) schema := by
  constructor
  · intro h path node hnode head hhead
    exact h path node head hnode hhead
  · intro h path node head hnode hhead
    exact h path node hnode head hhead

theorem AllHeads.imp {q : TypeHead → Prop} {schema : Schema} (hpq : ∀ head, p head → q head)
    (h : AllHeads p schema) : AllHeads q schema :=
  fun path node head hnode hhead => hpq head (h path node head hnode hhead)

theorem allHeads_array {items : Schema} {props : Props} :
    AllHeads p (array items props) ↔ AllHeads p items := by
  simp [allHeads_iff_allNodes, head?]

theorem allHeads_map {values : Schema} {props : Props} :
    AllHeads p (map values props) ↔ AllHeads p values := by
  simp [allHeads_iff_allNodes, head?]

theorem allHeads_union {members : List Schema} :
    AllHeads p (union members) ↔ ∀ member ∈ members, AllHeads p member := by
  simp [allHeads_iff_allNodes, head?]

theorem allHeads_record {head : TypeHead} {isError : Bool} {fields : List Field} :
    AllHeads p (record head isError fields) ↔
      p head ∧ ∀ field ∈ fields, AllHeads p (FieldOf.schema field) := by
  simp [allHeads_iff_allNodes, head?]

theorem allHeads_enum {head : TypeHead} {symbols : List String} {defaultSymbol : Option String} :
    AllHeads p (enum head symbols defaultSymbol) ↔ p head := by
  simp [allHeads_iff_allNodes, head?]

theorem allHeads_fixed {head : TypeHead} {size : UInt64} :
    AllHeads p (fixed head size) ↔ p head := by
  simp [allHeads_iff_allNodes, head?]

end AllHeads

/-! ## Open references -/

/-- A schema leaves a name open: it has a reference to it that lies below no record of that full
name. -/
def LeavesOpen (schema : Schema) (fullName : String) : Prop :=
  ∃ path, Occurs path (ref fullName) schema ∧ fullName ∉ path

variable {fullName : String}

@[simp] theorem not_leavesOpen_primitive {kind : PrimitiveKind} {props : Props} :
    ¬ LeavesOpen (primitive kind props) fullName := by
  rintro ⟨path, h, -⟩
  cases h

@[simp] theorem leavesOpen_array {items : Schema} {props : Props} :
    LeavesOpen (array items props) fullName ↔ LeavesOpen items fullName := by
  constructor
  · rintro ⟨path, h, hpath⟩
    cases h with
    | items h => exact ⟨path, h, hpath⟩
  · rintro ⟨path, h, hpath⟩
    exact ⟨path, .items h, hpath⟩

@[simp] theorem leavesOpen_map {values : Schema} {props : Props} :
    LeavesOpen (map values props) fullName ↔ LeavesOpen values fullName := by
  constructor
  · rintro ⟨path, h, hpath⟩
    cases h with
    | values h => exact ⟨path, h, hpath⟩
  · rintro ⟨path, h, hpath⟩
    exact ⟨path, .values h, hpath⟩

@[simp] theorem leavesOpen_union {members : List Schema} :
    LeavesOpen (union members) fullName ↔ ∃ member ∈ members, LeavesOpen member fullName := by
  constructor
  · rintro ⟨path, h, hpath⟩
    cases h with
    | member hmem h => exact ⟨_, hmem, path, h, hpath⟩
  · rintro ⟨member, hmem, path, h, hpath⟩
    exact ⟨path, .member hmem h, hpath⟩

@[simp] theorem leavesOpen_record {head : TypeHead} {isError : Bool} {fields : List Field} :
    LeavesOpen (record head isError fields) fullName ↔
      fullName ≠ head.fullName ∧ ∃ field ∈ fields, LeavesOpen field.schema fullName := by
  constructor
  · rintro ⟨path, h, hpath⟩
    cases h with
    | field hmem h =>
        rw [List.mem_cons, not_or] at hpath
        exact ⟨hpath.1, _, hmem, _, h, hpath.2⟩
  · rintro ⟨hne, field, hmem, path, h, hpath⟩
    refine ⟨head.fullName :: path, .field hmem h, ?_⟩
    rw [List.mem_cons, not_or]
    exact ⟨hne, hpath⟩

@[simp] theorem not_leavesOpen_enum {head : TypeHead} {symbols : List String}
    {defaultSymbol : Option String} : ¬ LeavesOpen (enum head symbols defaultSymbol) fullName := by
  rintro ⟨path, h, -⟩
  cases h

@[simp] theorem not_leavesOpen_fixed {head : TypeHead} {size : UInt64} :
    ¬ LeavesOpen (fixed head size) fullName := by
  rintro ⟨path, h, -⟩
  cases h

@[simp] theorem leavesOpen_ref {name : String} :
    LeavesOpen (ref name) fullName ↔ fullName = name := by
  constructor
  · rintro ⟨path, h, -⟩
    cases h
    rfl
  · rintro rfl
    exact ⟨[], .here, List.not_mem_nil⟩

end Schema

end EventSchema
