import EventSchema.Proofs.Outline

/-!
# Unrolled records

Finishing a record puts its definition in place of the references to it, with
the references inside what is put in left as they are.  A path through the
finished record is one through its fields, or one that leads to such a reference
and goes on inside the definition.  The main statement says when this passes no
more than two records of one full name: it is enough that a record that refers
to itself leaves no other record open.
-/

namespace EventSchema

namespace Schema

/-! ## Records on a path -/

/-- The full name of a record. -/
def recordName? : Schema → Option String
  | record head .. => some head.fullName
  | _ => none

/-- The full names of the records that a path to a node passes, the node included. -/
def passed (path : List String) (node : Schema) : List String :=
  path ++ node.recordName?.toList

section Passed

variable {path : List String} {node definition : Schema} {fullName : String}

theorem recordName?_close (h : node ≠ ref fullName) :
    (close fullName definition node).recordName? = node.recordName? := by
  cases node with
  | primitive | array | map | union | record | enum | fixed => rfl
  | ref name =>
      rw [close, if_neg]
      rintro rfl
      exact h rfl

@[simp] theorem passed_ref (path : List String) (name : String) :
    passed path (ref name) = path := by
  simp [passed, recordName?]

theorem passed_close (h : node ≠ ref fullName) :
    passed path (close fullName definition node) = passed path node := by
  rw [passed, recordName?_close h, passed]

theorem passed_append (outer inner : List String) (node : Schema) :
    passed (outer ++ inner) node = outer ++ passed inner node := by
  rw [passed, passed, List.append_assoc]

theorem head?_of_recordName? (h : node.recordName? = some fullName) :
    ∃ head, node.head? = some head ∧ head.fullName = fullName := by
  cases node with
  | record head =>
      cases h
      exact ⟨head, rfl, rfl⟩
  | primitive | array | map | union | enum | fixed | ref => cases h

end Passed

end Schema

/-! ## Schemas below finished types -/

namespace Scope

/-- A named type leaves the same open types open as the finished definition of its full name. -/
def Reflects (scope : Scope) (node : Schema) : Prop :=
  ∀ head, node.head? = some head → ∃ definition,
    scope.finished.get? head.fullName = some definition ∧
      ∀ outside, scope.finished.get? outside = none →
        (Schema.LeavesOpen node outside ↔ Schema.LeavesOpen definition outside)

/-- A schema leaves no type open that is not finished. -/
def Complete (scope : Scope) (schema : Schema) : Prop :=
  ∀ outside, scope.finished.get? outside = none → ¬ Schema.LeavesOpen schema outside

/-- A type is finished with a complete definition. -/
def Sealed (scope : Scope) (fullName : String) : Prop :=
  ∃ definition, scope.finished.get? fullName = some definition ∧ scope.Complete definition

/-- Among the records on a path, no name stands three times, and one that stands twice is that of
a sealed type. -/
def Sparing (scope : Scope) (names : List String) : Prop :=
  ∀ fullName, names.count fullName ≤ 1 ∨ names.count fullName = 2 ∧ scope.Sealed fullName

/-- Every named type of a schema reflects its definition, and its paths are sparing. -/
structure Unrolls (scope : Scope) (schema : Schema) : Prop where
  reflects : Schema.AllNodes scope.Reflects schema
  sparing : ∀ {path node}, Schema.Occurs path node schema → scope.Sparing (Schema.passed path node)

section Unrolls

variable {earlier scope : Scope} {path : List String} {schema node definition : Schema}
  {fullName outside : String}

theorem Keeps.notFinished (hkeeps : Keeps earlier scope)
    (h : scope.finished.get? fullName = none) : earlier.finished.get? fullName = none := by
  cases hfound : earlier.finished.get? fullName with
  | none => rfl
  | some definition =>
      rw [hkeeps fullName definition hfound] at h
      cases h

theorem Keeps.reflects (hkeeps : Keeps earlier scope) (h : earlier.Reflects node) :
    scope.Reflects node := by
  intro head hhead
  obtain ⟨definition, hfound, hleaves⟩ := h head hhead
  refine ⟨definition, hkeeps _ _ hfound, ?_⟩
  intro outside houtside
  exact hleaves outside (hkeeps.notFinished houtside)

theorem Keeps.complete (hkeeps : Keeps earlier scope) (h : earlier.Complete schema) :
    scope.Complete schema := by
  intro outside houtside
  exact h outside (hkeeps.notFinished houtside)

theorem Keeps.isSealed (hkeeps : Keeps earlier scope) (h : earlier.Sealed fullName) :
    scope.Sealed fullName := by
  obtain ⟨definition, hfound, hcomplete⟩ := h
  exact ⟨definition, hkeeps _ _ hfound, hkeeps.complete hcomplete⟩

theorem Keeps.sparing (hkeeps : Keeps earlier scope) {names : List String}
    (h : earlier.Sparing names) : scope.Sparing names := by
  intro fullName
  exact (h fullName).imp_right fun ⟨hcount, hsealed⟩ => ⟨hcount, hkeeps.isSealed hsealed⟩

theorem Keeps.unrolls (hkeeps : Keeps earlier scope) (h : earlier.Unrolls schema) :
    scope.Unrolls schema :=
  ⟨h.reflects.imp fun _ => hkeeps.reflects, fun hnode => hkeeps.sparing (h.sparing hnode)⟩

theorem reflects_of_unnamed (hhead : node.head? = none) : scope.Reflects node := by
  intro head hsome
  rw [hhead] at hsome
  cases hsome

theorem sparing_nil : scope.Sparing [] := by
  intro fullName
  exact .inl (by simp)

/-- The records on a path to a node are finished, and so is the node if it is a record. -/
theorem Unrolls.notMem_passed (h : scope.Unrolls schema) (hnode : Schema.Occurs path node schema)
    (hopen : scope.finished.get? fullName = none) : fullName ∉ Schema.passed path node := by
  have hfinished : ∀ {found}, Schema.NamedIn schema fullName found → False := by
    rintro found ⟨⟨place, hplace⟩, head, hhead, rfl⟩
    obtain ⟨definition, hdefinition, -⟩ := h.reflects place found hplace head hhead
    rw [hopen] at hdefinition
    cases hdefinition
  intro hmem
  rcases List.mem_append.mp hmem with hpath | hself
  · obtain ⟨outer, inner, houter, -⟩ := hnode.exists_outer hpath
    exact hfinished houter
  · obtain ⟨head, hhead, hname⟩ := Schema.head?_of_recordName? (Option.mem_toList.mp hself)
    exact hfinished ⟨⟨path, hnode⟩, head, hhead, hname⟩

theorem Unrolls.notMem_path (h : scope.Unrolls schema) (hnode : Schema.Occurs path node schema)
    (hopen : scope.finished.get? fullName = none) : fullName ∉ path := by
  intro hmem
  exact h.notMem_passed hnode hopen (List.mem_append_left _ hmem)

/-- What a node leaves open is left open by the schema. -/
theorem Unrolls.leavesOpen (h : scope.Unrolls schema) (hnode : Schema.Occurs path node schema)
    (hopen : scope.finished.get? outside = none) (hleaves : Schema.LeavesOpen node outside) :
    Schema.LeavesOpen schema outside := by
  obtain ⟨inner, href, -⟩ := hleaves
  have hplace := hnode.trans href
  exact ⟨path ++ inner, hplace, h.notMem_path hplace hopen⟩

/-- A type around a reference to an open record leaves the record open, and what else it leaves
open is left open by the schema. -/
theorem Unrolls.exists_definition (h : scope.Unrolls schema)
    (hnode : Schema.Occurs path (.ref outside) schema)
    (hopen : scope.finished.get? outside = none) (hmem : fullName ∈ path) :
    ∃ definition, scope.finished.get? fullName = some definition ∧
      Schema.LeavesOpen definition outside ∧
        ∀ other, scope.finished.get? other = none → Schema.LeavesOpen definition other →
          Schema.LeavesOpen schema other := by
  obtain ⟨outer, inner, ⟨⟨place, hplace⟩, head, hhead, rfl⟩, hinner, -⟩ :=
    hnode.exists_outer hmem
  obtain ⟨definition, hdefinition, hleaves⟩ := h.reflects place outer hplace head hhead
  have hbelow : outside ∉ inner := by
    intro hin
    exact h.notMem_path (hplace.trans hinner) hopen (List.mem_append_right _ hin)
  refine ⟨definition, hdefinition, (hleaves outside hopen).mp ⟨inner, hinner, hbelow⟩, ?_⟩
  intro other hother hdefinitionOpen
  exact h.leavesOpen hplace hother ((hleaves other hother).mpr hdefinitionOpen)

/-- Closing keeps that a type reflects its definition if what is put in is complete. -/
theorem Reflects.close (h : scope.Reflects node) (hdefinition : scope.Reflects definition)
    (hcomplete : scope.Complete definition) (hfinished : scope.finished.get? fullName ≠ none) :
    scope.Reflects (Schema.close fullName definition node) := by
  intro head hhead
  rcases Schema.head?_of_close hhead with hsame | ⟨rfl, hput⟩
  · obtain ⟨found, hfound, hleaves⟩ := h head hsame
    refine ⟨found, hfound, ?_⟩
    intro outside houtside
    have hne : outside ≠ fullName := by
      rintro rfl
      exact hfinished houtside
    rw [Schema.leavesOpen_close_iff hne (hcomplete outside houtside)]
    exact hleaves outside houtside
  · rw [Schema.close, if_pos rfl]
    exact hdefinition head hput

theorem complete_record {head : TypeHead} {isError : Bool} {fields : List Field}
    (h : ∀ field ∈ fields, scope.Complete (FieldOf.schema field)) :
    scope.Complete (.record head isError fields) := by
  intro outside houtside hleaves
  obtain ⟨-, field, hfield, hin⟩ := Schema.leavesOpen_record.mp hleaves
  exact h field hfield outside houtside hin

/-- No path passes a type around a reference to an open record twice. -/
theorem Unrolls.count_le_one (h : scope.Unrolls schema)
    (hnode : Schema.Occurs path (.ref outside) schema)
    (hopen : scope.finished.get? outside = none) (hmem : fullName ∈ path) {names : List String}
    (hnames : scope.Sparing names) : names.count fullName ≤ 1 := by
  rcases hnames fullName with hcount | ⟨-, definition, hdefinition, hsealed⟩
  · exact hcount
  · obtain ⟨found, hfound, hleaves, -⟩ := h.exists_definition hnode hopen hmem
    rw [hdefinition] at hfound
    cases hfound
    exact absurd hleaves (hsealed outside hopen)

end Unrolls

/-! ## Finishing a record -/

section Finishing

variable {scope : Scope} {head : TypeHead} {isError : Bool} {fields : List Field}
  {path : List String} {node definition : Schema}

theorem sparing_cons {earlier : Scope} {fullName : String} {names : List String}
    (hkeeps : Keeps earlier scope) (hnew : fullName ∉ names) (h : earlier.Sparing names) :
    scope.Sparing (fullName :: names) := by
  intro other
  by_cases heq : other = fullName
  · subst heq
    left
    have hzero : names.count other = 0 := List.count_eq_zero_of_not_mem hnew
    rw [List.count_cons_self]
    omega
  · rw [List.count_cons_of_ne (Ne.symm heq)]
    exact hkeeps.sparing h other

theorem reflects_record (hopen : scope.finished.get? head.fullName = none)
    (h : ∀ field ∈ fields, scope.Unrolls (FieldOf.schema field))
    (hdefinition : ∀ outside, Schema.LeavesOpen (.record head isError fields) outside ↔
      Schema.LeavesOpen definition outside) :
    Schema.AllNodes (scope.finish head.fullName definition).Reflects
      (.record head isError fields) := by
  refine Schema.allNodes_record.mpr ⟨?_, ?_⟩
  · rintro found ⟨⟩
    exact ⟨definition, get?_finished_finish_self hopen, fun outside _ => hdefinition outside⟩
  · intro field hfield
    have hkeeps := scope.keeps_finish head.fullName definition
    exact (h field hfield).reflects.imp fun _ => hkeeps.reflects

/-- A path inside a record as it was read passes the record and then what a path inside a field
passes. -/
theorem exists_passed_record (hopen : scope.finished.get? head.fullName = none)
    (h : ∀ field ∈ fields, scope.Unrolls (FieldOf.schema field))
    (hnode : Schema.Occurs path node (.record head isError fields)) :
    ∃ names, Schema.passed path node = head.fullName :: names ∧ scope.Sparing names ∧
      head.fullName ∉ names := by
  cases hnode with
  | here => exact ⟨[], rfl, sparing_nil, List.not_mem_nil⟩
  | field hfield hnode =>
      have hunrolls := h _ hfield
      exact ⟨_, rfl, hunrolls.sparing hnode, hunrolls.notMem_passed hnode hopen⟩

theorem sparing_record (hopen : scope.finished.get? head.fullName = none)
    (h : ∀ field ∈ fields, scope.Unrolls (FieldOf.schema field))
    (hnode : Schema.Occurs path node (.record head isError fields)) :
    (scope.finish head.fullName definition).Sparing (Schema.passed path node) := by
  obtain ⟨names, hpassed, hnames, hnew⟩ := exists_passed_record hopen h hnode
  rw [hpassed]
  exact sparing_cons (scope.keeps_finish head.fullName definition) hnew hnames

/-- A record that does not refer to itself is finished as it was read. -/
theorem unrolls_record (hopen : scope.finished.get? head.fullName = none)
    (h : ∀ field ∈ fields, scope.Unrolls (FieldOf.schema field))
    (hself : ∀ field ∈ fields, ¬ Schema.LeavesOpen (FieldOf.schema field) head.fullName) :
    (scope.finish head.fullName (Schema.closeRecord head isError fields)).Unrolls
      (Schema.closeRecord head isError fields) := by
  have hclosed : Schema.closeRecord head isError fields = Schema.record head isError fields := by
    apply Schema.closeRecord_eq_self
    intro field hfield path href
    exact hself field hfield ⟨path, href, (h field hfield).notMem_path href hopen⟩
  rw [hclosed]
  exact ⟨reflects_record hopen h fun _ => Iff.rfl, sparing_record hopen h⟩

/-- What a path passes that leads through a record to a reference to it, and on in the definition
that was put in. -/
theorem sparing_twice (hopen : scope.finished.get? head.fullName = none) {field : Field}
    (hfield : scope.Unrolls field.schema)
    (href : Schema.Occurs path (.ref head.fullName) field.schema) {names : List String}
    (hnames : scope.Sparing names) (hnew : head.fullName ∉ names)
    (hcomplete : (scope.finish head.fullName definition).Complete definition)
    (hcompleteField : (scope.finish head.fullName definition).Complete field.schema) :
    (scope.finish head.fullName definition).Sparing
      (head.fullName :: path ++ head.fullName :: names) := by
  have hkeeps := scope.keeps_finish head.fullName definition
  have hpath : head.fullName ∉ path := hfield.notMem_path href hopen
  intro fullName
  rw [List.cons_append, List.count_cons, List.count_append, List.count_cons]
  by_cases heq : fullName = head.fullName
  · subst heq
    right
    refine ⟨?_, definition, get?_finished_finish_self hopen, hcomplete⟩
    rw [List.count_eq_zero_of_not_mem hpath, List.count_eq_zero_of_not_mem hnew]
    simp
  · have hne : (head.fullName == fullName) = false := by simpa using Ne.symm heq
    rw [hne]
    simp only [Bool.false_eq_true, if_false, Nat.add_zero]
    by_cases hmem : fullName ∈ path
    · -- The type of this name leaves the record open, so that it stands once on either part.
      have hbefore : path.count fullName ≤ 1 := by
        apply hfield.count_le_one href hopen hmem
        have hsparing := hfield.sparing href
        rwa [Schema.passed_ref] at hsparing
      have hafter : names.count fullName ≤ 1 := hfield.count_le_one href hopen hmem hnames
      obtain ⟨found, hfound, -, hleaves⟩ := hfield.exists_definition href hopen hmem
      have hsealed : (scope.finish head.fullName definition).Sealed fullName := by
        refine ⟨found, hkeeps _ _ hfound, ?_⟩
        intro outside houtside hin
        exact hcompleteField outside houtside
          (hleaves outside (hkeeps.notFinished houtside) hin)
      rcases Nat.lt_or_ge (path.count fullName + names.count fullName) 2 with hlt | hge
      · exact .inl (Nat.le_of_lt_succ hlt)
      · exact .inr ⟨by omega, hsealed⟩
    · rw [List.count_eq_zero_of_not_mem hmem, Nat.zero_add]
      exact hkeeps.sparing hnames fullName

theorem leavesOpen_definition (hdefinition : definition = .closeRecord head isError fields)
    (outside : String) : Schema.LeavesOpen (.record head isError fields) outside ↔
      Schema.LeavesOpen definition outside := by
  rw [hdefinition, Schema.leavesOpen_record, Schema.leavesOpen_closeRecord]

/-- The types inside a record that refers to itself reflect their definitions if its fields leave no
other record open. -/
theorem reflects_closeRecord (hopen : scope.finished.get? head.fullName = none)
    (h : ∀ field ∈ fields, scope.Unrolls (FieldOf.schema field))
    (hdefinition : definition = .closeRecord head isError fields)
    (hcomplete : ∀ field ∈ fields,
      (scope.finish head.fullName definition).Complete (FieldOf.schema field)) :
    Schema.AllNodes (scope.finish head.fullName definition).Reflects definition := by
  have hrecord := reflects_record hopen h (leavesOpen_definition hdefinition)
  have hfinished : (scope.finish head.fullName definition).finished.get? head.fullName ≠ none := by
    rw [get?_finished_finish_self hopen]
    exact Option.some_ne_none definition
  have hclose := hrecord.close
    (fun _ hnode => Reflects.close hnode hrecord.root (complete_record hcomplete) hfinished) hrecord
  rwa [← Schema.closeRecord_eq_close, ← hdefinition] at hclose

/-- A record that refers to itself is finished with sparing paths if its fields leave no other
record open. -/
theorem unrolls_closeRecord (hopen : scope.finished.get? head.fullName = none)
    (h : ∀ field ∈ fields, scope.Unrolls (FieldOf.schema field))
    (hdefinition : definition = .closeRecord head isError fields)
    (hcomplete : ∀ field ∈ fields,
      (scope.finish head.fullName definition).Complete (FieldOf.schema field)) :
    (scope.finish head.fullName definition).Unrolls definition := by
  refine ⟨reflects_closeRecord hopen h hdefinition hcomplete, ?_⟩
  intro path node hnode
  have hclosed : Schema.Occurs path node (.closeRecord head isError fields) := hdefinition ▸ hnode
  rw [Schema.closeRecord_eq_close] at hclosed
  cases hclosed.of_close with
  | kept hpart hne =>
      rw [Schema.passed_close hne]
      exact sparing_record hopen h hpart
  | put houter hinner =>
      obtain ⟨names, hpassed, hnames, hnew⟩ := exists_passed_record hopen h hinner
      have hcompleteDefinition : (scope.finish head.fullName definition).Complete definition := by
        intro outside houtside hleaves
        exact complete_record hcomplete outside houtside
          ((leavesOpen_definition hdefinition outside).mpr hleaves)
      rw [Schema.passed_append, hpassed]
      cases houter with
      | field hfield href =>
          exact sparing_twice hopen (h _ hfield) href hnames hnew hcompleteDefinition
            (hcomplete _ hfield)

/-- The step of the argument: a record is finished with sparing paths if it does not refer to
itself, and also if its fields leave no other record open. -/
theorem unrolls_finish (hopen : scope.finished.get? head.fullName = none)
    (h : ∀ field ∈ fields, scope.Unrolls (FieldOf.schema field))
    (hcomplete : (∃ field ∈ fields, Schema.LeavesOpen (FieldOf.schema field) head.fullName) →
      ∀ field ∈ fields, (scope.finish head.fullName
        (Schema.closeRecord head isError fields)).Complete (FieldOf.schema field)) :
    (scope.finish head.fullName (Schema.closeRecord head isError fields)).Unrolls
      (Schema.closeRecord head isError fields) := by
  by_cases hself : ∃ field ∈ fields, Schema.LeavesOpen (FieldOf.schema field) head.fullName
  · exact unrolls_closeRecord hopen h rfl (hcomplete hself)
  · apply unrolls_record hopen h
    intro field hfield hleaves
    exact hself ⟨field, hfield, hleaves⟩

end Finishing

/-! ## Other nodes -/

section Nodes

variable {scope opened : Scope} {schema definition : Schema} {fullName : String}

theorem unrolls_leaf (hreflects : scope.Reflects schema) (hname : schema.recordName? = none)
    (hleaf : ∀ {path node}, Schema.Occurs path node schema → path = [] ∧ node = schema) :
    scope.Unrolls schema := by
  refine ⟨Schema.allNodes_leaf hreflects fun hnode => (hleaf hnode).2, ?_⟩
  intro path node hnode
  obtain ⟨rfl, rfl⟩ := hleaf hnode
  rw [Schema.passed, hname]
  exact sparing_nil

theorem unrolls_primitive {kind : PrimitiveKind} {props : Props} :
    scope.Unrolls (.primitive kind props) := by
  apply unrolls_leaf (reflects_of_unnamed rfl) rfl
  rintro path node ⟨⟩
  exact ⟨rfl, rfl⟩

theorem unrolls_ref {name : String} : scope.Unrolls (.ref name) := by
  apply unrolls_leaf (reflects_of_unnamed rfl) rfl
  rintro path node ⟨⟩
  exact ⟨rfl, rfl⟩

theorem unrolls_array {items : Schema} {props : Props} (h : scope.Unrolls items) :
    scope.Unrolls (.array items props) := by
  refine ⟨Schema.allNodes_array.mpr ⟨reflects_of_unnamed rfl, h.reflects⟩, ?_⟩
  intro path node hnode
  cases hnode with
  | here => exact sparing_nil
  | items hnode => exact h.sparing hnode

theorem unrolls_map {values : Schema} {props : Props} (h : scope.Unrolls values) :
    scope.Unrolls (.map values props) := by
  refine ⟨Schema.allNodes_map.mpr ⟨reflects_of_unnamed rfl, h.reflects⟩, ?_⟩
  intro path node hnode
  cases hnode with
  | here => exact sparing_nil
  | values hnode => exact h.sparing hnode

theorem unrolls_union {members : List Schema} (h : ∀ member ∈ members, scope.Unrolls member) :
    scope.Unrolls (.union members) := by
  refine ⟨Schema.allNodes_union.mpr
    ⟨reflects_of_unnamed rfl, fun member hmember => (h member hmember).reflects⟩, ?_⟩
  intro path node hnode
  cases hnode with
  | here => exact sparing_nil
  | member hmember hnode => exact (h _ hmember).sparing hnode

/-- Every finished type has a definition with sparing paths. -/
def Unrolled (scope : Scope) : Prop :=
  ∀ fullName definition, scope.finished.get? fullName = some definition →
    scope.Unrolls definition

theorem unrolled_empty : ({} : Scope).Unrolled := by
  intro fullName definition h
  cases h

theorem Unrolled.claim (h : scope.Unrolled) (hclaim : scope.claim fullName = .ok opened) :
    opened.Unrolled := by
  have hsame : opened.finished = scope.finished := finished_of_claim hclaim
  have hkeeps : Keeps scope opened := by
    intro other found hfound
    rwa [hsame]
  intro other found hfound
  rw [hsame] at hfound
  exact hkeeps.unrolls (h other found hfound)

theorem Unrolled.finish (h : scope.Unrolled)
    (hdefinition : (scope.finish fullName definition).Unrolls definition) :
    (scope.finish fullName definition).Unrolled := by
  intro other found hfound
  rcases get?_finished_finish hfound with hearlier | ⟨rfl, rfl⟩
  · exact (scope.keeps_finish fullName definition).unrolls (h other found hearlier)
  · exact hdefinition

/-- A definition without other types in it has sparing paths as soon as it is finished. -/
theorem Unrolled.finish_leaf {head : TypeHead} (h : scope.Unrolled) (hsettled : scope.Settled)
    (hclaim : scope.claim head.fullName = .ok opened) (hhead : definition.head? = some head)
    (hname : definition.recordName? = none)
    (hleaf : ∀ {path node}, Schema.Occurs path node definition → path = [] ∧ node = definition) :
    (opened.finish head.fullName definition).Unrolled ∧
      (opened.finish head.fullName definition).Unrolls definition := by
  have hunrolls : (opened.finish head.fullName definition).Unrolls definition := by
    refine unrolls_leaf ?_ hname hleaf
    intro found hfound
    rw [hhead] at hfound
    cases hfound
    exact ⟨definition, get?_finished_finish_self (hsettled.get?_of_claim hclaim),
      fun _ _ => Iff.rfl⟩
  exact ⟨(h.claim hclaim).finish hunrolls, hunrolls⟩

theorem Unrolled.schemaOfName {space : Option String} {name : String} (h : scope.Unrolled)
    (hname : scope.schemaOfName space name = .ok schema) : scope.Unrolls schema := by
  rcases schemaOfName_eq_ok hname with ⟨kind, -, rfl⟩ | ⟨target, -, rfl⟩
  · exact unrolls_primitive
  · rw [stored]
    cases hfound : scope.finished.get? target with
    | some definition => exact h target definition hfound
    | none => exact unrolls_ref

end Nodes

end Scope

end EventSchema
