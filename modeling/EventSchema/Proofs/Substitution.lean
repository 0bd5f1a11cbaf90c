import EventSchema.Proofs.Places
import EventSchema.Proofs.Soundness
import Mathlib.Data.Set.Card
import Mathlib.Data.Set.Finite.Lattice

/-!
# Closing as substitution

Closing a name puts a definition in the place of every reference to the name and
does nothing else.  What the nodes of a schema hold, place by place, determines
the schema, so that there is one schema with the definition in these places and
all other nodes as they were.  The main statement says that it is the closed one,
that every node keeps the key by which a union tells it from others, and how many
references are left: each one that is replaced brings in those of the definition.
-/

namespace EventSchema

namespace Schema

/-! ## What a node holds -/

/-- A schema without the schemas right below it, of which a union keeps the number and a record
all else of its fields. -/
inductive Label where
  | primitive (kind : PrimitiveKind) (props : Props)
  | array (props : Props)
  | map (props : Props)
  | union (size : Nat)
  | record (head : TypeHead) (isError : Bool) (fields : List (FieldOf Unit))
  | enum (head : TypeHead) (symbols : List String) (defaultSymbol : Option String)
  | fixed (head : TypeHead) (size : UInt64)
  | ref (name : String)
  deriving DecidableEq

/-- Everything of a schema but the schemas right below it. -/
def label : Schema → Label
  | primitive kind props => .primitive kind props
  | array _ props => .array props
  | map _ props => .map props
  | union members => .union members.length
  | record head isError fields => .record head isError (fields.map FieldOf.label)
  | enum head symbols defaultSymbol => .enum head symbols defaultSymbol
  | fixed head size => .fixed head size
  | ref name => .ref name

/-- A property of all schemas follows from that of the parts of each schema. -/
@[elab_as_elim]
theorem induct_child {motive : Schema → Prop}
    (part : ∀ schema, (∀ step child, schema.child? step = some child → motive child) →
      motive schema) (schema : Schema) : motive schema := by
  induction schema using induct with
  | primitive | enum | fixed | ref =>
      apply part
      intro step child hchild
      cases step <;> cases hchild
  | array items props ih | map values props ih =>
      apply part
      intro step child hchild
      cases step <;> cases hchild
      exact ih
  | union members ih =>
      apply part
      intro step child hchild
      cases step with
      | items | values | field => cases hchild
      | member index => exact ih child (List.mem_of_getElem? hchild)
  | record head isError fields ih =>
      apply part
      intro step child hchild
      cases step with
      | items | values | member => cases hchild
      | field index =>
          obtain ⟨field, hfield, rfl⟩ := Option.map_eq_some_iff.mp hchild
          exact ih field (List.mem_of_getElem? hfield)

section Labels

variable {first second schema definition : Schema} {fullName : String}

theorem label_close (h : schema ≠ ref fullName) :
    (close fullName definition schema).label = schema.label := by
  cases schema with
  | primitive | array | map | enum | fixed => rfl
  | union members => rw [close, closeList_eq_map, label, List.length_map, label]
  | record head isError fields =>
      have hlabels : (fields.map (closeField fullName definition)).map FieldOf.label =
          fields.map FieldOf.label := by
        rw [List.map_map]
        apply List.map_congr_left
        intro field _
        exact label_closeField fullName definition field
      rw [close, closeFields_eq_map, label, hlabels, label]
  | ref name =>
      rw [close, if_neg]
      rintro rfl
      exact h rfl

/-- A schema is determined by its label and its parts. -/
theorem ext_child (hlabel : first.label = second.label)
    (hchild : ∀ step child, first.child? step = some child → second.child? step = some child) :
    first = second := by
  cases first with
  | primitive | enum | fixed | ref =>
      cases second <;> cases hlabel
      rfl
  | array items props =>
      cases second <;> cases hlabel
      cases hchild .items items rfl
      rfl
  | map values props =>
      cases second <;> cases hlabel
      cases hchild .values values rfl
      rfl
  | union members =>
      cases second with
      | union others =>
          have hlength : members.length = others.length := Label.union.inj hlabel
          congr 1
          apply List.ext_getElem hlength
          intro index hindex hother
          have hmember := hchild (.member index) members[index] (List.getElem?_eq_getElem hindex)
          exact (List.getElem?_eq_some_iff.mp hmember).2.symm
      | primitive | array | map | record | enum | fixed | ref => cases hlabel
  | record head isError fields =>
      cases second with
      | record otherHead otherIsError others =>
          obtain ⟨rfl, rfl, hlabels⟩ := Label.record.inj hlabel
          have hlength : fields.length = others.length := by
            simpa using congrArg List.length hlabels
          congr 1
          apply List.ext_getElem hlength
          intro index hindex hother
          have hfield : (others[index]?).map FieldOf.schema = some fields[index].schema := by
            apply hchild (.field index)
            rw [child?, List.getElem?_eq_getElem hindex, Option.map_some]
          rw [List.getElem?_eq_getElem hother, Option.map_some, Option.some.injEq] at hfield
          have hlabel : fields[index].label = others[index].label := by
            have hmapped := List.getElem_of_eq hlabels (by rwa [List.length_map])
            rwa [List.getElem_map, List.getElem_map] at hmapped
          exact FieldOf.ext_label hlabel hfield.symm
      | primitive | array | map | union | enum | fixed | ref => cases hlabel

end Labels

/-! ## Places of a closed schema -/

section Places

variable {schema definition child closed node : Schema} {fullName other : String} {step : Step}
  {path : List Step}

/-- A closed schema has no parts but those of the schema, closed. -/
theorem child?_of_close (hne : schema ≠ ref fullName)
    (h : (close fullName definition schema).child? step = some closed) :
    ∃ child, schema.child? step = some child ∧ closed = close fullName definition child := by
  cases schema with
  | primitive | enum | fixed => cases step <;> cases h
  | array items props | map items props =>
      cases step <;> cases h
      exact ⟨items, rfl, rfl⟩
  | union members =>
      rw [close, closeList_eq_map] at h
      cases step with
      | items | values | field => cases h
      | member index =>
          rw [child?, List.getElem?_map] at h
          obtain ⟨member, hmember, rfl⟩ := Option.map_eq_some_iff.mp h
          exact ⟨member, hmember, rfl⟩
  | record head isError fields =>
      rw [close, closeFields_eq_map] at h
      cases step with
      | items | values | member => cases h
      | field index =>
          rw [child?, List.getElem?_map, Option.map_map] at h
          obtain ⟨field, hfield, rfl⟩ := Option.map_eq_some_iff.mp h
          refine ⟨field.schema, ?_, schema_closeField fullName definition field⟩
          rw [child?, hfield, Option.map_some]
  | ref name =>
      rw [close, if_neg] at h
      · cases step <;> cases h
      · rintro rfl
        exact hne rfl

/-- At a place of a closed schema stands a node that the schema has there, closed, or a node of the
definition that was put in further up. -/
theorem at?_of_close (h : (close fullName definition schema).at? path = some closed) :
    (∃ node, schema.at? path = some node ∧ node ≠ ref fullName ∧
        closed = close fullName definition node) ∨
      ∃ outer inner, path = outer ++ inner ∧ schema.at? outer = some (ref fullName) ∧
        definition.at? inner = some closed := by
  induction path generalizing schema with
  | nil =>
      cases h
      by_cases hroot : schema = ref fullName
      · subst hroot
        rw [close, if_pos rfl]
        exact .inr ⟨[], [], rfl, rfl, rfl⟩
      · exact .inl ⟨schema, rfl, hroot, rfl⟩
  | cons step path ih =>
      by_cases hroot : schema = ref fullName
      · subst hroot
        rw [close, if_pos rfl] at h
        exact .inr ⟨[], step :: path, rfl, rfl, h⟩
      · obtain ⟨part, hpart, hclosed⟩ := Option.bind_eq_some_iff.mp h
        obtain ⟨child, hchild, rfl⟩ := child?_of_close hroot hpart
        rcases ih hclosed with ⟨node, hnode, hne, rfl⟩ | ⟨outer, inner, rfl, houter, hinner⟩
        · left
          exact ⟨node, (at?_cons hchild).trans hnode, hne, rfl⟩
        · right
          exact ⟨step :: outer, inner, rfl, (at?_cons hchild).trans houter, hinner⟩

end Places

/-! ## Substitution -/

/-- `Substitutes fullName definition schema result`: the result has the definition where the
schema has a reference to the name, and every other node of the schema stands in it at the same
place and holds what it held. -/
structure Substitutes (fullName : String) (definition schema result : Schema) : Prop where
  replaced : ∀ {path}, schema.at? path = some (ref fullName) → result.at? path = some definition
  kept : ∀ {path node}, schema.at? path = some node → node ≠ ref fullName →
    ∃ kept, result.at? path = some kept ∧ kept.label = node.label

section Substitution

variable {fullName : String} {definition schema result : Schema}

theorem substitutes_close (fullName : String) (definition schema : Schema) :
    Substitutes fullName definition schema (close fullName definition schema) where
  replaced := by
    intro path hpath
    rw [at?_close hpath, close, if_pos rfl]
  kept := by
    intro path node hnode hne
    exact ⟨close fullName definition node, at?_close hnode, label_close hne⟩

theorem Substitutes.child {child : Schema} {step : Step}
    (h : Substitutes fullName definition schema result) (hchild : schema.child? step = some child) :
    ∃ part, result.child? step = some part ∧ Substitutes fullName definition child part := by
  have hplace : schema.at? [step] = some child := at?_cons hchild
  obtain ⟨part, hpart⟩ : ∃ part, result.at? [step] = some part := by
    by_cases hname : child = ref fullName
    · subst hname
      exact ⟨definition, h.replaced hplace⟩
    · obtain ⟨kept, hkept, -⟩ := h.kept hplace hname
      exact ⟨kept, hkept⟩
  obtain ⟨found, hfound, hsame⟩ := Option.bind_eq_some_iff.mp hpart
  cases hsame
  refine ⟨part, hfound, ?_, ?_⟩
  · intro path hpath
    rw [← at?_cons hfound]
    exact h.replaced ((at?_cons hchild).trans hpath)
  · intro path node hnode hne
    rw [← at?_cons hfound]
    exact h.kept ((at?_cons hchild).trans hnode) hne

/-- The closed schema is the one with the definition in place of the references. -/
theorem substitutes_iff :
    Substitutes fullName definition schema result ↔ result = close fullName definition schema := by
  constructor
  · intro h
    induction schema using induct_child generalizing result with
    | part schema ih =>
        by_cases hroot : schema = ref fullName
        · subst hroot
          have hresult : result.at? [] = some definition := h.replaced rfl
          cases hresult
          rw [close, if_pos rfl]
        · have hplace : schema.at? [] = some schema := rfl
          obtain ⟨kept, hkept, hlabel⟩ := h.kept hplace hroot
          cases hkept
          -- Both schemas hold at the root what the given one does, and their parts are equal by
          -- induction, since what is below a part is substituted as well.
          symm
          apply ext_child ((label_close hroot).trans hlabel.symm)
          intro step closed hclosed
          obtain ⟨child, hchild, rfl⟩ := child?_of_close hroot hclosed
          obtain ⟨part, hpart, hsubstitutes⟩ := h.child hchild
          rw [hpart, ih step child hchild hsubstitutes]
  · rintro rfl
    exact substitutes_close fullName definition schema

end Substitution

/-! ## References that are left -/

/-- The paths that lead to a reference to the name. -/
def places (fullName : String) (schema : Schema) : Set (List Step) :=
  { path | schema.at? path = some (ref fullName) }

section Places

variable {fullName : String} {definition schema : Schema}

theorem finite_steps (schema : Schema) : { step | (schema.child? step).isSome }.Finite := by
  cases schema with
  | primitive | array | map | enum | fixed | ref =>
      apply Set.Finite.subset (Set.toFinite {Step.items, Step.values})
      intro step hstep
      cases step with
      | items | values => simp
      | member | field => cases hstep
  | union members =>
      apply ((Set.finite_lt_nat members.length).image Step.member).subset
      intro step hstep
      cases step with
      | items | values | field => cases hstep
      | member index =>
          have hindex : index < members.length := by simpa [child?] using hstep
          exact Set.mem_image_of_mem _ hindex
  | record head isError fields =>
      apply ((Set.finite_lt_nat fields.length).image Step.field).subset
      intro step hstep
      cases step with
      | items | values | member => cases hstep
      | field index =>
          have hindex : index < fields.length := by simpa [child?] using hstep
          exact Set.mem_image_of_mem _ hindex

/-- Finitely many paths lead to a node of a schema. -/
theorem finite_paths (schema : Schema) : { path | (schema.at? path).isSome }.Finite := by
  induction schema using induct_child with
  | part schema ih =>
      have hbelow : ∀ step ∈ { step | (schema.child? step).isSome },
          { path | ∃ rest, path = step :: rest ∧ (schema.at? path).isSome }.Finite := by
        intro step hstep
        obtain ⟨child, hchild⟩ := Option.isSome_iff_exists.mp hstep
        apply ((ih step child hchild).image (List.cons step)).subset
        rintro path ⟨rest, rfl, hpath⟩
        rw [at?_cons hchild] at hpath
        exact Set.mem_image_of_mem _ hpath
      apply (((finite_steps schema).biUnion hbelow).insert []).subset
      intro path hpath
      cases path with
      | nil => exact Set.mem_insert [] _
      | cons step rest =>
          apply Set.mem_insert_of_mem
          have hstep : (schema.child? step).isSome := Option.isSome_of_isSome_bind hpath
          exact Set.mem_biUnion hstep ⟨rest, rfl, hpath⟩

theorem finite_places (fullName : String) (schema : Schema) : (places fullName schema).Finite := by
  apply (finite_paths schema).subset
  intro path hpath
  exact Option.isSome_of_mem hpath

/-- References are left where one was replaced, at the places that the definition has them. -/
theorem places_close (fullName : String) (definition schema : Schema) :
    places fullName (close fullName definition schema) =
      Set.image2 (· ++ ·) (places fullName schema) (places fullName definition) := by
  ext path
  constructor
  · intro hpath
    rcases at?_of_close hpath with ⟨node, hnode, hne, hclosed⟩ | ⟨outer, inner, rfl, houter, hinner⟩
    · cases eq_ref_of_close hclosed.symm hne
      exact absurd rfl hne
    · exact ⟨outer, houter, inner, hinner, rfl⟩
  · rintro ⟨outer, houter, inner, hinner, rfl⟩
    have hput := (substitutes_close fullName definition schema).replaced houter
    change (close fullName definition schema).at? (outer ++ inner) = _
    rw [at?_append, hput, Option.bind_some]
    exact hinner

/-- No path goes on below a reference. -/
theorem eq_nil_of_mem_places {outer more : List Step} (houter : outer ∈ places fullName schema)
    (hmore : outer ++ more ∈ places fullName schema) : more = [] := by
  have hroot : schema.at? outer = some (ref fullName) := houter
  have hbelow : schema.at? (outer ++ more) = some (ref fullName) := hmore
  rw [at?_append, hroot, Option.bind_some] at hbelow
  cases more with
  | nil => rfl
  | cons step rest => cases step <;> cases hbelow

/-- A path to a reference that is left splits in one way into the path to the one that was
replaced and a path in the definition. -/
theorem injOn_append (fullName : String) (schema : Schema) (inner : Set (List Step)) :
    Set.InjOn (fun pair : List Step × List Step => pair.1 ++ pair.2)
      (places fullName schema ×ˢ inner) := by
  rintro ⟨first, firstRest⟩ ⟨hfirst, -⟩ ⟨second, secondRest⟩ ⟨hsecond, -⟩ happend
  -- One of the two paths goes on where the other has come to a reference.
  rcases List.append_eq_append_iff.mp happend with ⟨more, hmore, hrest⟩ | ⟨more, hmore, hrest⟩
  · dsimp only at hfirst hsecond hmore hrest
    rw [hmore] at hsecond
    obtain rfl := eq_nil_of_mem_places hfirst hsecond
    rw [hmore, hrest, List.append_nil, List.nil_append]
  · dsimp only at hfirst hsecond hmore hrest
    rw [hmore] at hfirst
    obtain rfl := eq_nil_of_mem_places hsecond hfirst
    rw [hmore, hrest, List.append_nil, List.nil_append]

/-- As many references are left as were replaced, times those in the definition. -/
theorem ncard_places_close (fullName : String) (definition schema : Schema) :
    (places fullName (close fullName definition schema)).ncard =
      (places fullName schema).ncard * (places fullName definition).ncard := by
  rw [places_close, ← Set.image_prod, (injOn_append fullName schema _).ncard_image, Set.ncard_prod]

end Places

/-- Closing a record's full name with the record is substitution: the closed schema is the one that
has the record in place of every reference to the name, with nothing of it changed, and every other
node at its place with what it held.  Every node keeps its key in a union.  The references to the
name that are left are as many as were replaced, times those in the record. -/
theorem close_substitutes (head : TypeHead) (isError : Bool) (fields : List Field)
    (schema : Schema) :
    (∀ result, Substitutes head.fullName (record head isError fields) schema result ↔
        result = close head.fullName (record head isError fields) schema) ∧
      (∀ path node, schema.at? path = some node → ∃ closed,
        (close head.fullName (record head isError fields) schema).at? path = some closed ∧
          unionKey? closed = unionKey? node) ∧
      (∀ other, (places head.fullName other).Finite) ∧
      (places head.fullName (close head.fullName (record head isError fields) schema)).ncard =
        (places head.fullName schema).ncard *
          (places head.fullName (record head isError fields)).ncard := by
  refine ⟨fun result => substitutes_iff, ?_, finite_places head.fullName,
    ncard_places_close head.fullName _ schema⟩
  intro path node hnode
  exact ⟨_, at?_close hnode, unionKey?_close rfl node⟩

/-- References at every depth are replaced, and the one in the definition is not. -/
example :
    close "Tree" (record { name := "Tree" } false [{ name := "left", schema := ref "Tree" }])
        (union [ref "Tree", arrayOf (ref "Tree"), ref "Leaf"]) =
      union [record { name := "Tree" } false [{ name := "left", schema := ref "Tree" }],
        arrayOf (record { name := "Tree" } false [{ name := "left", schema := ref "Tree" }]),
        ref "Leaf"] := rfl

end Schema

end EventSchema
