import EventSchema.Proofs.Runs

/-!
# Reordering declarations

The record of a declared type depends on the registry only through the names
that its properties look up.  So each record of an accepted document is also the
record in the registry at the end, and a run in another order finds the same
types as long as each type comes after the ones it refers to.  The main
statement is that these are exactly the orders that are accepted, and that they
register the same types.
-/

namespace EventSchema

/-! ## What a declaration looks up -/

/-- The name that a property type looks up, without an array marker. -/
def PropertyType.target? : PropertyType → Option String
  | .named name => some (stripArrayMarker name).1
  | _ => Option.none

namespace TypeDecl

/-- The names that the properties without overrides look up, in order. -/
def references (decl : TypeDecl) : List String :=
  decl.properties.filterMap fun property =>
    if (findOverride? decl.notes property.name).isSome then none
    else (TypeSpec.toType? property.type).target?

/-- No type refers to a later one, so that each comes after the ones that it refers to. -/
def InOrder (decls : List TypeDecl) : Prop :=
  decls.Pairwise fun earlier later => later.name ∉ earlier.references

instance (decls : List TypeDecl) : Decidable (InOrder decls) :=
  inferInstanceAs (Decidable (List.Pairwise _ _))

theorem mem_references_iff {decl : TypeDecl} {name : String} :
    name ∈ decl.references ↔ ∃ property ∈ decl.properties,
      findOverride? decl.notes property.name = none ∧
        (TypeSpec.toType? property.type).target? = some name := by
  simp only [references, List.mem_filterMap]
  constructor
  · rintro ⟨property, hproperty, htarget⟩
    split_ifs at htarget with hnotes
    exact ⟨property, hproperty, by simpa using hnotes, htarget⟩
  · rintro ⟨property, hproperty, hnotes, htarget⟩
    refine ⟨property, hproperty, ?_⟩
    rw [hnotes, if_neg (by simp), htarget]

end TypeDecl

section Lookups

variable {registry other : Registry} {property : String} {type : PropertyType}
  {notes : List Note} {settings : Settings} {space : Option String} {decl : TypeDecl}

/-- Registries that resolve the name of a type string alike give it the same shape. -/
theorem shapeOfType_congr
    (h : ∀ name, type.target? = some name → registry.resolve? name = other.resolve? name) :
    shapeOfType property type settings registry = shapeOfType property type settings other := by
  cases type with
  | named name =>
      have hresolve := h _ rfl
      have hschema : namedSchema? registry name = namedSchema? other name := by
        rw [namedSchema?, namedSchema?]
        dsimp only
        rw [hresolve]
      rw [shapeOfType, shapeOfType, hschema]
  | none | value | event | nested => rfl
  | eventArray types =>
      cases types with
      | nil => rfl
      | cons type rest => rfl

theorem synthesize_congr
    (h : ∀ name, findOverride? notes property = none → type.target? = some name →
      registry.resolve? name = other.resolve? name) :
    synthesize property type notes settings registry =
      synthesize property type notes settings other := by
  rw [synthesize, synthesize]
  cases hnotes : findOverride? notes property with
  | some text => rfl
  | none =>
      dsimp only
      rw [shapeOfType_congr fun name => h name hnotes]

theorem foldlM_add_congr {properties : List PropertyDecl}
    (h : ∀ property ∈ properties, ∀ name, findOverride? notes property.name = none →
      (TypeSpec.toType? property.type).target? = some name →
        registry.resolve? name = other.resolve? name) (draft : RecordDraft) :
    properties.foldlM (fun draft property => draft.add property.name
        (TypeSpec.toType? property.type) notes settings registry) draft =
      properties.foldlM (fun draft property => draft.add property.name
        (TypeSpec.toType? property.type) notes settings other) draft := by
  induction properties generalizing draft with
  | nil => rfl
  | cons property rest ih =>
      obtain ⟨hfirst, hothers⟩ := List.forall_mem_cons.mp h
      have hadd : draft.add property.name (TypeSpec.toType? property.type) notes settings registry =
          draft.add property.name (TypeSpec.toType? property.type) notes settings other := by
        rw [RecordDraft.add_eq, RecordDraft.add_eq, Collector.collect_eq, Collector.collect_eq,
          synthesize_congr hfirst]
      rw [List.foldlM_cons, List.foldlM_cons, hadd]
      congr 1
      funext next
      exact ih hothers next

/-- The record of a declaration depends on a registry only through the names that the declaration
looks up. -/
theorem recordOf_congr
    (h : ∀ name ∈ decl.references, registry.resolve? name = other.resolve? name) :
    registry.recordOf space settings decl = other.recordOf space settings decl := by
  rw [Registry.recordOf, Registry.recordOf, foldlM_add_congr]
  intro property hproperty name hnotes htarget
  exact h name (TypeDecl.mem_references_iff.mpr ⟨property, hproperty, hnotes, htarget⟩)

/-- A declaration with a record only looks up registered names. -/
theorem exists_resolve?_of_recordOf {schema : Schema}
    (h : registry.recordOf space settings decl = .ok schema) {name : String}
    (hname : name ∈ decl.references) : ∃ type, registry.resolve? name = some type := by
  obtain ⟨fields, hfields, -⟩ := recordOf_eq_ok_iff.mp h
  obtain ⟨property, hproperty, hnotes, htarget⟩ := TypeDecl.mem_references_iff.mp hname
  obtain ⟨field, -, hfield⟩ := exists_of_forall₂_left hfields hproperty
  obtain ⟨-, shape, -, hshape⟩ := synthesize_eq_ok_iff.mp hfield
  rcases hshape with ⟨text, found, htext, -⟩ | ⟨-, hshape⟩
  · rw [hnotes] at htext
    cases htext
  · cases htype : TypeSpec.toType? property.type with
    | named text =>
        rw [htype] at hshape htarget
        cases htarget
        rw [shapeOfType] at hshape
        split at hshape
        next schema hschema =>
          obtain ⟨type, hresolve, -⟩ := Option.bind_eq_some_iff.mp hschema
          exact ⟨type, hresolve⟩
        next => cases hshape
    | none | value | event | eventArray | nested =>
        rw [htype] at htarget
        cases htarget

end Lookups

/-! ## Runs and the registry at their end -/

section Runs

variable {space : Option String} {settings : Settings} {registry final : Registry}
  {decls : List TypeDecl} {types : List EventType}

theorem Declares.extends (h : Declares space settings registry decls types final) :
    registry.types <+: final.types := by
  rw [h.types_eq]
  exact List.prefix_append _ _

/-- The names of declared types are new. -/
theorem Declares.notMem_names (h : Declares space settings registry decls types final) :
    ∀ decl ∈ decls, TypeDecl.name decl ∉ registry.names := by
  induction h with
  | nil => exact List.forall_mem_nil _
  | cons _ hnew _ ih =>
      refine List.forall_mem_cons.mpr ⟨hnew, ?_⟩
      intro other hother hmem
      apply ih other hother
      rw [names_register]
      exact List.mem_append_left _ hmem

theorem Declares.nodup_names (h : Declares space settings registry decls types final) :
    (decls.map TypeDecl.name).Nodup := by
  induction h with
  | nil => exact List.nodup_nil
  | @cons registry decl rest schema types final _ hnew hrest ih =>
      rw [List.map_cons, List.nodup_cons]
      refine ⟨?_, ih⟩
      intro hmem
      obtain ⟨other, hother, hsame⟩ := List.mem_map.mp hmem
      apply hrest.notMem_names other hother
      rw [names_register, hsame]
      exact List.mem_append_right _ (List.mem_singleton_self decl.name)

/-- A declaration looks up names that are registered before it, so neither its own nor a later
one. -/
theorem Declares.inOrder (h : Declares space settings registry decls types final) :
    TypeDecl.InOrder decls ∧ ∀ decl ∈ decls, TypeDecl.name decl ∉ decl.references := by
  induction h with
  | nil => exact ⟨List.Pairwise.nil, List.forall_mem_nil _⟩
  | @cons registry decl rest schema types final hrecord hnew hrest ih =>
      have hearlier : ∀ name ∈ decl.references, name ∈ registry.names := by
        intro name hname
        obtain ⟨type, hresolve⟩ := exists_resolve?_of_recordOf hrecord hname
        exact Registry.mem_names_of_resolve? hresolve
      refine ⟨List.Pairwise.cons ?_ ih.1, List.forall_mem_cons.mpr ⟨?_, ih.2⟩⟩
      · intro other hother hmem
        apply hrest.notMem_names other hother
        rw [names_register]
        exact List.mem_append_left _ (hearlier _ hmem)
      · intro hmem
        exact hnew (hearlier _ hmem)

/-- The registry at the end of a run resolves each declared name to a type whose record is the one
that the declaration has in that registry. -/
theorem Declares.fixed (h : Declares space settings registry decls types final) :
    List.Forall₂ (fun decl type => ∃ schema, final.recordOf space settings decl = .ok schema ∧
      type = ⟨decl.name, .avro schema⟩ ∧ final.resolve? decl.name = some type) decls types := by
  induction h with
  | nil => exact .nil
  | @cons registry decl rest schema types final hrecord hnew hrest ih =>
      have hnext := hrest.extends
      have hfinal : registry.types <+: final.types := (List.prefix_append _ _).trans hnext
      have hsame : final.recordOf space settings decl = registry.recordOf space settings decl := by
        apply recordOf_congr
        intro name hname
        obtain ⟨type, hresolve⟩ := exists_resolve?_of_recordOf hrecord hname
        rw [hresolve]
        exact Registry.resolve?_of_extends hfinal hresolve
      refine .cons ⟨schema, hsame.trans hrecord, rfl, ?_⟩ ih
      exact Registry.resolve?_of_extends hnext (Registry.resolve?_register hnew)

/-- The types of a run are the ones that its names resolve to at the end. -/
theorem Declares.types_eq_filterMap (h : Declares space settings registry decls types final) :
    types = decls.filterMap fun decl => final.resolve? decl.name := by
  have hfixed := h.fixed
  clear h
  induction hfixed with
  | nil => rfl
  | cons hpair _ ih =>
      obtain ⟨schema, -, -, hresolve⟩ := hpair
      rw [List.filterMap_cons, hresolve, ← ih]

end Runs

/-! ## What remains to be declared -/

/-- Declaring `rest` in `registry` leads to the types of `final`: each declaration is new and has
there the record that its name resolves to, a registered name resolves as in `final`, and a name of
`final` is registered or still to be declared. -/
structure Remains (space : Option String) (settings : Settings) (final registry : Registry)
    (rest : List TypeDecl) : Prop where
  fixed : ∀ decl ∈ rest, ∃ schema, final.recordOf space settings decl = .ok schema ∧
    final.resolve? (TypeDecl.name decl) = some ⟨decl.name, .avro schema⟩
  fresh : ∀ decl ∈ rest, TypeDecl.name decl ∉ registry.names
  nodup : (rest.map TypeDecl.name).Nodup
  known : ∀ name ∈ registry.names, registry.resolve? name = final.resolve? name
  cover : ∀ name ∈ final.names, name ∈ registry.names ∨ name ∈ rest.map TypeDecl.name

section Remaining

variable {space : Option String} {settings : Settings} {registry final : Registry}
  {decl : TypeDecl} {rest order : List TypeDecl} {schema : Schema}

/-- A declaration that does not look up what is still to be declared has its record already. -/
theorem Remains.recordOf_eq (h : Remains space settings final registry (decl :: rest))
    (hrecord : final.recordOf space settings decl = .ok schema)
    (hlater : ∀ other ∈ decl :: rest, TypeDecl.name other ∉ decl.references) :
    registry.recordOf space settings decl = .ok schema := by
  rw [← hrecord]
  apply recordOf_congr
  intro name hname
  obtain ⟨type, htype⟩ := exists_resolve?_of_recordOf hrecord hname
  apply h.known
  rcases h.cover name (Registry.mem_names_of_resolve? htype) with hregistered | hmem
  · exact hregistered
  · obtain ⟨other, hother, rfl⟩ := List.mem_map.mp hmem
    exact absurd hname (hlater other hother)

theorem Remains.register (h : Remains space settings final registry (decl :: rest))
    (hresolve : final.resolve? decl.name = some ⟨decl.name, .avro schema⟩) :
    Remains space settings final ⟨registry.types ++ [⟨decl.name, .avro schema⟩]⟩ rest := by
  obtain ⟨hnew, hfresh⟩ := List.forall_mem_cons.mp h.fresh
  obtain ⟨hunique, hnodup⟩ := List.nodup_cons.mp h.nodup
  have hnames : (⟨registry.types ++ [⟨decl.name, .avro schema⟩]⟩ : Registry).names =
      registry.names ++ [decl.name] := names_register _ _ _
  constructor
  case fixed => exact (List.forall_mem_cons.mp h.fixed).2
  case nodup => exact hnodup
  case fresh =>
    intro other hother hmem
    rw [hnames, List.mem_append, List.mem_singleton] at hmem
    rcases hmem with hearlier | hsame
    · exact hfresh other hother hearlier
    · apply hunique
      rw [← hsame]
      exact List.mem_map_of_mem hother
  case known =>
    intro name hmem
    rw [hnames, List.mem_append, List.mem_singleton] at hmem
    rcases hmem with hearlier | rfl
    · obtain ⟨type, htype⟩ := Registry.exists_resolve?_of_mem hearlier
      rw [← h.known name hearlier, htype]
      exact Registry.resolve?_of_extends (List.prefix_append _ _) htype
    · rw [hresolve]
      exact Registry.resolve?_register hnew
  case cover =>
    intro name hmem
    rw [hnames, List.mem_append, List.mem_singleton, or_assoc, ← List.mem_cons]
    exact h.cover name hmem

/-- What remains is declared in any order that puts each type after the ones it refers to, and its
names resolve as in `final`. -/
theorem Remains.exists_declares (h : Remains space settings final registry order)
    (horder : TypeDecl.InOrder order)
    (hself : ∀ decl ∈ order, TypeDecl.name decl ∉ decl.references) :
    ∃ types next, Declares space settings registry order types next ∧
      ∀ decl ∈ order, next.resolve? (TypeDecl.name decl) = final.resolve? decl.name := by
  induction order generalizing registry with
  | nil => exact ⟨[], registry, .nil, List.forall_mem_nil _⟩
  | cons decl rest ih =>
      obtain ⟨hlater, horderRest⟩ := List.pairwise_cons.mp horder
      obtain ⟨hselfFirst, hselfRest⟩ := List.forall_mem_cons.mp hself
      obtain ⟨schema, hrecord, hresolve⟩ := h.fixed decl List.mem_cons_self
      have hnew : decl.name ∉ registry.names := h.fresh decl List.mem_cons_self
      have hdeclared : registry.recordOf space settings decl = .ok schema :=
        h.recordOf_eq hrecord (List.forall_mem_cons.mpr ⟨hselfFirst, hlater⟩)
      obtain ⟨types, next, hdeclares, hsame⟩ := ih (h.register hresolve) horderRest hselfRest
      refine ⟨_, next, .cons hdeclared hnew hdeclares, List.forall_mem_cons.mpr ⟨?_, hsame⟩⟩
      rw [hresolve]
      exact Registry.resolve?_of_extends hdeclares.extends (Registry.resolve?_register hnew)

/-- After a run, its declarations remain in any order where it started. -/
theorem Declares.remains {decls : List TypeDecl} {types : List EventType}
    (h : Declares space settings registry decls types final) (hperm : order.Perm decls) :
    Remains space settings final registry order := by
  constructor
  case fixed =>
    intro decl hdecl
    obtain ⟨type, -, schema, hrecord, rfl, hresolve⟩ :=
      exists_of_forall₂_left h.fixed (hperm.subset hdecl)
    exact ⟨schema, hrecord, hresolve⟩
  case fresh =>
    intro decl hdecl
    exact h.notMem_names decl (hperm.subset hdecl)
  case nodup => exact (hperm.map TypeDecl.name).nodup_iff.mpr h.nodup_names
  case known =>
    intro name hmem
    obtain ⟨type, hresolve⟩ := Registry.exists_resolve?_of_mem hmem
    rw [hresolve, Registry.resolve?_of_extends h.extends hresolve]
  case cover =>
    intro name hmem
    rw [h.names_eq, List.mem_append] at hmem
    exact hmem.imp_right (hperm.map TypeDecl.name).mem_iff.mpr

end Remaining

/-! ## Documents -/

section Documents

variable {registry : Registry} {settings : Settings} {document : Declarations}
  {order : List TypeDecl} {types : List EventType}

/-- A reordering of an accepted document is accepted exactly if each type comes after those that it
refers to, and it then registers the same types: every declared name resolves to the same schema. -/
theorem declareAll_reorder_iff (h : (registry.declareAll settings document).1 = .ok types)
    (hperm : order.Perm document.types) :
    TypeDecl.InOrder order ↔ ∃ types',
      (registry.declareAll settings { document with types := order }).1 = .ok types' ∧
        types'.Perm types ∧ ∀ decl ∈ document.types, ∃ schema,
          (registry.declareAll settings document).2.resolve? decl.name =
              some ⟨decl.name, .avro schema⟩ ∧
            (registry.declareAll settings { document with types := order }).2.resolve? decl.name =
              some ⟨decl.name, .avro schema⟩ := by
  have hdeclares := declares_of_ok h
  constructor
  · intro horder
    have hself : ∀ decl ∈ order, TypeDecl.name decl ∉ decl.references := by
      intro decl hdecl
      exact hdeclares.inOrder.2 decl (hperm.subset hdecl)
    obtain ⟨types', next, hreordered, hsame⟩ :=
      (hdeclares.remains hperm).exists_declares horder hself
    have hrun := declareTypes_of_declares hreordered
    refine ⟨types', congrArg Prod.fst hrun, ?_, ?_⟩
    · rw [hreordered.types_eq_filterMap, hdeclares.types_eq_filterMap,
        List.filterMap_congr hsame]
      exact hperm.filterMap _
    · intro decl hdecl
      obtain ⟨type, -, schema, -, rfl, hresolve⟩ := exists_of_forall₂_left hdeclares.fixed hdecl
      refine ⟨schema, hresolve, ?_⟩
      rw [Registry.declareAll, congrArg Prod.snd hrun, hsame decl (hperm.mem_iff.mpr hdecl)]
      exact hresolve
  · rintro ⟨types', hreordered, -⟩
    exact (declares_of_ok hreordered).inOrder.1

/-- A type whose overridden property names a later type, that type, and one that embeds both. -/
def embeddingDocument : Declarations :=
  { types := [
      { name := "A"
        properties := [{ name := "x", type := some (.string "B") }]
        notes := [.schemaOverride "x" "\"long\""] },
      { name := "B", properties := [{ name := "y", type := some (.string "Long") }] },
      { name := "C"
        properties := [{ name := "a", type := some (.string "A[]") },
          { name := "b", type := some (.string "B") }] }] }

/-- The types of `embeddingDocument` with the first two exchanged. -/
def exchangedTypes : List TypeDecl :=
  match embeddingDocument.types with
  | first :: second :: rest => second :: first :: rest
  | types => types

/-- The record of the first type of `embeddingDocument`. -/
def overridingRecord : Schema :=
  .record { name := "A" } false [{ name := "x", schema := .ofKind .long }]

/-- The record of the second type of `embeddingDocument`. -/
def longRecord : Schema :=
  .record { name := "B" } false
    [{ name := "y", schema := .nullable (.ofKind .long), defaultValue := some .null }]

/-- The record of the third type of `embeddingDocument`. -/
def embeddingRecord : Schema :=
  .record { name := "C" } false
    [{ name := "a", schema := .arrayOf overridingRecord }, { name := "b", schema := longRecord }]

theorem declareAll_reorder_embeddingDocument :
    let exchanged := { embeddingDocument with types := exchangedTypes }
    TypeDecl.InOrder exchangedTypes ∧
      (Registry.declareAll {} {} embeddingDocument).1 = .ok [⟨"A", .avro overridingRecord⟩,
        ⟨"B", .avro longRecord⟩, ⟨"C", .avro embeddingRecord⟩] ∧
      (Registry.declareAll {} {} exchanged).1 = .ok [⟨"B", .avro longRecord⟩,
        ⟨"A", .avro overridingRecord⟩, ⟨"C", .avro embeddingRecord⟩] ∧
      ∀ decl ∈ embeddingDocument.types, ∃ schema,
        (Registry.declareAll {} {} embeddingDocument).2.resolve? decl.name =
            some ⟨decl.name, .avro schema⟩ ∧
          (Registry.declareAll {} {} exchanged).2.resolve? decl.name =
            some ⟨decl.name, .avro schema⟩ := by
  intro exchanged
  have h : (Registry.declareAll {} {} embeddingDocument).1 = .ok [⟨"A", .avro overridingRecord⟩,
      ⟨"B", .avro longRecord⟩, ⟨"C", .avro embeddingRecord⟩] := by decide +kernel
  have hexchanged : (Registry.declareAll {} {} exchanged).1 = .ok [⟨"B", .avro longRecord⟩,
      ⟨"A", .avro overridingRecord⟩, ⟨"C", .avro embeddingRecord⟩] := by decide +kernel
  have horder : TypeDecl.InOrder exchangedTypes := by decide
  have hperm : exchangedTypes.Perm embeddingDocument.types := List.Perm.swap _ _ _
  obtain ⟨types', -, -, hsame⟩ := (declareAll_reorder_iff h hperm).mp horder
  exact ⟨horder, h, hexchanged, hsame⟩

end Documents

end EventSchema
