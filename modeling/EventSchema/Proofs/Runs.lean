import EventSchema.Proofs.Referring

/-!
# Runs of calls on a registry

A registry changes by calls that register a type, declare a type or declare a
document.  Whatever a call does, it only appends types, so that a name keeps
what it resolves to.  The main statement says what holds at every point of every
run from the empty registry, and what a call does there: it appends the types
that it registers, which for a document are the ones before the first failure.
-/

namespace EventSchema

/-! ## Runs that stop -/

/-- `Stops space settings registry decls done decl cause types final`: of the types to declare,
those of `done` are declared, which gives `types` and leaves `final`, and the next one, `decl`,
fails there. -/
structure Stops (space : Option String) (settings : Settings) (registry : Registry)
    (decls done : List TypeDecl) (decl : TypeDecl) (cause : SynthesisError)
    (types : List EventType) (final : Registry) : Prop where
  split : done ++ [decl] <+: decls
  declares : Declares space settings registry done types final
  fails : final.declareType space settings decl = .error cause

section Stops

variable {space : Option String} {settings : Settings} {registry final : Registry}
  {decls : List TypeDecl} {types : List EventType} {cause : SynthesisError}

/-- A registry after a run is the one before it with the declared types appended. -/
theorem Declares.final_eq (h : Declares space settings registry decls types final) :
    final = ⟨registry.types ++ types⟩ := by
  rw [← h.types_eq]

theorem Declares.names_eq (h : Declares space settings registry decls types final) :
    final.names = registry.names ++ decls.map TypeDecl.name := by
  induction h with
  | nil => rw [List.map_nil, List.append_nil]
  | cons _ _ _ ih =>
      rw [ih, names_register, List.append_assoc, List.singleton_append, List.map_cons]

/-- A run with a failure stops at it. -/
theorem stops_of_error (h : (registry.declareTypes space settings decls).1 = .error cause) :
    ∃ done decl types, Stops space settings registry decls done decl cause types
      (registry.declareTypes space settings decls).2 := by
  induction decls generalizing registry with
  | nil => cases h
  | cons decl rest ih =>
      rw [Registry.declareTypes_cons] at h ⊢
      split at h
      next failure hdeclare =>
        cases h
        refine ⟨[], decl, [], ⟨rest, rfl⟩, .nil, hdeclare⟩
      next type next hdeclare =>
        obtain ⟨schema, hrecord, hnew, rfl, rfl⟩ := declareType_eq_ok_iff.mp hdeclare
        dsimp only at h
        cases hrest : (Registry.declareTypes ⟨registry.types ++ [⟨decl.name, .avro schema⟩]⟩ space
            settings rest).1 with
        | ok others =>
            rw [hrest] at h
            cases h
        | error failure =>
            rw [hrest] at h
            cases h
            obtain ⟨done, last, types, ⟨tail, hsplit⟩, hdeclares, hfails⟩ := ih hrest
            have hextends : decl :: done ++ [last] <+: decl :: rest := by
              refine ⟨tail, ?_⟩
              rw [List.cons_append, List.cons_append, hsplit]
            exact ⟨decl :: done, last, _, hextends, .cons hrecord hnew hdeclares, hfails⟩

/-- Runs over the same types that declare equally many stop at the same one. -/
theorem Stops.eq_of_length {other otherFinal : Registry} {settings' : Settings}
    {done done' : List TypeDecl} {decl decl' : TypeDecl} {cause' : SynthesisError}
    {types' : List EventType}
    (h : Stops space settings registry decls done decl cause types final)
    (h' : Stops space settings' other decls done' decl' cause' types' otherFinal)
    (hlength : done.length = done'.length) : done = done' ∧ decl = decl' := by
  have hlengths : (done ++ [decl]).length = (done' ++ [decl']).length := by
    rw [List.length_append, List.length_append, hlength]
    rfl
  have hsame : done ++ [decl] = done' ++ [decl'] := by
    rw [List.prefix_iff_eq_take.mp h.split, List.prefix_iff_eq_take.mp h'.split, hlengths]
  exact List.append_singleton_inj.mp hsame

end Stops

namespace Registry

section Lookup

variable {registry next : Registry} {name : String} {type : EventType}

theorem name_of_resolve? (h : registry.resolve? name = some type) : type.name = name := by
  rw [resolve?] at h
  simpa using List.find?_some h

theorem mem_names_of_resolve? (h : registry.resolve? name = some type) :
    name ∈ registry.names := by
  rw [← name_of_resolve? h]
  exact List.mem_map_of_mem (List.mem_of_find?_eq_some h)

theorem exists_resolve?_of_mem (hmem : name ∈ registry.names) :
    ∃ type, registry.resolve? name = some type := by
  obtain ⟨type, htype, hname⟩ := List.mem_map.mp hmem
  rw [← Option.isSome_iff_exists, resolve?, List.find?_isSome]
  exact ⟨type, htype, decide_eq_true hname⟩

/-- A name resolves to the first type that is registered under it. -/
theorem resolve?_register {representation : Representation} (hnew : name ∉ registry.names) :
    (⟨registry.types ++ [⟨name, representation⟩]⟩ : Registry).resolve? name =
      some ⟨name, representation⟩ := by
  have hnone : registry.resolve? name = none := by
    by_contra hsome
    obtain ⟨type, hresolve⟩ := Option.ne_none_iff_exists'.mp hsome
    exact hnew (mem_names_of_resolve? hresolve)
  rw [resolve?] at hnone ⊢
  rw [List.find?_append, hnone]
  simp

/-- Appending types does not change what a name resolves to. -/
theorem resolve?_of_extends (hextends : registry.types <+: next.types)
    (h : registry.resolve? name = some type) : next.resolve? name = some type :=
  hextends.find?_eq_some h

end Lookup

/-! ## Calls -/

/-- A call on a registry. -/
inductive Call where
  | register (type : EventType)
  | declareType (space : Option String) (settings : Settings) (decl : TypeDecl)
  | declareAll (settings : Settings) (document : Declarations)

/-- What a call returns, and the registry after it. -/
def call (registry : Registry) : Call → Except SynthesisError (List EventType) × Registry
  | .register type =>
    let (outcome, next) := registry.tryRegister type
    (outcome.map fun _ => [type], next)
  | .declareType space settings decl =>
    let (outcome, next) := registry.tryDeclare space settings decl
    (outcome.map fun type => [type], next)
  | .declareAll settings document => registry.declareAll settings document

/-- The registry after calls one after the other, whether they fail or not. -/
def run (registry : Registry) (calls : List Call) : Registry :=
  calls.foldl (fun registry call => (registry.call call).2) registry

/-- `Effect registry call outcome next`: what a call may return and leave.  A single type is
appended or nothing is; a document appends its types before the first one that fails. -/
inductive Effect (registry : Registry) :
    Call → Except SynthesisError (List EventType) → Registry → Prop
  | registered {type} (hnew : type.name ∉ registry.names) :
      Effect registry (.register type) (.ok [type]) ⟨registry.types ++ [type]⟩
  | refused {type} (htaken : type.name ∈ registry.names) :
      Effect registry (.register type) (.error (.duplicateType type.name)) registry
  | declared {space settings decl schema}
      (hrecord : registry.recordOf space settings decl = .ok schema)
      (hnew : decl.name ∉ registry.names) :
      Effect registry (.declareType space settings decl) (.ok [⟨decl.name, .avro schema⟩])
        ⟨registry.types ++ [⟨decl.name, .avro schema⟩]⟩
  | unrecorded {space settings decl cause}
      (hrecord : registry.recordOf space settings decl = .error cause) :
      Effect registry (.declareType space settings decl) (.error cause) registry
  | taken {space settings decl schema}
      (hrecord : registry.recordOf space settings decl = .ok schema)
      (htaken : decl.name ∈ registry.names) :
      Effect registry (.declareType space settings decl) (.error (.duplicateType decl.name))
        registry
  | documented {settings document types}
      (hdeclares : Declares document.space (document.settings.getD settings) registry
        document.types types ⟨registry.types ++ types⟩) :
      Effect registry (.declareAll settings document) (.ok types) ⟨registry.types ++ types⟩
  | stopped {settings document done decl cause types}
      (hstops : Stops document.space (document.settings.getD settings) registry document.types
        done decl cause types ⟨registry.types ++ types⟩) :
      Effect registry (.declareAll settings document) (.error cause) ⟨registry.types ++ types⟩

section Calls

variable {registry next : Registry} {outcome : Except SynthesisError (List EventType)}

theorem effect_register (registry : Registry) (type : EventType) :
    Effect registry (.register type) (registry.call (.register type)).1
      (registry.call (.register type)).2 := by
  rw [call, tryRegister]
  by_cases hmem : type.name ∈ registry.names
  · rw [if_pos hmem]
    exact .refused hmem
  · rw [if_neg hmem]
    exact .registered hmem

theorem effect_declareType (registry : Registry) (space : Option String) (settings : Settings)
    (decl : TypeDecl) :
    Effect registry (.declareType space settings decl)
      (registry.call (.declareType space settings decl)).1
      (registry.call (.declareType space settings decl)).2 := by
  rw [call, tryDeclare]
  cases hrecord : registry.recordOf space settings decl with
  | error cause => exact .unrecorded hrecord
  | ok schema =>
      dsimp only
      rw [tryRegister]
      by_cases hmem : decl.name ∈ registry.names
      · rw [if_pos hmem]
        exact .taken hrecord hmem
      · rw [if_neg hmem]
        exact .declared hrecord hmem

theorem effect_declareAll (registry : Registry) (settings : Settings) (document : Declarations) :
    Effect registry (.declareAll settings document)
      (registry.declareAll settings document).1 (registry.declareAll settings document).2 := by
  rw [declareAll]
  cases houtcome : (registry.declareTypes document.space (document.settings.getD settings)
      document.types).1 with
  | ok types =>
      have hdeclares := declares_of_ok houtcome
      have hfinal := hdeclares.final_eq
      rw [hfinal] at hdeclares ⊢
      exact .documented hdeclares
  | error cause =>
      obtain ⟨done, decl, types, hstops⟩ := stops_of_error houtcome
      have hfinal := hstops.declares.final_eq
      rw [hfinal] at hstops ⊢
      exact .stopped hstops

/-- Every call has one of the effects. -/
theorem effect_call (registry : Registry) (call : Call) :
    Effect registry call (registry.call call).1 (registry.call call).2 := by
  cases call with
  | register type => exact effect_register registry type
  | declareType space settings decl => exact effect_declareType registry space settings decl
  | declareAll settings document => exact effect_declareAll registry settings document

theorem Effect.extends {call : Call} (h : Effect registry call outcome next) :
    registry.types <+: next.types := by
  cases h with
  | registered | declared | documented | stopped => exact List.prefix_append _ _
  | refused | unrecorded | taken => exact List.prefix_refl _

theorem Effect.nodup {call : Call} (h : Effect registry call outcome next)
    (hregistry : registry.names.Nodup) : next.names.Nodup := by
  cases h with
  | registered hnew => exact nodup_register hregistry hnew
  | declared _ hnew => exact nodup_register hregistry hnew
  | documented hdeclares => exact hdeclares.nodup hregistry
  | stopped hstops => exact hstops.declares.nodup hregistry
  | refused | unrecorded | taken => exact hregistry

/-! ## Runs -/

theorem run_append (registry : Registry) (before after : List Call) :
    registry.run (before ++ after) = (registry.run before).run after :=
  List.foldl_append

theorem run_cons (registry : Registry) (call : Call) (rest : List Call) :
    registry.run (call :: rest) = (registry.call call).2.run rest :=
  rfl

theorem extends_run (registry : Registry) (calls : List Call) :
    registry.types <+: (registry.run calls).types := by
  induction calls generalizing registry with
  | nil => exact List.prefix_refl _
  | cons call rest ih => exact (effect_call registry call).extends.trans (ih _)

theorem nodup_run (hregistry : registry.names.Nodup) (calls : List Call) :
    (registry.run calls).names.Nodup := by
  induction calls generalizing registry with
  | nil => exact hregistry
  | cons call rest ih => exact ih ((effect_call registry call).nodup hregistry)

/-- At every point of every run from the empty registry, the registered names are distinct and each
resolves to the type that carries it.  The next call has its effect there, and whatever follows, the
types stay where they are and a name keeps what it resolves to. -/
theorem effect_run (before after : List Call) (call : Call) :
    (run {} before).names.Nodup ∧
      (∀ name ∈ (run {} before).names, ∃ type ∈ (run {} before).types,
        (run {} before).resolve? name = some type ∧ type.name = name) ∧
      (∃ outcome next, (run {} before).call call = (outcome, next) ∧
        Effect (run {} before) call outcome next ∧
          next.types <+: (run {} (before ++ call :: after)).types) ∧
      ∀ name type, (run {} before).resolve? name = some type →
        (run {} (before ++ call :: after)).resolve? name = some type := by
  have hempty : ({} : Registry).names.Nodup := List.nodup_nil
  have hnodup : (run {} before).names.Nodup := nodup_run hempty before
  have hkept : (run {} before).types <+: (run {} (before ++ call :: after)).types := by
    rw [run_append]
    exact extends_run _ _
  refine ⟨hnodup, ?_, ⟨_, _, rfl, effect_call _ call, ?_⟩, ?_⟩
  · intro name hmem
    obtain ⟨type, hresolve⟩ := exists_resolve?_of_mem hmem
    exact ⟨type, List.mem_of_find?_eq_some hresolve, hresolve, name_of_resolve? hresolve⟩
  · rw [run_append, run_cons]
    exact extends_run _ after
  · intro name type hresolve
    exact resolve?_of_extends hkept hresolve

end Calls

end Registry

end EventSchema
