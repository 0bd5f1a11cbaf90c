import EventSchema.Proofs.References
import Mathlib.Data.Option.Basic

/-!
# Members of a union

A union tells its members apart by keys: the word for the kind of an unnamed
type, the full name of a named one.  Members of one key are duplicates, or a
named type is called as the kind of an unnamed one.  The main statement says
exactly when a union is refused for two of its members.
-/

namespace EventSchema

namespace Schema

/-! ## Duplicates -/

/-- The kinds of types that have no name and may be members of a union. -/
inductive UnnamedKind where
  | primitive (kind : PrimitiveKind)
  | array
  | map
  deriving DecidableEq

/-- The word for a kind. -/
def UnnamedKind.word : UnnamedKind → String
  | primitive kind => kind.name
  | array => "array"
  | map => "map"

/-- The kind of an unnamed type, whatever its attributes are. -/
def unnamedKind? : Schema → Option UnnamedKind
  | primitive kind _ => some (.primitive kind)
  | array .. => some .array
  | map .. => some .map
  | _ => none

/-- Two members are duplicates: unnamed types of one kind, or named types and references of one full
name. -/
def Duplicates (first second : Schema) : Prop :=
  (∃ kind, first.unnamedKind? = some kind ∧ second.unnamedKind? = some kind) ∨
    ∃ fullName, first.fullName? = some fullName ∧ second.fullName? = some fullName

/-- A named type has the word for the kind of an unnamed type as its full name. -/
def CalledAs (named unnamed : Schema) : Prop :=
  ∃ kind, unnamed.unnamedKind? = some kind ∧ named.fullName? = some kind.word

/-- Two members are confused: one of them is called as the kind of the other. -/
def Confused (first second : Schema) : Prop :=
  CalledAs first second ∨ CalledAs second first

/-- Two members of a list, one before the other, are related. -/
def Two (related : Schema → Schema → Prop) (schemas : List Schema) : Prop :=
  ∃ (i j : Nat) (first second : Schema), i < j ∧ schemas[i]? = some first ∧
    schemas[j]? = some second ∧ related first second

/-- Reads values one after the other, each in the scope that the ones before it leave. -/
def readEach (scope : Scope) (space : Option String) :
    List Json → Except SchemaReadError (List Schema × Scope)
  | [] => .ok ([], scope)
  | item :: rest => do
    let (schema, scope) ← read scope space item
    let (schemas, scope) ← readEach scope space rest
    return (schema :: schemas, scope)

/-- The first of the keys that was seen before it. -/
def firstRepeated? (seen : List String) : List String → Option String
  | [] => none
  | key :: rest => if key ∈ seen then some key else firstRepeated? (seen ++ [key]) rest

theorem firstRepeated?_eq_none_iff {seen keys : List String} :
    firstRepeated? seen keys = none ↔ keys.Nodup ∧ ∀ key ∈ keys, key ∉ seen := by
  induction keys generalizing seen with
  | nil => simp [firstRepeated?]
  | cons key rest ih =>
      rw [firstRepeated?]
      split_ifs with hseen
      · simp [hseen]
      · rw [ih, List.nodup_cons, List.forall_mem_cons]
        simp only [List.mem_append, List.mem_singleton, not_or]
        constructor
        · rintro ⟨hnodup, hnew⟩
          exact ⟨⟨fun hmem => (hnew key hmem).2 rfl, hnodup⟩, hseen,
            fun other hother => (hnew other hother).1⟩
        · rintro ⟨⟨hkey, hnodup⟩, -, hnew⟩
          refine ⟨hnodup, fun other hother => ⟨hnew other hother, ?_⟩⟩
          rintro rfl
          exact hkey hother

/-- Members that are no unions, read one after the other, make a union unless the key of one of
them was seen before. -/
theorem readMembers_eq {scope scope' : Scope} {space : Option String} {seen keys : List String}
    {items : List Json} {schemas : List Schema}
    (h : readEach scope space items = .ok (schemas, scope'))
    (hkeys : schemas.map unionKey? = keys.map some) :
    readMembers scope space seen items =
      match firstRepeated? seen keys with
      | some key => .error (.duplicateUnionMember key)
      | none => .ok (schemas, scope') := by
  induction items generalizing scope seen keys schemas with
  | nil =>
      cases h
      rw [List.map_nil, eq_comm, List.map_eq_nil_iff] at hkeys
      rw [hkeys]
      rfl
  | cons item rest ih =>
      rw [readEach] at h
      obtain ⟨⟨schema, between⟩, hitem, h⟩ := bind_eq_ok_iff.mp h
      obtain ⟨⟨others, after⟩, hrest, h⟩ := bind_eq_ok_iff.mp h
      cases h
      cases keys with
      | nil => cases hkeys
      | cons key keys =>
          obtain ⟨hkey, hkeys⟩ := List.cons.inj hkeys
          rw [readMembers, hitem, ok_bind]
          dsimp only
          rw [hkey, firstRepeated?]
          dsimp only
          split_ifs with hseen
          · rfl
          · rw [ih hrest hkeys]
            cases firstRepeated? (seen ++ [key]) keys <;> rfl

/-- A member that is no union is unnamed, and its key is the word for its kind, or it has a full
name, and its key is that. -/
theorem unionKey?_cases {schema : Schema} (h : ∀ members, schema ≠ union members) :
    (∃ kind, schema.unnamedKind? = some kind ∧ schema.fullName? = none ∧
        unionKey? schema = some kind.word) ∨
      ∃ fullName, schema.unnamedKind? = none ∧ schema.fullName? = some fullName ∧
        unionKey? schema = some fullName := by
  cases schema with
  | primitive | array | map => exact .inl ⟨_, rfl, rfl, rfl⟩
  | union members => exact absurd rfl (h members)
  | record | enum | fixed | ref => exact .inr ⟨_, rfl, rfl, rfl⟩

theorem word_injective {first second : UnnamedKind} (h : first.word = second.word) :
    first = second := by
  cases first with
  | primitive kind =>
      cases second with
      | primitive other =>
          have hsame : PrimitiveKind.ofName? kind.name = PrimitiveKind.ofName? other.name :=
            congrArg PrimitiveKind.ofName? h
          rw [PrimitiveKind.ofName?_name, PrimitiveKind.ofName?_name] at hsame
          rw [Option.some.inj hsame]
      | array | map => cases kind <;> exact absurd h (by decide)
  | array | map =>
      cases second with
      | primitive other => cases other <;> exact absurd h (by decide)
      | array | map => first | rfl | exact absurd h (by decide)

/-- Two members have one key exactly if they are duplicates or confused. -/
theorem unionKey?_eq_iff {first second : Schema} (hfirst : ∀ members, first ≠ union members)
    (hsecond : ∀ members, second ≠ union members) :
    unionKey? first = unionKey? second ↔ Duplicates first second ∨ Confused first second := by
  rw [Duplicates, Confused, CalledAs, CalledAs]
  rcases unionKey?_cases hfirst with ⟨kind, hkind, hname, hkey⟩ | ⟨fullName, hkind, hname, hkey⟩
  · rcases unionKey?_cases hsecond with
      ⟨other, hother, hotherName, hotherKey⟩ | ⟨other, hother, hotherName, hotherKey⟩
    · have hword : kind.word = other.word ↔ kind = other := ⟨word_injective, congrArg _⟩
      simp [hkind, hname, hkey, hother, hotherName, hotherKey, hword, eq_comm]
    · simp [hkind, hname, hkey, hother, hotherName, hotherKey, eq_comm]
  · rcases unionKey?_cases hsecond with
      ⟨other, hother, hotherName, hotherKey⟩ | ⟨other, hother, hotherName, hotherKey⟩
    · simp [hkind, hname, hkey, hother, hotherName, hotherKey]
    · simp [hkind, hname, hkey, hother, hotherName, hotherKey, eq_comm]

theorem two_or_iff {related other : Schema → Schema → Prop} {schemas : List Schema} :
    Two (fun first second => related first second ∨ other first second) schemas ↔
      Two related schemas ∨ Two other schemas := by
  constructor
  · rintro ⟨i, j, first, second, hlt, hfirst, hsecond, hrelated | hother⟩
    · exact .inl ⟨i, j, first, second, hlt, hfirst, hsecond, hrelated⟩
    · exact .inr ⟨i, j, first, second, hlt, hfirst, hsecond, hother⟩
  · rintro (⟨i, j, first, second, hlt, hfirst, hsecond, hrelated⟩ |
      ⟨i, j, first, second, hlt, hfirst, hsecond, hother⟩)
    · exact ⟨i, j, first, second, hlt, hfirst, hsecond, .inl hrelated⟩
    · exact ⟨i, j, first, second, hlt, hfirst, hsecond, .inr hother⟩

/-- No two members are related exactly if they are not related pairwise. -/
theorem not_two_iff {related : Schema → Schema → Prop} {schemas : List Schema} :
    ¬ Two related schemas ↔ schemas.Pairwise fun first second => ¬ related first second := by
  rw [List.pairwise_iff_getElem]
  constructor
  · intro h i j hi hj hlt hrelated
    exact h ⟨i, j, _, _, hlt, List.getElem?_eq_getElem hi, List.getElem?_eq_getElem hj, hrelated⟩
  · rintro h ⟨i, j, first, second, hlt, hfirst, hsecond, hrelated⟩
    obtain ⟨hi, rfl⟩ := List.getElem?_eq_some_iff.mp hfirst
    obtain ⟨hj, rfl⟩ := List.getElem?_eq_some_iff.mp hsecond
    exact h i j hi hj hlt hrelated

theorem exists_keys {schemas : List Schema}
    (hunion : ∀ schema ∈ schemas, ∀ members, schema ≠ union members) :
    ∃ keys : List String, schemas.map unionKey? = keys.map some := by
  induction schemas with
  | nil => exact ⟨[], rfl⟩
  | cons schema rest ih =>
      obtain ⟨hschema, hrest⟩ := List.forall_mem_cons.mp hunion
      obtain ⟨keys, hkeys⟩ := ih hrest
      rcases unionKey?_cases hschema with ⟨kind, -, -, hkey⟩ | ⟨fullName, -, -, hkey⟩
      · exact ⟨kind.word :: keys, by rw [List.map_cons, hkey, hkeys, List.map_cons]⟩
      · exact ⟨fullName :: keys, by rw [List.map_cons, hkey, hkeys, List.map_cons]⟩

/-- The keys of members differ exactly if no two members are duplicates or confused. -/
theorem nodup_keys_iff {schemas : List Schema} {keys : List String}
    (hunion : ∀ schema ∈ schemas, ∀ members, schema ≠ union members)
    (hkeys : schemas.map unionKey? = keys.map some) :
    keys.Nodup ↔ ¬ Two (fun first second => Duplicates first second ∨ Confused first second)
      schemas := by
  rw [← List.nodup_map_iff (Option.some_injective String), ← hkeys, not_two_iff, List.Nodup,
    List.pairwise_map]
  apply List.Pairwise.iff_of_mem
  intro first second hfirst hsecond
  exact not_congr (unionKey?_eq_iff (hunion first hfirst) (hunion second hsecond))

/-! ## Names of named members -/

end Schema

theorem Denotes.ofName?_eq_none {claimed : List String} {space : Option String}
    {name fullName : String} (h : Denotes claimed space name fullName) :
    PrimitiveKind.ofName? fullName = none := by
  obtain ⟨hkind, -, rfl | ⟨rfl, -⟩⟩ := denotes_iff.mp h
  · rcases Name.full_cases name space with hplain | ⟨own, -, -, -, hjoin⟩
    · rw [hplain, hkind]
    · rw [hjoin]
      exact PrimitiveKind.ofName?_of_dotted (Name.isDotted_join own name)
  · exact hkind

namespace Schema

theorem ofName?_of_schemaOfName {scope : Scope} {space : Option String} {name fullName : String}
    (hscope : scope.Settled) (h : scope.schemaOfName space name = .ok (ref fullName)) :
    PrimitiveKind.ofName? fullName = none := by
  rcases Scope.schemaOfName_eq_ok h with ⟨kind, -, heq⟩ | ⟨target, hdenotes, heq⟩
  · cases heq
  · rw [Scope.stored] at heq
    cases hfinished : scope.finished.get? target with
    | none =>
        rw [hfinished] at heq
        cases heq
        exact hdenotes.ofName?_eq_none
    | some definition =>
        rw [hfinished] at heq
        obtain ⟨-, head, hdefines⟩ := hscope.finished hfinished
        have hhead := hdefines.head_eq
        rw [← show ref fullName = definition from heq] at hhead
        cases hhead

theorem eq_ref_of_fullName? {schema : Schema} {fullName : String} (hhead : schema.head? = none)
    (hname : schema.fullName? = some fullName) : schema = ref fullName := by
  cases schema with
  | ref name =>
      cases hname
      rfl
  | record | enum | fixed => cases hhead
  | primitive | array | map | union => cases hname

/-- In a scope as reading leaves it, no type is read that is called as a primitive type. -/
theorem Reads.ofName?_fullName {scope scope' : Scope} {space : Option String} {value : Json}
    {schema : Schema} {fullName : String} (h : Reads scope space value schema scope')
    (hlegal : scope.Legal) (hsettled : scope.Settled)
    (hname : schema.fullName? = some fullName) : PrimitiveKind.ofName? fullName = none := by
  cases hhead : schema.head? with
  | some head =>
      rw [fullName?_of_head? hhead] at hname
      cases hname
      exact (h.legal hlegal).2.root.noPrimitive head hhead
  | none =>
      cases h with
      | name h =>
          obtain rfl : schema = ref fullName := eq_ref_of_fullName? hhead hname
          exact ofName?_of_schemaOfName hsettled h
      | named _ _ _ h =>
          obtain rfl : schema = ref fullName := eq_ref_of_fullName? hhead hname
          exact ofName?_of_schemaOfName hsettled h
      | union | primitive | array | map => cases hname
      | record | enum | fixed => cases hhead

/-- Reading values one after the other keeps a scope as reading leaves it, so that no type called as
a primitive type is among them. -/
theorem ofName?_of_readEach {scope scope' : Scope} {space : Option String} {items : List Json}
    {schemas : List Schema} (h : readEach scope space items = .ok (schemas, scope'))
    (hlegal : scope.Legal) (hsettled : scope.Settled) :
    ∀ schema ∈ schemas, ∀ fullName, schema.fullName? = some fullName →
      PrimitiveKind.ofName? fullName = none := by
  induction items generalizing scope schemas with
  | nil =>
      cases h
      exact List.forall_mem_nil _
  | cons item rest ih =>
      rw [readEach] at h
      obtain ⟨⟨schema, between⟩, hitem, h⟩ := bind_eq_ok_iff.mp h
      obtain ⟨⟨others, after⟩, hrest, h⟩ := bind_eq_ok_iff.mp h
      cases h
      have hreads := reads_of_read hitem
      rw [List.forall_mem_cons]
      constructor
      · intro fullName hname
        exact hreads.ofName?_fullName hlegal hsettled hname
      · exact ih hrest (hreads.legal hlegal).1 (hreads.visible hsettled).1

/-! ## Unions that are refused -/

/-- Members that are read one after the other as schemas that are no unions make a union with these
members in order, unless two of them are duplicates or confused; then the union is refused for a
duplicate member.  In a scope as reading leaves it, a named type is confused only with arrays or
maps, since none is called as a primitive type. -/
theorem read_union_iff {scope scope' : Scope} {space : Option String} {items : List Json}
    {schemas : List Schema} (hread : readEach scope space items = .ok (schemas, scope'))
    (hunion : ∀ schema ∈ schemas, ∀ members, schema ≠ union members) :
    ((∃ key, read scope space (.arr items) = .error (.duplicateUnionMember key)) ↔
        Two Duplicates schemas ∨ Two Confused schemas) ∧
      (¬ (Two Duplicates schemas ∨ Two Confused schemas) →
        read scope space (.arr items) = .ok (union schemas, scope')) ∧
      (scope.Legal → scope.Settled → ∀ schema ∈ schemas, ∀ kind : PrimitiveKind,
        schema.fullName? ≠ some kind.name) := by
  obtain ⟨keys, hkeys⟩ := exists_keys hunion
  have htwo : ¬ keys.Nodup ↔ Two Duplicates schemas ∨ Two Confused schemas := by
    rw [nodup_keys_iff hunion hkeys, not_not, two_or_iff]
  have hnone : firstRepeated? [] keys = none ↔ keys.Nodup := by
    rw [firstRepeated?_eq_none_iff]
    simp
  rw [read, readMembers_eq hread hkeys, ← htwo, not_not]
  refine ⟨?_, ?_, ?_⟩
  · rw [← hnone]
    cases firstRepeated? [] keys with
    | none => simp [ok_bind, pure_eq_ok]
    | some key => simp [bind, Except.bind]
  · intro hnodup
    rw [hnone.mpr hnodup]
    rfl
  · intro hlegal hsettled schema hmem kind hname
    have hkind := ofName?_of_readEach hread hlegal hsettled schema hmem _ hname
    rw [PrimitiveKind.ofName?_name] at hkind
    cases hkind

/-- An array of integers, and a fixed of this name. -/
def arrayBeside (name : String) : List Json :=
  [.obj [("type", .str "array"), ("items", .str "int")],
    .obj [("type", .str "fixed"), ("name", .str name), ("size", .ofUInt64 1)]]

/-- The schemas of `arrayBeside`. -/
def schemasBeside (name : String) : List Schema :=
  [arrayOf (ofKind .int), fixed { name } 1]

theorem not_two_duplicates_beside (name : String) : ¬ Two Duplicates (schemasBeside name) := by
  rw [not_two_iff, schemasBeside, List.pairwise_pair]
  rintro (⟨kind, -, hkind⟩ | ⟨fullName, hname, -⟩)
  · cases hkind
  · cases hname

theorem not_two_confused_beside {name : String} (h : name ≠ "array") :
    ¬ Two Confused (schemasBeside name) := by
  rw [not_two_iff, schemasBeside, List.pairwise_pair]
  rintro (⟨kind, hkind, -⟩ | ⟨kind, hkind, hname⟩)
  · cases hkind
  · cases hkind
    exact h (Option.some.inj hname)

theorem forall_ne_union_beside (name : String) :
    ∀ schema ∈ schemasBeside name, ∀ members, schema ≠ union members := by
  simp [schemasBeside, arrayOf]

/-- An array and a fixed of another name make a union. -/
theorem read_union_arrayBeside :
    ∃ scope, readEach {} none (arrayBeside "Word") = .ok (schemasBeside "Word", scope) ∧
      read {} none (.arr (arrayBeside "Word")) = .ok (union (schemasBeside "Word"), scope) := by
  have hread : readEach {} none (arrayBeside "Word") = .ok (schemasBeside "Word", _) := rfl
  obtain ⟨-, hunion, -⟩ := read_union_iff hread (forall_ne_union_beside "Word")
  refine ⟨_, hread, hunion ?_⟩
  rintro (hduplicates | hconfused)
  · exact not_two_duplicates_beside "Word" hduplicates
  · exact not_two_confused_beside (by decide) hconfused

/-- An array and a fixed that is called `array` are no duplicates, but are refused in a union. -/
theorem exists_confused_members :
    ∃ scope, readEach {} none (arrayBeside "array") = .ok (schemasBeside "array", scope) ∧
      (∀ schema ∈ schemasBeside "array", ∀ members, schema ≠ union members) ∧
      ¬ Two Duplicates (schemasBeside "array") ∧
      ofJson (.arr (arrayBeside "array")) = .error (.duplicateUnionMember "array") :=
  ⟨_, rfl, forall_ne_union_beside "array", not_two_duplicates_beside "array", rfl⟩

end Schema

end EventSchema
