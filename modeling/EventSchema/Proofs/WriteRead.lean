import EventSchema.Proofs.RoundTrip

/-!
# Writing and reading again

A schema without references whose named types agree with each other is written
as a value that is read as the same schema.  While a node is written and read,
each name written so far is either that of a record around the node or has its
definition in the scope of the reader.  No record can contain itself, so a type
that was written before is found there, and its name is read as its definition.
-/

namespace EventSchema

namespace Schema

/-- Every node of a schema is well built, none is a reference, and the named types have simple
names by which they can be told apart.  Types of one full name are one term: the order of extra
attributes and of object members counts, which `Schema.Equal` passes over, because only one of
their definitions is written and comes back for all of them. -/
structure SelfContained (root : Schema) : Prop where
  wellBuilt : ∀ {path node}, Occurs path node root → node.WellBuilt
  noRef : ∀ path name, ¬ Occurs path (ref name) root
  segment : ∀ {path node head}, Occurs path node root → node.head? = some head →
    Name.isSegment head.name = true
  noPrimitive : ∀ {path node head}, Occurs path node root → node.head? = some head →
    PrimitiveKind.ofName? head.name = none
  agree : ∀ {fullName node other}, NamedIn root fullName node → NamedIn root fullName other →
    node = other
  distinct : ∀ {first second node other}, NamedIn root first node → NamedIn root second other →
    first ≠ second → Name.last first ≠ Name.last second

/-- What the reader knows of the named types of a schema below the open records: every claimed
name is one of theirs, and every other than the open ones has its definition. -/
structure Known (root : Schema) (opened : List String) (scope : Scope) : Prop where
  claimed : ∀ {fullName}, fullName ∈ scope.claimed → ∃ node, NamedIn root fullName node
  settled : ∀ {fullName}, fullName ∈ scope.claimed → fullName ∈ opened ∨
    ∃ node, scope.finished.get? fullName = some node
  finished : ∀ {fullName node}, scope.finished.get? fullName = some node →
    NamedIn root fullName node

/-- The open records are around a node: each has a larger definition. -/
def Around (root : Schema) (opened : List String) (node : Schema) : Prop :=
  ∀ fullName ∈ opened, ∃ outer, NamedIn root fullName outer ∧ sizeOf node < sizeOf outer

theorem Around.mono {root node inner : Schema} {opened : List String}
    (h : Around root opened node) (hsize : sizeOf inner ≤ sizeOf node) :
    Around root opened inner := by
  intro fullName hmem
  obtain ⟨outer, houter, hlt⟩ := h fullName hmem
  exact ⟨outer, houter, Nat.lt_of_le_of_lt hsize hlt⟩

theorem known_empty (root : Schema) : Known root [] {} := by
  constructor
  · intro fullName hmem
    cases hmem
  · intro fullName hmem
    cases hmem
  · intro fullName node h
    cases h

/-- Claiming the name of a node opens it. -/
theorem Known.claim {root node : Schema} {opened : List String} {scope next : Scope}
    {fullName : String} (h : Known root opened scope) (hnode : NamedIn root fullName node)
    (hclaim : scope.claim fullName = .ok next) : Known root (fullName :: opened) next := by
  obtain ⟨-, -, rfl⟩ := Scope.claim_eq_ok_iff.mp hclaim
  constructor
  · intro name hmem
    rcases List.mem_append.mp hmem with hmem | hmem
    · exact h.claimed hmem
    · rw [List.mem_singleton] at hmem
      exact ⟨node, hmem ▸ hnode⟩
  · intro name hmem
    rcases List.mem_append.mp hmem with hmem | hmem
    · exact (h.settled hmem).imp_left (List.mem_cons_of_mem _)
    · rw [List.mem_singleton] at hmem
      exact .inl (hmem ▸ List.mem_cons_self)
  · exact h.finished

/-- Finishing a node closes its name again. -/
theorem Known.finish {root node : Schema} {opened : List String} {scope : Scope}
    {fullName : String} (h : Known root (fullName :: opened) scope)
    (hnode : NamedIn root fullName node) : Known root opened (scope.finish fullName node) := by
  constructor
  · exact h.claimed
  · intro name hmem
    rw [Scope.finished_finish, Entries.get?_append]
    cases hfound : scope.finished.get? name with
    | some found => exact .inr ⟨found, rfl⟩
    | none =>
        rcases h.settled hmem with hopen | ⟨found, hsome⟩
        · rcases List.mem_cons.mp hopen with rfl | hopen
          · exact .inr ⟨node, by simp⟩
          · exact .inl hopen
        · rw [hfound] at hsome
          cases hsome
  · intro name found hsome
    rcases Scope.get?_finished_finish hsome with hearlier | ⟨rfl, rfl⟩
    · exact h.finished hearlier
    · exact hnode

/-- Within any open records and any namespace, a node is written as a value that is read as the
node, from the names written so far to those written after it. -/
def Rewritable (root node : Schema) : Prop :=
  ∀ opened scope space, Known root opened scope → Around root opened node → space ≠ some "" →
    ∃ json scope', Writes space scope.claimed node json scope'.claimed ∧
      Reads scope space json node scope' ∧ Known root opened scope'

section Steps

variable {root node : Schema} {path opened : List String} {head : TypeHead} {scope : Scope}
  {space : Option String}

theorem SelfContained.last_fullName (hroot : SelfContained root) (hnode : Occurs path node root)
    (hhead : node.head? = some head) : Name.last head.fullName = head.name :=
  Name.last_full (Name.isDotted_of_isSegment (hroot.segment hnode hhead)) head.space

theorem SelfContained.ofName?_last (hroot : SelfContained root) (hnode : Occurs path node root)
    (hhead : node.head? = some head) :
    PrimitiveKind.ofName? (Name.last head.fullName) = none := by
  rw [hroot.last_fullName hnode hhead, hroot.noPrimitive hnode hhead]

theorem SelfContained.exists_claim (hroot : SelfContained root) (hnode : Occurs path node root)
    (hhead : node.head? = some head) (hnew : head.fullName ∉ scope.claimed) :
    ∃ next, scope.claim head.fullName = .ok next :=
  ⟨_, Scope.claim_eq_ok_iff.mpr
    ⟨PrimitiveKind.ofName?_of_last (hroot.ofName?_last hnode hhead), hnew, rfl⟩⟩

/-- No claimed type hides another. -/
theorem SelfContained.not_hidden (hroot : SelfContained root) (hknown : Known root opened scope)
    (hnode : Occurs path node root) (hhead : node.head? = some head) :
    ¬ Hidden scope.claimed space head.fullName := by
  rintro ⟨hne, hmem⟩
  obtain ⟨other, hother⟩ := hknown.claimed hmem
  have hnamed : NamedIn root head.fullName node := ⟨⟨path, hnode⟩, head, hhead, rfl⟩
  apply hroot.distinct hnamed hother (Ne.symm hne)
  by_cases hdotted : Name.isDotted head.fullName = true
  · exact absurd (Name.full_of_dotted hdotted space) hne
  · have hundotted : Name.isDotted head.fullName = false := by simpa using hdotted
    rw [Name.last_full hundotted, Name.last_of_undotted hundotted]

/-- A claimed name of a node below the open records stands for the node. -/
theorem SelfContained.stored_eq (hroot : SelfContained root) (hknown : Known root opened scope)
    (haround : Around root opened node) (hnode : Occurs path node root)
    (hhead : node.head? = some head) (hmem : head.fullName ∈ scope.claimed) :
    scope.stored head.fullName = node := by
  have hnamed : NamedIn root head.fullName node := ⟨⟨path, hnode⟩, head, hhead, rfl⟩
  rcases hknown.settled hmem with hopen | ⟨found, hfound⟩
  · obtain ⟨outer, houter, hlt⟩ := haround _ hopen
    rw [hroot.agree houter hnamed] at hlt
    exact absurd hlt (Nat.lt_irrefl _)
  · rw [Scope.stored, hfound, Option.getD_some]
    exact hroot.agree (hknown.finished hfound) hnamed

/-- A node that was written before is written as a name that is read as the node. -/
theorem SelfContained.rewrite_again (hroot : SelfContained root)
    (hknown : Known root opened scope) (haround : Around root opened node)
    (hspace : space ≠ some "") (hnode : Occurs path node root) (hhead : node.head? = some head)
    (hmem : head.fullName ∈ scope.claimed) :
    Writes space scope.claimed node (reference space head.fullName) scope.claimed ∧
      Reads scope space (reference space head.fullName) node scope := by
  obtain ⟨reserved, -, hsound⟩ := (hroot.wellBuilt hnode).head_checked hhead
  have hdenotes : Denotes scope.claimed space (referenceText space head.fullName)
      head.fullName :=
    (denotes_referenceText_iff hspace).mpr
      ⟨hmem, ofName?_referenceText (hroot.ofName?_last hnode hhead),
        hroot.not_hidden hknown hnode hhead⟩
  refine ⟨.again hhead hsound.name hmem, ?_⟩
  rw [reference_eq]
  apply Reads.name
  rw [Scope.schemaOfName_of_denotes hdenotes, hroot.stored_eq hknown haround hnode hhead hmem]

theorem rewrite_members {members : List Schema} {seen : List String}
    (hall : ∀ member ∈ members, Rewritable root member)
    (hkeys : ∀ member ∈ members, (unionKey? member).isSome)
    (hnew : ∀ member ∈ members, ∀ key, unionKey? member = some key → key ∉ seen)
    (hnodup : (members.map unionKey?).Nodup) (hknown : Known root opened scope)
    (haround : ∀ member ∈ members, Around root opened member) (hspace : space ≠ some "") :
    ∃ jsons scope', WritesMembers space scope.claimed members jsons scope'.claimed ∧
      ReadsMembers scope space seen jsons members scope' ∧ Known root opened scope' := by
  induction members generalizing scope seen with
  | nil => exact ⟨[], scope, .nil, .nil, hknown⟩
  | cons member rest ih =>
      obtain ⟨hmember, hallRest⟩ := List.forall_mem_cons.mp hall
      obtain ⟨hkey, hkeysRest⟩ := List.forall_mem_cons.mp hkeys
      obtain ⟨hnewMember, hnewRest⟩ := List.forall_mem_cons.mp hnew
      obtain ⟨haroundMember, haroundRest⟩ := List.forall_mem_cons.mp haround
      rw [List.map_cons, List.nodup_cons] at hnodup
      obtain ⟨key, hkey⟩ := Option.isSome_iff_exists.mp hkey
      obtain ⟨json, between, hwrites, hreads, hbetween⟩ :=
        hmember opened scope space hknown haroundMember hspace
      have hseen : ∀ other ∈ rest, ∀ otherKey, unionKey? other = some otherKey →
          otherKey ∉ seen ++ [key] := by
        intro other hother otherKey hotherKey hin
        rcases List.mem_append.mp hin with hin | hin
        · exact hnewRest other hother otherKey hotherKey hin
        · rw [List.mem_singleton] at hin
          apply hnodup.1
          rw [hkey, ← hin, ← hotherKey]
          exact List.mem_map_of_mem hother
      obtain ⟨jsons, scope', hwritesRest, hreadsRest, hknown'⟩ :=
        ih hallRest hkeysRest hseen hnodup.2 hbetween haroundRest
      refine ⟨json :: jsons, scope', .cons ?_ hwrites hwritesRest,
        .cons hreads hkey (hnewMember key hkey) hreadsRest, hknown'⟩
      rintro inner rfl
      cases hkey

theorem rewrite_fields {fields : List Field} {seen : List String}
    (hall : ∀ field ∈ fields, Rewritable root (FieldOf.schema field))
    (hsound : ∀ field ∈ fields, FieldOf.Sound field)
    (hnew : ∀ field ∈ fields, FieldOf.name field ∉ seen)
    (hnodup : (fields.map FieldOf.name).Nodup) (hknown : Known root opened scope)
    (haround : ∀ field ∈ fields, Around root opened (FieldOf.schema field))
    (hspace : space ≠ some "") :
    ∃ jsons scope', WritesFields space scope.claimed fields jsons scope'.claimed ∧
      ReadsFields scope space seen jsons fields scope' ∧ Known root opened scope' := by
  induction fields generalizing scope seen with
  | nil => exact ⟨[], scope, .nil, .nil, hknown⟩
  | cons field rest ih =>
      obtain ⟨hfield, hallRest⟩ := List.forall_mem_cons.mp hall
      obtain ⟨hsoundField, hsoundRest⟩ := List.forall_mem_cons.mp hsound
      obtain ⟨hnewField, hnewRest⟩ := List.forall_mem_cons.mp hnew
      obtain ⟨haroundField, haroundRest⟩ := List.forall_mem_cons.mp haround
      rw [List.map_cons, List.nodup_cons] at hnodup
      obtain ⟨json, between, hwrites, hreads, hbetween⟩ :=
        hfield opened scope space hknown haroundField hspace
      have hseen : ∀ other ∈ rest, FieldOf.name other ∉ seen ++ [field.name] := by
        intro other hother hin
        rcases List.mem_append.mp hin with hin | hin
        · exact hnewRest other hother hin
        · rw [List.mem_singleton] at hin
          apply hnodup.1
          rw [← hin]
          exact List.mem_map_of_mem hother
      obtain ⟨jsons, scope', hwritesRest, hreadsRest, hknown'⟩ :=
        ih hallRest hsoundRest hseen hnodup.2 hbetween haroundRest
      exact ⟨_, scope', .cons hwrites hwritesRest,
        readsFields_cons hsoundField hreads hnewField hreadsRest, hknown'⟩

end Steps

/-- Every node of a self-contained schema is written and read back, wherever it stands. -/
theorem SelfContained.rewritable {root : Schema} (hroot : SelfContained root) (schema : Schema) :
    ∀ path, Occurs path schema root → Rewritable root schema := by
  induction schema using induct with
  | primitive kind props =>
      intro path hnode opened scope space hknown haround hspace
      cases hprops : props.entries.isEmpty with
      | true => exact ⟨_, scope, .word hprops, reads_word hprops, hknown⟩
      | false =>
          exact ⟨_, scope, .primitive hprops, reads_primitive (hroot.wellBuilt hnode), hknown⟩
  | array items props ih =>
      intro path hnode opened scope space hknown haround hspace
      have hitems : Occurs (path ++ []) items root := hnode.trans (.items .here)
      have hsize : sizeOf items ≤ sizeOf (array items props) := Occurs.sizeOf_le (.items .here)
      obtain ⟨json, scope', hwrites, hreads, hknown'⟩ :=
        ih _ hitems opened scope space hknown (haround.mono hsize) hspace
      exact ⟨_, scope', .array hwrites, reads_array (hroot.wellBuilt hnode) hreads, hknown'⟩
  | map values props ih =>
      intro path hnode opened scope space hknown haround hspace
      have hvalues : Occurs (path ++ []) values root := hnode.trans (.values .here)
      have hsize : sizeOf values ≤ sizeOf (map values props) := Occurs.sizeOf_le (.values .here)
      obtain ⟨json, scope', hwrites, hreads, hknown'⟩ :=
        ih _ hvalues opened scope space hknown (haround.mono hsize) hspace
      exact ⟨_, scope', .map hwrites, reads_map (hroot.wellBuilt hnode) hreads, hknown'⟩
  | union members ih =>
      intro path hnode opened scope space hknown haround hspace
      obtain ⟨hkeys, hnodup⟩ := hroot.wellBuilt hnode
      have hall : ∀ member ∈ members, Rewritable root member := by
        intro member hmem
        exact ih member hmem _ (hnode.trans (.member hmem .here))
      have haroundMembers : ∀ member ∈ members, Around root opened member := by
        intro member hmem
        exact haround.mono (Occurs.sizeOf_le (.member hmem .here))
      obtain ⟨jsons, scope', hwrites, hreads, hknown'⟩ :=
        rewrite_members hall hkeys (fun _ _ _ _ => List.not_mem_nil) hnodup hknown
          haroundMembers hspace
      exact ⟨_, scope', .union hwrites, .union hreads, hknown'⟩
  | record head isError fields ih =>
      intro path hnode opened scope space hknown haround hspace
      by_cases hmem : head.fullName ∈ scope.claimed
      · obtain ⟨hwrites, hreads⟩ :=
          hroot.rewrite_again hknown haround hspace hnode rfl hmem
        exact ⟨_, scope, hwrites, hreads, hknown⟩
      · obtain ⟨hsound, hfields, hnodup⟩ := hroot.wellBuilt hnode
        have hnamed : NamedIn root head.fullName (record head isError fields) :=
          ⟨⟨path, hnode⟩, head, rfl, rfl⟩
        obtain ⟨next, hclaim⟩ := hroot.exists_claim hnode rfl hmem
        have hall : ∀ field ∈ fields, Rewritable root (FieldOf.schema field) := by
          intro field hfield
          exact ih field hfield _ (hnode.trans (.field hfield .here))
        have haroundFields : ∀ field ∈ fields,
            Around root (head.fullName :: opened) (FieldOf.schema field) := by
          intro field hfield fullName hopen
          have hsize := sizeOf_schema_lt_of_mem head isError hfield
          rcases List.mem_cons.mp hopen with rfl | hopen
          · exact ⟨_, hnamed, hsize⟩
          · exact haround.mono (Nat.le_of_lt hsize) fullName hopen
        have hinner : head.ownSpace ≠ some "" :=
          innerSpace_eq_ownSpace hsound ▸ innerSpace_ne_empty hsound
        obtain ⟨jsons, scope', hwrites, hreads, hknown'⟩ :=
          rewrite_fields hall hfields (fun _ _ => List.not_mem_nil) hnodup
            (hknown.claim hnamed hclaim) haroundFields hinner
        have hclosed : closeRecord head isError fields = record head isError fields := by
          apply closeRecord_eq_self
          intro field hfield inner h
          exact hroot.noRef _ _ (hnode.trans (.field hfield h))
        have hundotted := Name.isDotted_of_isSegment (hroot.segment hnode rfl)
        have hread : Reads scope space _ (closeRecord head isError fields) _ :=
          reads_record hsound (by simp [hundotted]) hclaim hreads
        rw [hclosed] at hread
        rw [claimed_of_claim hclaim] at hwrites
        exact ⟨_, scope'.finish head.fullName (record head isError fields),
          .record hsound.name hmem hwrites, hread, hknown'.finish hnamed⟩
  | enum head symbols defaultSymbol =>
      intro path hnode opened scope space hknown haround hspace
      by_cases hmem : head.fullName ∈ scope.claimed
      · obtain ⟨hwrites, hreads⟩ :=
          hroot.rewrite_again hknown haround hspace hnode rfl hmem
        exact ⟨_, scope, hwrites, hreads, hknown⟩
      · obtain ⟨hsound, hsymbols⟩ := hroot.wellBuilt hnode
        have hnamed : NamedIn root head.fullName (enum head symbols defaultSymbol) :=
          ⟨⟨path, hnode⟩, head, rfl, rfl⟩
        obtain ⟨next, hclaim⟩ := hroot.exists_claim hnode rfl hmem
        have hundotted := Name.isDotted_of_isSegment (hroot.segment hnode rfl)
        have hwrites : Writes space scope.claimed (enum head symbols defaultSymbol) _ _ :=
          .enum hsound.name hmem
        rw [← claimed_of_claim hclaim] at hwrites
        exact ⟨_, next.finish head.fullName (enum head symbols defaultSymbol), hwrites,
          reads_enum hsound (by simp [hundotted]) hsymbols hclaim,
          (hknown.claim hnamed hclaim).finish hnamed⟩
  | fixed head size =>
      intro path hnode opened scope space hknown haround hspace
      by_cases hmem : head.fullName ∈ scope.claimed
      · obtain ⟨hwrites, hreads⟩ :=
          hroot.rewrite_again hknown haround hspace hnode rfl hmem
        exact ⟨_, scope, hwrites, hreads, hknown⟩
      · have hsound : head.Sound fixedAttributes := hroot.wellBuilt hnode
        have hnamed : NamedIn root head.fullName (fixed head size) :=
          ⟨⟨path, hnode⟩, head, rfl, rfl⟩
        obtain ⟨next, hclaim⟩ := hroot.exists_claim hnode rfl hmem
        have hundotted := Name.isDotted_of_isSegment (hroot.segment hnode rfl)
        have hwrites : Writes space scope.claimed (fixed head size) _ _ :=
          .fixed hsound.name hmem
        rw [← claimed_of_claim hclaim] at hwrites
        exact ⟨_, next.finish head.fullName (fixed head size), hwrites,
          reads_fixed hsound (by simp [hundotted]) hclaim,
          (hknown.claim hnamed hclaim).finish hnamed⟩
  | ref name =>
      intro path hnode
      exact absurd hnode (hroot.noRef path name)

/-- A self-contained schema is written as a value that is read as the schema. -/
theorem write_read {schema : Schema} (h : SelfContained schema) :
    ∃ json, schema.toJson = .ok json ∧ ofJson json = .ok schema := by
  obtain ⟨json, scope, hwrites, hreads, -⟩ :=
    h.rewritable schema [] .here [] {} none (known_empty schema) (by simp [Around]) (by decide)
  exact ⟨json, toJson_eq_ok_iff.mpr ⟨_, hwrites⟩, ofJson_eq_ok_iff.mpr ⟨_, hreads⟩⟩

/-- An enum without a namespace. -/
def statusEnum : Schema :=
  enum { name := "Status" } ["OPEN", "DONE"] (some "OPEN")

/-- A record in a namespace that uses an enum outside it twice. -/
def jobRecord : Schema :=
  record { name := "Job", space := some "a" } false
    [{ name := "status", schema := statusEnum }, { name := "past", schema := arrayOf statusEnum }]

theorem occurs_jobRecord {path : List String} {node : Schema} (h : Occurs path node jobRecord) :
    node = jobRecord ∨ node = arrayOf statusEnum ∨ node = statusEnum := by
  rw [jobRecord] at h
  cases h with
  | here => exact .inl rfl
  | field hmem h =>
      right
      rcases List.mem_cons.mp hmem with rfl | hmem
      · cases h with
        | here => exact .inr rfl
      · rw [List.mem_singleton.mp hmem] at h
        cases h with
        | here => exact .inl rfl
        | items h =>
            cases h with
            | here => exact .inr rfl

theorem namedIn_jobRecord {fullName : String} {node : Schema}
    (h : NamedIn jobRecord fullName node) :
    fullName = "a.Job" ∧ node = jobRecord ∨ fullName = "Status" ∧ node = statusEnum := by
  obtain ⟨⟨path, hnode⟩, head, hhead, rfl⟩ := h
  rcases occurs_jobRecord hnode with rfl | rfl | rfl
  · cases hhead
    exact .inl ⟨by decide, rfl⟩
  · cases hhead
  · cases hhead
    exact .inr ⟨by decide, rfl⟩

theorem selfContained_jobRecord : SelfContained jobRecord := by
  constructor
  · intro path node h
    rcases occurs_jobRecord h with rfl | rfl | rfl
    · refine ⟨⟨by decide, ?_, by decide, by decide⟩, ?_, by decide⟩
      · rintro own ⟨⟩
        decide
      · intro field hfield
        rcases List.mem_cons.mp hfield with rfl | hfield
        · exact ⟨by decide, by decide, by decide⟩
        · rw [List.mem_singleton.mp hfield]
          exact ⟨by decide, by decide, by decide⟩
    · change ∀ key ∈ Props.empty.keys, key ∉ arrayAttributes
      decide
    · refine ⟨⟨by decide, ?_, by decide, by decide⟩, by decide, by decide, ?_⟩
      · rintro own ⟨⟩
      · rintro symbol ⟨⟩
        decide
  · intro path name h
    rcases occurs_jobRecord h with h | h | h <;> cases h
  · intro path node head h hhead
    rcases occurs_jobRecord h with rfl | rfl | rfl <;> cases hhead <;> decide
  · intro path node head h hhead
    rcases occurs_jobRecord h with rfl | rfl | rfl <;> cases hhead <;> decide
  · intro fullName node other hnode hother
    rcases namedIn_jobRecord hnode with ⟨rfl, rfl⟩ | ⟨rfl, rfl⟩ <;>
      rcases namedIn_jobRecord hother with ⟨heq, rfl⟩ | ⟨heq, rfl⟩ <;>
        first | rfl | exact absurd heq (by decide)
  · intro first second node other hnode hother hne
    rcases namedIn_jobRecord hnode with ⟨rfl, -⟩ | ⟨rfl, -⟩ <;>
      rcases namedIn_jobRecord hother with ⟨rfl, -⟩ | ⟨rfl, -⟩ <;>
        first | exact absurd rfl hne | decide

/-- What `jobRecord` is written as: the enum leaves the namespace where it is defined, and is then
mentioned. -/
def jobJson : Json :=
  .obj [("type", .str "record"), ("name", .str "Job"), ("namespace", .str "a"),
    ("fields", .arr [
      .obj [("name", .str "status"), ("type", .obj [("type", .str "enum"), ("name", .str "Status"),
        ("namespace", .str ""), ("symbols", .arr [.str "OPEN", .str "DONE"]),
        ("default", .str "OPEN")])],
      .obj [("name", .str "past"), ("type", .obj [("type", .str "array"),
        ("items", .str "Status")])]])]

theorem write_read_jobRecord :
    jobRecord.toJson = .ok jobJson ∧ ofJson jobJson = .ok jobRecord := by
  have hwritten : jobRecord.toJson = .ok jobJson := rfl
  obtain ⟨json, hjson, hread⟩ := write_read selfContained_jobRecord
  rw [hwritten, Except.ok.injEq] at hjson
  rw [← hjson] at hread
  exact ⟨hwritten, hread⟩

end Schema

end EventSchema
