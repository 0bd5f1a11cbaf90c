import EventSchema.Proofs.Declared
import EventSchema.Proofs.Writings

/-!
# What written names refer to

A name that is written for a type is looked up again where the written value is
read: in the namespace of the record around it, among the types defined before
it.  The main statement says exactly when it denotes the type there.  In a schema
that was read, every type is defined before it is named and none is hidden, so
that only a name of a primitive type fails; in a record that was declared, an
override may define types that hide each other.
-/

namespace EventSchema

open Mark (definedNames)

/-- A type is defined before a place. -/
def Earlier (written : List String) (_ : Option String) (fullName : String) : Prop :=
  fullName ∈ written

/-- A type is visible where it is defined and not hidden. -/
def Visible (written : List String) (space : Option String) (fullName : String) : Prop :=
  fullName ∈ written ∧ ¬ Hidden written space fullName

/-- What holds of each name of a type in a listing, given the full names written before it, the
namespace around it and the full name of the type. -/
def EachReference (holds : List String → Option String → String → Prop) (written : List String)
    (writings : List Writing) : Prop :=
  ∀ before space fullName after, writings = before ++ .reference space fullName :: after →
    holds (written ++ Writing.names before) space fullName

section Places

variable {holds : List String → Option String → String → Prop} {written : List String}
  {first second : List Writing} {space : Option String} {fullName : String}

theorem eachReference_nil : EachReference holds written [] := by
  intro before found other after h
  simp at h

theorem eachReference_word (kind : PrimitiveKind) : EachReference holds written [.word kind] := by
  intro before found other after h
  rw [List.singleton_eq_append_iff] at h
  simp at h

theorem eachReference_reference (h : holds written space fullName) :
    EachReference holds written [.reference space fullName] := by
  intro before found other after hsplit
  rw [List.singleton_eq_append_iff] at hsplit
  rcases hsplit with ⟨rfl, hsplit⟩ | ⟨-, hsplit⟩
  · cases hsplit
    rw [Writing.names_nil, List.append_nil]
    exact h
  · cases hsplit

theorem eachReference_append (hfirst : EachReference holds written first)
    (hsecond : EachReference holds (written ++ Writing.names first) second) :
    EachReference holds written (first ++ second) := by
  intro before found other after h
  rcases append_eq_append_cons_iff.mp h with ⟨rest, hsplit, -⟩ | ⟨rest, rfl, hsplit⟩
  · exact hfirst before found other rest hsplit
  · rw [Writing.names_append, ← List.append_assoc]
    exact hsecond rest found other after hsplit

theorem eachReference_definition (h : EachReference holds (written ++ [fullName]) second) :
    EachReference holds written (.definition fullName :: second) := by
  have hdefinition : EachReference holds written [.definition fullName] := by
    intro before found other after hsplit
    rw [List.singleton_eq_append_iff] at hsplit
    simp at hsplit
  exact eachReference_append hdefinition h

/-- A named type is written as its name, or as its definition and what follows from it. -/
theorem eachReference_namedWritings {head : TypeHead} {body : List String → List Writing}
    (hagain : head.fullName ∈ written → holds written space head.fullName)
    (hbody : EachReference holds (written ++ [head.fullName])
      (body (written ++ [head.fullName]))) :
    EachReference holds written (Schema.namedWritings space written head body) := by
  rw [Schema.namedWritings]
  split_ifs with hmem
  · exact eachReference_reference (hagain hmem)
  · exact eachReference_definition hbody

/-- A name in a listing has its place in the value that the listing is shown by. -/
theorem exists_mark_of_shows {marks : List Mark} {before after : List Writing}
    (h : List.Forall₂ Schema.Shows marks (before ++ .reference space fullName :: after)) :
    ∃ earlier within later,
      marks = earlier ++ .mentions within space (referenceText space fullName) :: later ∧
        List.Forall₂ Schema.Shows earlier before ∧ List.Forall₂ Schema.Shows later after ∧
          space ≠ some "" := by
  induction before generalizing marks with
  | nil =>
      cases h with
      | cons hfirst hrest =>
          cases hfirst with
          | reference hspace => exact ⟨[], _, _, rfl, .nil, hrest, hspace⟩
  | cons writing rest ih =>
      cases h with
      | cons hfirst hrest =>
          obtain ⟨earlier, within, later, rfl, hearlier, hlater, hspace⟩ := ih hrest
          exact ⟨_ :: earlier, within, later, rfl, .cons hfirst hearlier, hlater, hspace⟩

end Places

namespace Schema

/-! ## Closing changes no writing -/

section Close

variable {fullName : String} {definition : Schema} {head : TypeHead}

mutual

/-- Once a type is written, what is written for its definition is its name. -/
theorem writings_close (hdefines : Defines definition fullName head) {space : Option String}
    {written : List String} (hmem : fullName ∈ written) : ∀ schema : Schema,
      writings space written (close fullName definition schema) = writings space written schema
  | .primitive .. => rfl
  | .array items _ => writings_close hdefines hmem items
  | .map values _ => writings_close hdefines hmem values
  | .union members => writingsOfMembers_close hdefines hmem members
  | .record found _ fields => by
      rw [close, writings, writings, namedWritings, namedWritings]
      split
      · rfl
      · rw [writingsOfFields_close hdefines (List.mem_append_left _ hmem) fields]
  | .enum .. => rfl
  | .fixed .. => rfl
  | .ref name => by
      rw [close]
      split
      next heq =>
        have hwritten : head.fullName ∈ written := hdefines.fullName_eq ▸ hmem
        rw [writings_of_mem hdefines.head_eq hwritten, hdefines.fullName_eq, writings, heq]
      next => rfl

theorem writingsOfMembers_close (hdefines : Defines definition fullName head)
    {space : Option String} {written : List String} (hmem : fullName ∈ written) :
    ∀ members : List Schema,
      writingsOfMembers space written (closeList fullName definition members) =
        writingsOfMembers space written members
  | [] => rfl
  | member :: rest => by
      rw [closeList, writingsOfMembers, writingsOfMembers, writings_close hdefines hmem member,
        writingsOfMembers_close hdefines (List.mem_append_left _ hmem) rest]

theorem writingsOfField_close (hdefines : Defines definition fullName head)
    {space : Option String} {written : List String} (hmem : fullName ∈ written) :
    ∀ field : Field,
      writingsOfField space written (closeField fullName definition field) =
        writingsOfField space written field
  | ⟨_, schema, _, _, _, _, _⟩ => writings_close hdefines hmem schema

theorem writingsOfFields_close (hdefines : Defines definition fullName head)
    {space : Option String} {written : List String} (hmem : fullName ∈ written) :
    ∀ fields : List Field,
      writingsOfFields space written (closeFields fullName definition fields) =
        writingsOfFields space written fields
  | [] => rfl
  | field :: rest => by
      rw [closeFields, writingsOfFields, writingsOfFields,
        writingsOfField_close hdefines hmem field,
        writingsOfFields_close hdefines (List.mem_append_left _ hmem) rest]

end

end Close

/-! ## Definitions before names -/

mutual

/-- If a schema leaves no other name open than the written ones, it is written with every type
defined before it is named. -/
theorem writings_defined : ∀ {space : Option String} {written : List String} (schema : Schema),
    (∀ name, LeavesOpen schema name → name ∈ written) →
      EachReference Earlier written (writings space written schema)
  | _, _, .primitive kind _, _ => eachReference_word kind
  | _, _, .array items _, hopen => by
      apply writings_defined items
      simpa using hopen
  | _, _, .map values _, hopen => by
      apply writings_defined values
      simpa using hopen
  | _, _, .union members, hopen => by
      apply writingsOfMembers_defined members
      intro member hmem name h
      exact hopen name (leavesOpen_union.mpr ⟨member, hmem, h⟩)
  | _, _, .record head _ fields, hopen => by
      rw [writings]
      refine eachReference_namedWritings id (writingsOfFields_defined fields ?_)
      intro field hmem name h
      by_cases hname : name = head.fullName
      · simp [hname]
      · exact List.mem_append_left _ (hopen name (leavesOpen_record.mpr ⟨hname, field, hmem, h⟩))
  | _, _, .enum .., _ => eachReference_namedWritings id eachReference_nil
  | _, _, .fixed .., _ => eachReference_namedWritings id eachReference_nil
  | _, _, .ref name, hopen => by
      apply eachReference_reference
      exact hopen name (leavesOpen_ref.mpr rfl)

theorem writingsOfMembers_defined : ∀ {space : Option String} {written : List String}
    (members : List Schema),
    (∀ member ∈ members, ∀ name, LeavesOpen member name → name ∈ written) →
      EachReference Earlier written (writingsOfMembers space written members)
  | _, _, [], _ => eachReference_nil
  | _, _, member :: rest, hopen => by
      obtain ⟨hfirst, hothers⟩ := List.forall_mem_cons.mp hopen
      apply eachReference_append (writings_defined member hfirst)
      apply writingsOfMembers_defined rest
      intro other hmem name h
      exact List.mem_append_left _ (hothers other hmem name h)

theorem writingsOfField_defined : ∀ {space : Option String} {written : List String}
    (field : Field), (∀ name, LeavesOpen (FieldOf.schema field) name → name ∈ written) →
      EachReference Earlier written (writingsOfField space written field)
  | _, _, ⟨_, schema, _, _, _, _, _⟩, hopen => writings_defined schema hopen

theorem writingsOfFields_defined : ∀ {space : Option String} {written : List String}
    (fields : List Field),
    (∀ field ∈ fields, ∀ name, LeavesOpen (FieldOf.schema field) name → name ∈ written) →
      EachReference Earlier written (writingsOfFields space written fields)
  | _, _, [], _ => eachReference_nil
  | _, _, field :: rest, hopen => by
      obtain ⟨hfirst, hothers⟩ := List.forall_mem_cons.mp hopen
      apply eachReference_append (writingsOfField_defined field hfirst)
      apply writingsOfFields_defined rest
      intro other hmem name h
      exact List.mem_append_left _ (hothers other hmem name h)

end

/-! ## Names in a schema that was read -/

/-- A name that is read is written as a word or as a name of a visible type. -/
theorem visible_name {scope : Scope} {space : Option String} {name : String} {schema : Schema}
    (hscope : scope.Settled) (h : scope.schemaOfName space name = .ok schema) :
    Writing.names (writings space scope.claimed schema) = [] ∧
      EachReference Visible scope.claimed (writings space scope.claimed schema) := by
  rcases Scope.schemaOfName_eq_ok h with ⟨kind, -, rfl⟩ | ⟨fullName, hdenotes, rfl⟩
  · exact ⟨rfl, eachReference_word kind⟩
  · have hstored : writings space scope.claimed (scope.stored fullName) =
        [.reference space fullName] := by
      rw [Scope.stored]
      cases hfinished : scope.finished.get? fullName with
      | none => rfl
      | some definition =>
          obtain ⟨hmem, head, hdefines⟩ := hscope.finished hfinished
          rw [← hdefines.fullName_eq] at hmem ⊢
          exact writings_of_mem hdefines.head_eq hmem
    rw [hstored]
    exact ⟨rfl, eachReference_reference ⟨hdenotes.mem, hdenotes.not_hidden⟩⟩

/-- A definition without fields is written whole where it is read. -/
theorem visible_leaf {scope opened : Scope} {space : Option String} {schema : Schema}
    {head : TypeHead} (hscope : scope.Settled)
    (hclaim : scope.claim head.fullName = .ok opened)
    (hdefines : Defines schema head.fullName head)
    (hwritings : ∀ written, writings space written schema =
      namedWritings space written head fun _ => []) :
    (opened.finish head.fullName schema).Settled ∧
      (opened.finish head.fullName schema).claimed =
        scope.claimed ++ Writing.names (writings space scope.claimed schema) ∧
      EachReference Visible scope.claimed (writings space scope.claimed schema) := by
  have hclaimed : opened.claimed = scope.claimed ++ [head.fullName] := claimed_of_claim hclaim
  have hnew : head.fullName ∉ scope.claimed := (Scope.claim_eq_ok_iff.mp hclaim).2.1
  rw [hwritings, namedWritings_of_notMem hnew, Writing.names_definition, Writing.names_nil,
    Scope.claimed_finish]
  have hsettled := (hscope.claim hclaim).finish (mem_claimed_of_claim hclaim) hdefines
  exact ⟨hsettled, hclaimed, eachReference_definition eachReference_nil⟩

mutual

/-- The step of a reading: what is written for the schema claims the names that were claimed, and
each type that it names is visible there. -/
theorem Reads.visible {scope scope' : Scope} {space : Option String} {value : Json}
    {schema : Schema} :
    Reads scope space value schema scope' → scope.Settled →
      scope'.Settled ∧
        scope'.claimed =
          scope.claimed ++ Writing.names (writings space scope.claimed schema) ∧
        EachReference Visible scope.claimed (writings space scope.claimed schema)
  | .name h, hscope => by
      obtain ⟨hnames, hvisible⟩ := visible_name hscope h
      exact ⟨hscope, by rw [hnames, List.append_nil], hvisible⟩
  | .union h, hscope => h.visible hscope
  | @Reads.primitive scope _ _ kind _, hscope =>
      ⟨hscope, (List.append_nil scope.claimed).symm, eachReference_word kind⟩
  | .array _ _ h, hscope => h.visible hscope
  | .map _ _ h, hscope => h.visible hscope
  | @Reads.record _ _ _ head isError _ fields opened after _ hhead hclaim _ h, hscope => by
      obtain ⟨hafter, hnames, hvisible⟩ := h.visible (hscope.claim hclaim)
      have hnew : head.fullName ∉ scope.claimed := (Scope.claim_eq_ok_iff.mp hclaim).2.1
      rw [claimed_of_claim hclaim, innerSpace_eq_ownSpace hhead.sound] at hnames hvisible
      have hdefines : Defines (record head isError fields) head.fullName head :=
        ⟨rfl, rfl, hhead.sound.name⟩
      -- The name of the record comes first, so that closing its references changes no writing.
      have hwritings : writings space scope.claimed (closeRecord head isError fields) =
          .definition head.fullName ::
            writingsOfFields head.ownSpace (scope.claimed ++ [head.fullName]) fields := by
        rw [closeRecord, writings, namedWritings_of_notMem hnew,
          writingsOfFields_close hdefines (by simp)]
      rw [hwritings, Writing.names_definition]
      refine ⟨hafter.finish ?_ ⟨head?_closeRecord head isError fields, rfl, hhead.sound.name⟩,
        ?_, eachReference_definition hvisible⟩
      · simp [hnames]
      · rw [Scope.claimed_finish, hnames, List.append_assoc, List.singleton_append]
  | .enum _ hhead hclaim _ _ _, hscope =>
      visible_leaf hscope hclaim ⟨rfl, rfl, hhead.sound.name⟩ fun _ => by rw [writings]
  | .fixed _ hhead hclaim _ _, hscope =>
      visible_leaf hscope hclaim ⟨rfl, rfl, hhead.sound.name⟩ fun _ => by rw [writings]
  | .named _ _ _ h, hscope => by
      obtain ⟨hnames, hvisible⟩ := visible_name hscope h
      exact ⟨hscope, by rw [hnames, List.append_nil], hvisible⟩

theorem ReadsMembers.visible {scope scope' : Scope} {space : Option String} {seen : List String}
    {items : List Json} {schemas : List Schema} :
    ReadsMembers scope space seen items schemas scope' → scope.Settled →
      scope'.Settled ∧
        scope'.claimed =
          scope.claimed ++ Writing.names (writingsOfMembers space scope.claimed schemas) ∧
        EachReference Visible scope.claimed (writingsOfMembers space scope.claimed schemas)
  | .nil, hscope => by
      rw [writingsOfMembers, Writing.names_nil, List.append_nil]
      exact ⟨hscope, rfl, eachReference_nil⟩
  | .cons h _ _ hrest, hscope => by
      obtain ⟨hbetween, hnames, hvisible⟩ := h.visible hscope
      obtain ⟨hscope', hnamesRest, hvisibleRest⟩ := hrest.visible hbetween
      rw [hnames] at hnamesRest hvisibleRest
      rw [writingsOfMembers, Writing.names_append, ← List.append_assoc]
      exact ⟨hscope', hnamesRest, eachReference_append hvisible hvisibleRest⟩

theorem ReadsFields.visible {scope scope' : Scope} {space : Option String} {seen : List String}
    {items : List Json} {fields : List Field} :
    ReadsFields scope space seen items fields scope' → scope.Settled →
      scope'.Settled ∧
        scope'.claimed =
          scope.claimed ++ Writing.names (writingsOfFields space scope.claimed fields) ∧
        EachReference Visible scope.claimed (writingsOfFields space scope.claimed fields)
  | .nil, hscope => by
      rw [writingsOfFields, Writing.names_nil, List.append_nil]
      exact ⟨hscope, rfl, eachReference_nil⟩
  | .cons _ _ h _ hrest, hscope => by
      obtain ⟨hbetween, hnames, hvisible⟩ := h.visible hscope
      obtain ⟨hscope', hnamesRest, hvisibleRest⟩ := hrest.visible hbetween
      rw [hnames] at hnamesRest hvisibleRest
      rw [writingsOfFields, writingsOfField_eq, Writing.names_append, ← List.append_assoc]
      exact ⟨hscope', hnamesRest, eachReference_append hvisible hvisibleRest⟩

end

theorem visible_of_ofJson {value : Json} {schema : Schema} (h : ofJson value = .ok schema) :
    EachReference Visible [] (writings none [] schema) := by
  obtain ⟨scope, hreads⟩ := ofJson_eq_ok_iff.mp h
  exact (hreads.visible Scope.settled_empty).2.2

/-! ## Names in what is written -/

/-- A schema was read from a value, or was registered when a document was declared. -/
def Produced (schema : Schema) : Prop :=
  (∃ value, ofJson value = .ok schema) ∨
    ∃ settings document, ∃ type ∈ (Registry.declareAll {} settings document).2.types,
      type.schema? = some schema

theorem Produced.keepsSpaces {schema : Schema} (h : Produced schema) : KeepsSpaces schema := by
  have hchecked : ∀ head : TypeHead, head.Checked → "namespace" ∉ head.props.keys := by
    intro head hhead
    exact hhead.notMem_props (by decide)
  rcases h with ⟨value, hvalue⟩ | ⟨settings, document, type, htype, hschema⟩
  · exact (allLegal_of_ofJson hvalue).checked.imp hchecked
  · have hdraft : ∀ name space doc,
        "namespace" ∉ ({ name, space, doc } : TypeHead).props.keys := by
      intro name space doc
      exact List.not_mem_nil
    exact Registry.allHeads_declareAll hchecked hdraft settings document type htype schema hschema

/-- The name that is written for a type denotes it where it is read again exactly if the type is
defined before, the name is no primitive's, and no other type hides it.  In a schema that leaves no
name open the type is always defined before, and in a schema that was read only a primitive's name
fails. -/
theorem reference_denotes_iff {schema : Schema} {json : Json} {before after : List Writing}
    {space : Option String} {fullName : String} (hproduced : Produced schema)
    (hjson : schema.toJson = .ok json)
    (hwritings : writings none [] schema = before ++ .reference space fullName :: after) :
    ∃ first within later,
      json.marks [] none = first ++ .mentions within space (referenceText space fullName) :: later ∧
        List.Forall₂ Shows first before ∧ List.Forall₂ Shows later after ∧
        (Denotes (definedNames first) space (referenceText space fullName) fullName ↔
          fullName ∈ definedNames first ∧
            PrimitiveKind.ofName? (referenceText space fullName) = none ∧
            ¬ Hidden (definedNames first) space fullName) ∧
        ((∀ name, ¬ LeavesOpen schema name) → fullName ∈ definedNames first) ∧
        ((∃ value, ofJson value = .ok schema) →
          (Denotes (definedNames first) space (referenceText space fullName) fullName ↔
            PrimitiveKind.ofName? (referenceText space fullName) = none)) := by
  obtain ⟨written, hwrites⟩ := toJson_eq_ok_iff.mp hjson
  have hshows := hwrites.shows [] hproduced.keepsSpaces (by decide)
  rw [hwritings] at hshows
  obtain ⟨first, within, later, hmarks, hfirst, hlater, hspace⟩ := exists_mark_of_shows hshows
  have hnames : definedNames first = [] ++ Writing.names before := names_of_shows hfirst
  have hdenotes : Denotes (definedNames first) space (referenceText space fullName) fullName ↔
      fullName ∈ definedNames first ∧
        PrimitiveKind.ofName? (referenceText space fullName) = none ∧
        ¬ Hidden (definedNames first) space fullName := denotes_referenceText_iff hspace
  refine ⟨first, within, later, hmarks, hfirst, hlater, hdenotes, ?_, ?_⟩
  · intro hclosed
    have hopen : ∀ name, LeavesOpen schema name → name ∈ [] := by
      intro name hname
      exact absurd hname (hclosed name)
    have hdefined := @writings_defined none [] schema hopen
    rw [hnames]
    exact hdefined before space fullName after hwritings
  · rintro ⟨value, hvalue⟩
    obtain ⟨hmem, hhidden⟩ := visible_of_ofJson hvalue before space fullName after hwritings
    rw [← hnames] at hmem hhidden
    rw [hdenotes]
    constructor
    · rintro ⟨-, hkind, -⟩
      exact hkind
    · intro hkind
      exact ⟨hmem, hkind, hhidden⟩

/-- A record that uses a type of its own namespace twice, in the second field by its full name. -/
def sharingRecord (name : String) : Json :=
  .obj [("type", .str "record"), ("name", .str "R"), ("namespace", .str "a"), ("fields", .arr [
    .obj [("name", .str "x"), ("type", .obj [("type", .str "fixed"), ("name", .str name),
      ("size", .ofUInt64 4)])],
    .obj [("name", .str "y"), ("type", .str ("a." ++ name))]])]

/-- The schema of `sharingRecord`. -/
def sharingSchema (name : String) : Schema :=
  record { name := "R", space := some "a" } false [
    { name := "x", schema := fixed { name, space := some "a" } 4 },
    { name := "y", schema := fixed { name, space := some "a" } 4 }]

theorem reference_denotes_sharingRecord :
    ofJson (sharingRecord "Word") = .ok (sharingSchema "Word") ∧
      ∃ json first within later, (sharingSchema "Word").toJson = .ok json ∧
        json.marks [] none = first ++ .mentions within (some "a") "Word" :: later ∧
          Denotes (definedNames first) (some "a") "Word" "a.Word" := by
  have hread : ofJson (sharingRecord "Word") = .ok (sharingSchema "Word") := rfl
  have hjson : (sharingSchema "Word").toJson = .ok _ := rfl
  have hwritings : writings none [] (sharingSchema "Word") =
      [.definition "a.R", .definition "a.Word"] ++ .reference (some "a") "a.Word" :: [] := by
    decide
  have htext : referenceText (some "a") "a.Word" = "Word" := by decide
  obtain ⟨first, within, later, hmarks, -, -, -, -, hparsed⟩ :=
    reference_denotes_iff (.inl ⟨_, hread⟩) hjson hwritings
  have hdenotes := (hparsed ⟨_, hread⟩).mpr (by decide)
  rw [htext] at hmarks hdenotes
  exact ⟨hread, _, first, within, later, hjson, hmarks, hdenotes⟩

/-- The name that is written for a type called as a primitive type is read as the primitive. -/
theorem exists_reference_to_primitive :
    ofJson (sharingRecord "int") = .ok (sharingSchema "int") ∧
      writings none [] (sharingSchema "int") =
        [.definition "a.R", .definition "a.int", .reference (some "a") "a.int"] ∧
      ∃ json first within, (sharingSchema "int").toJson = .ok json ∧
        json.marks [] none = first ++ [.mentions within (some "a") "int"] ∧
          PrimitiveKind.ofName? "int" = some .int ∧
          ¬ Denotes (definedNames first) (some "a") "int" "a.int" := by
  have hjson : (sharingSchema "int").toJson = .ok _ := rfl
  refine ⟨rfl, by decide, _, [.defines [] ⟨"R", some "a", none⟩,
    .defines ["a.R"] ⟨"int", none, some "a"⟩], ["a.R"], hjson, by decide, by decide, by decide⟩

end Schema

end EventSchema
