import EventSchema.Proofs.Enclosure
import EventSchema.Proofs.Unrolling

/-!
# How far recursive records unroll

A record that refers to itself is put into itself once.  If it also refers to a
record around it, then the copies are put into each other when that record is
finished.  The main statement is that no path of a schema passes three records
of one full name exactly if no record of the value both refers to itself and to
a record around it, each directly or through the types that it mentions.
-/

namespace EventSchema

open Mark (definedNames)

/-- A record that leaves itself open leaves no record around it open. -/
def Confined (marks : List Mark) (within : List String) (fullName : String) : Prop :=
  Opens marks fullName fullName → ∀ outside ∈ within, ¬ Opens marks fullName outside

/-- The types defined at these places, after those before, are confined. -/
def AllConfined (before marks : List Mark) : Prop :=
  ∀ within definition, .defines within definition ∈ marks →
    Confined (before ++ marks) within (Definition.fullName definition)

section Places

variable {before marks more : List Mark} {within : List String} {definition : Definition}
  {fullName : String}

theorem Mark.fullName_mem_definedNames (h : .defines within definition ∈ marks) :
    definition.fullName ∈ definedNames marks := by
  have hdefinition : definition ∈ Mark.definitions marks :=
    List.mem_filterMap.mpr ⟨_, h, rfl⟩
  exact List.mem_map_of_mem hdefinition

theorem confined_append (h : ∀ mark ∈ more, fullName ∉ mark.within) :
    Confined (marks ++ more) within fullName ↔ Confined marks within fullName := by
  simp only [Confined, opens_append h]

theorem allConfined_nil : AllConfined before [] := by
  intro within definition hmem
  cases hmem

theorem allConfined_mentions {space : Option String} {name : String} :
    AllConfined before [.mentions within space name] := by
  intro around definition hmem
  simp at hmem

theorem allConfined_append
    (h : ∀ fullName ∈ definedNames marks, ∀ mark ∈ more, fullName ∉ mark.within) :
    AllConfined before (marks ++ more) ↔
      AllConfined before marks ∧ AllConfined (before ++ marks) more := by
  have hfirst : ∀ within definition, .defines within definition ∈ marks →
      (Confined (before ++ (marks ++ more)) within definition.fullName ↔
        Confined (before ++ marks) within definition.fullName) := by
    intro within definition hmem
    rw [← List.append_assoc]
    exact confined_append (h _ (Mark.fullName_mem_definedNames hmem))
  constructor
  · intro hall
    constructor
    · intro within definition hmem
      exact (hfirst within definition hmem).mp
        (hall within definition (List.mem_append_left _ hmem))
    · intro within definition hmem
      rw [List.append_assoc]
      exact hall within definition (List.mem_append_right _ hmem)
  · rintro ⟨hmarks, hmore⟩ within definition hmem
    rcases List.mem_append.mp hmem with hmem | hmem
    · exact (hfirst within definition hmem).mpr (hmarks within definition hmem)
    · rw [← List.append_assoc]
      exact hmore within definition hmem

theorem allConfined_defines :
    AllConfined before (.defines within definition :: marks) ↔
      Confined (before ++ [.defines within definition] ++ marks) within definition.fullName ∧
        AllConfined (before ++ [.defines within definition]) marks := by
  rw [AllConfined, AllConfined, List.append_assoc, List.singleton_append]
  constructor
  · intro hall
    refine ⟨hall within definition List.mem_cons_self, ?_⟩
    intro around other hmem
    exact hall around other (List.mem_cons_of_mem _ hmem)
  · rintro ⟨hself, hmarks⟩ around other hmem
    rcases List.mem_cons.mp hmem with heq | hmem
    · cases heq
      exact hself
    · exact hmarks around other hmem

end Places

namespace Schema

/-! ## New names -/

/-- The names defined at these places are not claimed yet, nor are records around the places that
are not open. -/
structure Fresh (claimed within : List String) (marks : List Mark) : Prop where
  defined : ∀ fullName ∈ definedNames marks, fullName ∉ claimed
  around : ∀ mark ∈ marks, ∀ fullName ∈ mark.within, fullName ∈ within ∨ fullName ∉ claimed

section Fresh

variable {claimed within : List String} {first rest : List Mark} {space : Option String}
  {name : String} {definition : Definition}

theorem fresh_nil : Fresh claimed within [] :=
  ⟨List.forall_mem_nil _, List.forall_mem_nil _⟩

theorem fresh_mentions : Fresh claimed within [.mentions within space name] := by
  constructor
  · exact List.forall_mem_nil _
  · intro mark hmark fullName hmem
    rw [List.mem_singleton.mp hmark] at hmem
    exact .inl hmem

/-- Names that are new after some were defined were new before. -/
theorem Fresh.append (hfirst : Fresh claimed within first)
    (hrest : Fresh (claimed ++ definedNames first) within rest) :
    Fresh claimed within (first ++ rest) := by
  constructor
  · intro fullName hmem hclaimed
    rw [Mark.definedNames_append] at hmem
    rcases List.mem_append.mp hmem with hmem | hmem
    · exact hfirst.defined fullName hmem hclaimed
    · exact hrest.defined fullName hmem (List.mem_append_left _ hclaimed)
  · intro mark hmark fullName hmem
    rcases List.mem_append.mp hmark with hmark | hmark
    · exact hfirst.around mark hmark fullName hmem
    · refine (hrest.around mark hmark fullName hmem).imp_right ?_
      intro hnew hclaimed
      exact hnew (List.mem_append_left _ hclaimed)

theorem Fresh.record (hnew : definition.fullName ∉ claimed)
    (hrest : Fresh (claimed ++ [definition.fullName]) (within ++ [definition.fullName]) rest) :
    Fresh claimed within (.defines within definition :: rest) := by
  constructor
  · intro fullName hmem hclaimed
    rw [Mark.definedNames_defines] at hmem
    rcases List.mem_cons.mp hmem with rfl | hmem
    · exact hnew hclaimed
    · exact hrest.defined fullName hmem (List.mem_append_left _ hclaimed)
  · intro mark hmark fullName hmem
    rcases List.mem_cons.mp hmark with rfl | hmark
    · exact .inl hmem
    · rcases hrest.around mark hmark fullName hmem with hopen | hother
      · rcases List.mem_append.mp hopen with hopen | hself
        · exact .inl hopen
        · rw [List.mem_singleton.mp hself]
          exact .inr hnew
      · exact .inr fun hclaimed => hother (List.mem_append_left _ hclaimed)

/-- No place after a definition lies inside it. -/
theorem Fresh.notMem_within (hfirst : Fresh claimed within first)
    (hrest : Fresh (claimed ++ definedNames first) within rest)
    (hwithin : ∀ fullName ∈ within, fullName ∈ claimed) :
    ∀ fullName ∈ definedNames first, ∀ mark ∈ rest, fullName ∉ mark.within := by
  intro fullName hdefined mark hmark hmem
  rcases hrest.around mark hmark fullName hmem with hopen | hnew
  · exact hfirst.defined fullName hdefined (hwithin fullName hopen)
  · exact hnew (List.mem_append_right _ hdefined)

end Fresh

mutual

/-- A reading defines new names only. -/
theorem Reads.fresh {scope scope' : Scope} {space : Option String} {value : Json}
    {schema : Schema} {within : List String} :
    Reads scope space value schema scope' →
      Fresh scope.claimed within (value.marks within space)
  | .name _ => by
      rw [Json.marks]
      exact fresh_mentions
  | .union h => by
      rw [Json.marks]
      exact h.fresh
  | @Reads.primitive _ _ _ kind htype => by
      rw [Json.marks_of_word htype (name_notMem_typeWords kind)]
      exact fresh_mentions
  | .array htype hvalue h => by
      rw [Json.marks_of_array htype hvalue]
      exact h.fresh
  | .map htype hvalue h => by
      rw [Json.marks_of_map htype hvalue]
      exact h.fresh
  | .record htype hhead hclaim hvalue h => by
      have hnew := (Scope.claim_eq_ok_iff.mp hclaim).2.1
      rw [← hhead.fullName_definition] at hnew hclaim
      rw [Json.marks_of_record htype hvalue, hhead.innerSpace_definition]
      apply Fresh.record hnew
      rw [← claimed_of_claim hclaim]
      exact h.fresh
  | .enum htype hhead hclaim _ _ _ => by
      have hnew := (Scope.claim_eq_ok_iff.mp hclaim).2.1
      rw [← hhead.fullName_definition] at hnew
      rw [Json.marks_of_enum htype]
      exact Fresh.record hnew fresh_nil
  | .fixed htype hhead hclaim _ _ => by
      have hnew := (Scope.claim_eq_ok_iff.mp hclaim).2.1
      rw [← hhead.fullName_definition] at hnew
      rw [Json.marks_of_fixed htype]
      exact Fresh.record hnew fresh_nil
  | .named htype _ hword _ => by
      rw [Json.marks_of_word htype hword]
      exact fresh_mentions

theorem ReadsMembers.fresh {scope scope' : Scope} {space : Option String} {seen : List String}
    {items : List Json} {schemas : List Schema} {within : List String} :
    ReadsMembers scope space seen items schemas scope' →
      Fresh scope.claimed within (Json.marksOfItems within space items)
  | .nil => fresh_nil
  | .cons h _ _ hrest => by
      rw [Json.marksOfItems]
      apply Fresh.append h.fresh
      rw [← h.claimed within]
      exact hrest.fresh

theorem ReadsFields.fresh {scope scope' : Scope} {space : Option String} {seen : List String}
    {items : List Json} {fields : List Field} {within : List String} :
    ReadsFields scope space seen items fields scope' →
      Fresh scope.claimed within (Json.marksOfFieldItems within space items)
  | .nil => fresh_nil
  | .cons _ hvalue h _ hrest => by
      rw [Json.marksOfFieldItems, Json.marksOfField, Json.marksOfMember_of_get? hvalue]
      apply Fresh.append h.fresh
      rw [← h.claimed within]
      exact hrest.fresh

end

/-- The places of a value are confined together with later ones if both are confined. -/
theorem Reads.allConfined_append {scope between : Scope} {space : Option String} {value : Json}
    {schema : Schema} {before rest : List Mark} {within : List String}
    (h : Reads scope space value schema between) (htracks : Tracks before within scope)
    (hrest : Fresh between.claimed within rest) :
    AllConfined before (value.marks within space ++ rest) ↔
      AllConfined before (value.marks within space) ∧
        AllConfined (before ++ value.marks within space) rest := by
  apply EventSchema.allConfined_append
  rw [h.claimed within] at hrest
  refine Fresh.notMem_within h.fresh hrest ?_
  intro fullName hopen
  exact (htracks.opened.mp hopen).1

theorem Tracks.allConfined_leaf {scope opened : Scope} {before : List Mark}
    {within : List String} {definition : Definition} (htracks : Tracks before within scope)
    (hclaim : scope.claim definition.fullName = .ok opened) :
    AllConfined before [.defines within definition] := by
  obtain ⟨hwithin, hbefore⟩ := htracks.notMem_of_fresh (Scope.claim_eq_ok_iff.mp hclaim).2.1
  rw [allConfined_defines]
  refine ⟨?_, allConfined_nil⟩
  intro hself
  refine absurd hself (not_opens ?_)
  rw [List.append_nil]
  intro mark hmark
  rcases List.mem_append.mp hmark with hmark | hmark
  · exact hbefore mark hmark
  · rw [List.mem_singleton.mp hmark]
    exact hwithin

/-! ## Confined records unroll once -/

section Records

variable {scope scope' opened : Scope} {space : Option String} {before : List Mark}
  {within : List String} {items : List Json} {fields : List Field} {definition : Definition}
  {outside : String}

/-- What the fields of a record leave open, its definition leaves open. -/
theorem ReadsFields.opens_iff
    (h : ReadsFields opened space [] items fields scope') (htracks : Tracks before within scope)
    (hclaim : scope.claim definition.fullName = .ok opened) :
    Opens (before ++ [.defines within definition] ++
        Json.marksOfFieldItems (within ++ [definition.fullName]) space items)
      definition.fullName outside ↔
        ∃ field ∈ fields, LeavesOpen (FieldOf.schema field) outside := by
  obtain ⟨hwithin, hbefore⟩ := htracks.notMem_of_fresh (Scope.claim_eq_ok_iff.mp hclaim).2.1
  obtain ⟨-, hmarks, hleaves⟩ := h.tracks (htracks.defines hclaim)
  rw [hleaves outside, opens_record ?_ hwithin hmarks]
  intro mark hmark
  rcases List.mem_append.mp hmark with hmark | hmark
  · exact hbefore mark hmark
  · rw [List.mem_singleton.mp hmark]
    exact hwithin

/-- A confined record that its fields refer to is finished with complete fields. -/
theorem ReadsFields.complete {schema : Schema}
    (h : ReadsFields opened space [] items fields scope') (htracks : Tracks before within scope)
    (hclaim : scope.claim definition.fullName = .ok opened)
    (hconfined : Confined (before ++ [.defines within definition] ++
      Json.marksOfFieldItems (within ++ [definition.fullName]) space items) within
        definition.fullName)
    (hself : ∃ field ∈ fields, LeavesOpen (FieldOf.schema field) definition.fullName) :
    ∀ field ∈ fields,
      (scope'.finish definition.fullName schema).Complete (FieldOf.schema field) := by
  obtain ⟨htracks', -, hleaves⟩ := h.tracks (htracks.defines hclaim)
  have hopen : scope'.finished.get? definition.fullName = none :=
    (htracks'.opened.mp (by simp)).2
  intro field hfield outside houtside hin
  have hne : outside ≠ definition.fullName := by
    rintro rfl
    rw [Scope.get?_finished_finish_self hopen] at houtside
    cases houtside
  have hclaimed : outside ∈ scope'.claimed := by
    rw [htracks'.claimed]
    exact ((hleaves outside).mp ⟨field, hfield, hin⟩).mem
  have hunfinished := (scope'.keeps_finish definition.fullName schema).notFinished houtside
  have hwithin : outside ∈ within := by
    rcases List.mem_append.mp (htracks'.opened.mpr ⟨hclaimed, hunfinished⟩) with hmem | hmem
    · exact hmem
    · exact absurd (List.mem_singleton.mp hmem) hne
  exact hconfined ((h.opens_iff htracks hclaim).mpr hself) outside hwithin
    ((h.opens_iff htracks hclaim).mpr ⟨field, hfield, hin⟩)

end Records

mutual

/-- A value with confined records is read as a schema with sparing paths. -/
theorem Reads.unrolls {scope scope' : Scope} {space : Option String} {value : Json}
    {schema : Schema} {before : List Mark} {within : List String} :
    Reads scope space value schema scope' → Tracks before within scope → scope.Coherent →
      scope.Unrolled → AllConfined before (value.marks within space) →
        scope'.Unrolled ∧ scope'.Unrolls schema
  | .name h, _, _, hscope, _ => ⟨hscope, hscope.schemaOfName h⟩
  | .union h, htracks, hcoherent, hscope, hconfined => by
      rw [Json.marks] at hconfined
      obtain ⟨hscope', hmembers⟩ := h.unrolls htracks hcoherent hscope hconfined
      exact ⟨hscope', Scope.unrolls_union hmembers⟩
  | .primitive _, _, _, hscope, _ => ⟨hscope, Scope.unrolls_primitive⟩
  | .array htype hvalue h, htracks, hcoherent, hscope, hconfined => by
      rw [Json.marks_of_array htype hvalue] at hconfined
      obtain ⟨hscope', hitems⟩ := h.unrolls htracks hcoherent hscope hconfined
      exact ⟨hscope', Scope.unrolls_array hitems⟩
  | .map htype hvalue h, htracks, hcoherent, hscope, hconfined => by
      rw [Json.marks_of_map htype hvalue] at hconfined
      obtain ⟨hscope', hvalues⟩ := h.unrolls htracks hcoherent hscope hconfined
      exact ⟨hscope', Scope.unrolls_map hvalues⟩
  | @Reads.record _ _ members head isError items fields opened after htype hhead hclaim hvalue h,
      htracks, hcoherent, hscope, hconfined => by
      have hopened := hscope.claim hclaim
      have hbelow := hcoherent.claim hclaim
      have hfullName := hhead.fullName_definition
      rw [← hfullName] at hclaim
      rw [Json.marks_of_record htype hvalue, hhead.innerSpace_definition] at hconfined
      obtain ⟨hself, hinside⟩ := allConfined_defines.mp hconfined
      have htracksOpened := htracks.defines hclaim
      obtain ⟨hafter, hfields⟩ := h.unrolls htracksOpened hbelow hopened hinside
      have hopen : after.finished.get? head.fullName = none := by
        rw [← hfullName]
        exact ((h.tracks htracksOpened).1.opened.mp (by simp)).2
      -- Only here do paths grow, and only if the record refers to itself.
      have hunrolls := @Scope.unrolls_finish _ _ isError _ hopen hfields (by
        rw [← hfullName]
        exact h.complete htracks hclaim hself)
      exact ⟨hafter.finish hunrolls, hunrolls⟩
  | .enum _ _ hclaim _ _ _, _, hcoherent, hscope, _ => by
      refine hscope.finish_leaf hcoherent.settled hclaim rfl rfl ?_
      rintro path node ⟨⟩
      exact ⟨rfl, rfl⟩
  | .fixed _ _ hclaim _ _, _, hcoherent, hscope, _ => by
      refine hscope.finish_leaf hcoherent.settled hclaim rfl rfl ?_
      rintro path node ⟨⟩
      exact ⟨rfl, rfl⟩
  | .named _ _ _ h, _, _, hscope, _ => ⟨hscope, hscope.schemaOfName h⟩

theorem ReadsMembers.unrolls {scope scope' : Scope} {space : Option String}
    {seen : List String} {items : List Json} {schemas : List Schema} {before : List Mark}
    {within : List String} :
    ReadsMembers scope space seen items schemas scope' → Tracks before within scope →
      scope.Coherent → scope.Unrolled →
        AllConfined before (Json.marksOfItems within space items) →
          scope'.Unrolled ∧ ∀ member ∈ schemas, scope'.Unrolls member
  | .nil, _, _, hscope, _ => ⟨hscope, List.forall_mem_nil _⟩
  | .cons h _ _ hrest, htracks, hcoherent, hscope, hconfined => by
      rw [Json.marksOfItems, h.allConfined_append htracks hrest.fresh] at hconfined
      obtain ⟨hbetween, hfirst⟩ := h.unrolls htracks hcoherent hscope hconfined.1
      have hcoherentBetween := (h.coherent hcoherent).1
      obtain ⟨hscope', hothers⟩ :=
        hrest.unrolls (h.tracks htracks).1 hcoherentBetween hbetween hconfined.2
      have hkeeps := hrest.keeps hcoherentBetween.settled
      exact ⟨hscope', List.forall_mem_cons.mpr ⟨hkeeps.unrolls hfirst, hothers⟩⟩

theorem ReadsFields.unrolls {scope scope' : Scope} {space : Option String}
    {seen : List String} {items : List Json} {fields : List Field} {before : List Mark}
    {within : List String} :
    ReadsFields scope space seen items fields scope' → Tracks before within scope →
      scope.Coherent → scope.Unrolled →
        AllConfined before (Json.marksOfFieldItems within space items) →
          scope'.Unrolled ∧ ∀ field ∈ fields, scope'.Unrolls (FieldOf.schema field)
  | .nil, _, _, hscope, _ => ⟨hscope, List.forall_mem_nil _⟩
  | .cons _ hvalue h _ hrest, htracks, hcoherent, hscope, hconfined => by
      rw [Json.marksOfFieldItems, Json.marksOfField, Json.marksOfMember_of_get? hvalue,
        h.allConfined_append htracks hrest.fresh] at hconfined
      obtain ⟨hbetween, hfirst⟩ := h.unrolls htracks hcoherent hscope hconfined.1
      have hcoherentBetween := (h.coherent hcoherent).1
      obtain ⟨hscope', hothers⟩ :=
        hrest.unrolls (h.tracks htracks).1 hcoherentBetween hbetween hconfined.2
      have hkeeps := hrest.keeps hcoherentBetween.settled
      exact ⟨hscope', List.forall_mem_cons.mpr ⟨hkeeps.unrolls hfirst, hothers⟩⟩

end

/-! ## Other records unroll further -/

/-- Some path passes three records of one full name, or two on the way to a reference to a record
that is still open. -/
def Overflows (within : List String) (schema : Schema) : Prop :=
  (∃ path node fullName, Occurs path node schema ∧ 2 < (passed path node).count fullName) ∨
    ∃ outside ∈ within, ∃ path fullName, Occurs path (ref outside) schema ∧
      2 ≤ path.count fullName

theorem Overflows.of_part {part schema : Schema} {within : List String}
    (hpart : ∀ {path node}, Occurs path node part → Occurs path node schema)
    (h : Overflows within part) : Overflows within schema := by
  rcases h with ⟨path, node, fullName, hnode, hcount⟩ | ⟨outside, hopen, path, fullName, hnode,
    hcount⟩
  · exact .inl ⟨path, node, fullName, hpart hnode, hcount⟩
  · exact .inr ⟨outside, hopen, path, fullName, hpart hnode, hcount⟩

section Closing

variable {head : TypeHead} {isError : Bool} {fields : List Field} {field other : Field}
  {path inner within : List String} {node : Schema} {outside : String}

theorem Occurs.closeRecord (hfield : field ∈ fields) (h : Occurs path node field.schema) :
    Occurs (head.fullName :: path) (Schema.close head.fullName (record head isError fields) node)
      (Schema.closeRecord head isError fields) := by
  rw [closeRecord_eq_close]
  exact Occurs.close (.field hfield h)

/-- A reference to the record itself leads into the record as it was read. -/
theorem Occurs.closeRecord_trans (hfield : field ∈ fields)
    (href : Occurs path (ref head.fullName) field.schema)
    (hnode : Occurs inner node (record head isError fields)) :
    Occurs (head.fullName :: path ++ inner) node (Schema.closeRecord head isError fields) := by
  have hclosed := @Occurs.closeRecord head isError fields _ _ _ hfield href
  rw [Schema.close, if_pos rfl] at hclosed
  exact hclosed.trans hnode

theorem count_passed_close (fullName : String) (definition : Schema) (found : String) :
    (passed path node).count found ≤
      (passed path (close fullName definition node)).count found := by
  by_cases href : node = ref fullName
  · rw [href, passed_ref, close, if_pos rfl, passed, List.count_append]
    exact Nat.le_add_right _ _
  · exact Nat.le_of_eq (by rw [passed_close href])

/-- What overflows in a field overflows in the record: a reference that is closed leads through
the field again. -/
theorem Overflows.closeRecord (hfield : field ∈ fields) (hnew : head.fullName ∉ within)
    (h : Overflows (within ++ [head.fullName]) field.schema) :
    Overflows within (Schema.closeRecord head isError fields) := by
  rcases h with ⟨path, node, fullName, hnode, hcount⟩ | ⟨outside, hopen, path, fullName, hnode,
    hcount⟩
  · left
    refine ⟨_, _, fullName, hnode.closeRecord hfield, ?_⟩
    have hclosed := @count_passed_close path node head.fullName (record head isError fields)
      fullName
    rw [← List.singleton_append, passed_append, List.count_append]
    omega
  · rcases List.mem_append.mp hopen with hopen | hself
    · right
      have hne : outside ≠ head.fullName := ne_of_mem_of_not_mem hopen hnew
      have hclosed := @Occurs.closeRecord head isError fields _ _ _ hfield hnode
      rw [Schema.close, if_neg hne] at hclosed
      refine ⟨outside, hopen, _, fullName, hclosed, ?_⟩
      exact Nat.le_trans hcount (List.count_le_count_cons ..)
    · -- The closed reference leads through the same field a second time.
      left
      obtain rfl := List.mem_singleton.mp hself
      have htwice := @Occurs.closeRecord_trans head isError fields _ _ _ _ hfield hnode
        (.field hfield hnode)
      refine ⟨_, _, fullName, htwice, ?_⟩
      rw [passed_ref, List.count_append]
      have hfirst : path.count fullName ≤ (head.fullName :: path).count fullName :=
        List.count_le_count_cons ..
      omega

/-- A record that refers to itself and to an open record overflows. -/
theorem overflows_closeRecord (hfield : field ∈ fields) (hother : other ∈ fields)
    (hself : LeavesOpen field.schema head.fullName) (hopen : outside ∈ within)
    (hleaves : LeavesOpen other.schema outside) :
    Overflows within (Schema.closeRecord head isError fields) := by
  obtain ⟨path, href, -⟩ := hself
  obtain ⟨inner, hnode, -⟩ := hleaves
  have htwice := @Occurs.closeRecord_trans head isError fields _ _ _ _ hfield href
    (.field hother hnode)
  refine .inr ⟨outside, hopen, _, head.fullName, htwice, ?_⟩
  rw [List.count_append, List.count_cons_self, List.count_cons_self]
  omega

end Closing

mutual

/-- A value with a record that is not confined is read as a schema that overflows. -/
theorem Reads.overflows {scope scope' : Scope} {space : Option String} {value : Json}
    {schema : Schema} {before : List Mark} {within : List String} :
    Reads scope space value schema scope' → Tracks before within scope →
      ¬ AllConfined before (value.marks within space) → Overflows within schema
  | .name _, _, hconfined => by
      rw [Json.marks] at hconfined
      exact absurd allConfined_mentions hconfined
  | .union h, htracks, hconfined => by
      rw [Json.marks] at hconfined
      obtain ⟨member, hmember, hoverflows⟩ := h.overflows htracks hconfined
      exact hoverflows.of_part (.member hmember)
  | @Reads.primitive _ _ _ kind htype, _, hconfined => by
      rw [Json.marks_of_word htype (name_notMem_typeWords kind)] at hconfined
      exact absurd allConfined_mentions hconfined
  | .array htype hvalue h, htracks, hconfined => by
      rw [Json.marks_of_array htype hvalue] at hconfined
      exact (h.overflows htracks hconfined).of_part .items
  | .map htype hvalue h, htracks, hconfined => by
      rw [Json.marks_of_map htype hvalue] at hconfined
      exact (h.overflows htracks hconfined).of_part .values
  | @Reads.record _ _ members head isError items fields opened after htype hhead hclaim hvalue h,
      htracks, hconfined => by
      have hfullName := hhead.fullName_definition
      rw [← hfullName] at hclaim
      have hnew := (htracks.notMem_of_fresh (Scope.claim_eq_ok_iff.mp hclaim).2.1).1
      have htracksOpened := htracks.defines hclaim
      rw [Json.marks_of_record htype hvalue, hhead.innerSpace_definition, allConfined_defines,
        not_and_or] at hconfined
      rcases hconfined with hself | hinside
      · simp only [Confined, not_forall, not_not] at hself
        obtain ⟨hrefers, outside, hopen, hleaves⟩ := hself
        obtain ⟨field, hfield, hfieldLeaves⟩ := (h.opens_iff htracks hclaim).mp hrefers
        obtain ⟨other, hother, hotherLeaves⟩ := (h.opens_iff htracks hclaim).mp hleaves
        rw [hfullName] at hfieldLeaves
        exact overflows_closeRecord hfield hother hfieldLeaves hopen hotherLeaves
      · obtain ⟨field, hfield, hoverflows⟩ := h.overflows htracksOpened hinside
        rw [hfullName] at hnew hoverflows
        exact hoverflows.closeRecord hfield hnew
  | .enum htype hhead hclaim _ _ _, htracks, hconfined => by
      rw [← hhead.fullName_definition] at hclaim
      rw [Json.marks_of_enum htype] at hconfined
      exact absurd (htracks.allConfined_leaf hclaim) hconfined
  | .fixed htype hhead hclaim _ _, htracks, hconfined => by
      rw [← hhead.fullName_definition] at hclaim
      rw [Json.marks_of_fixed htype] at hconfined
      exact absurd (htracks.allConfined_leaf hclaim) hconfined
  | .named htype _ hword _, _, hconfined => by
      rw [Json.marks_of_word htype hword] at hconfined
      exact absurd allConfined_mentions hconfined

theorem ReadsMembers.overflows {scope scope' : Scope} {space : Option String}
    {seen : List String} {items : List Json} {schemas : List Schema} {before : List Mark}
    {within : List String} :
    ReadsMembers scope space seen items schemas scope' → Tracks before within scope →
      ¬ AllConfined before (Json.marksOfItems within space items) →
        ∃ member ∈ schemas, Overflows within member
  | .nil, _, hconfined => absurd allConfined_nil hconfined
  | .cons h _ _ hrest, htracks, hconfined => by
      rw [Json.marksOfItems, h.allConfined_append htracks hrest.fresh, not_and_or] at hconfined
      rcases hconfined with hfirst | hothers
      · exact ⟨_, List.mem_cons_self, h.overflows htracks hfirst⟩
      · obtain ⟨member, hmember, hoverflows⟩ :=
          hrest.overflows (h.tracks htracks).1 hothers
        exact ⟨member, List.mem_cons_of_mem _ hmember, hoverflows⟩

theorem ReadsFields.overflows {scope scope' : Scope} {space : Option String}
    {seen : List String} {items : List Json} {fields : List Field} {before : List Mark}
    {within : List String} :
    ReadsFields scope space seen items fields scope' → Tracks before within scope →
      ¬ AllConfined before (Json.marksOfFieldItems within space items) →
        ∃ field ∈ fields, Overflows within (FieldOf.schema field)
  | .nil, _, hconfined => absurd allConfined_nil hconfined
  | .cons _ hvalue h _ hrest, htracks, hconfined => by
      rw [Json.marksOfFieldItems, Json.marksOfField, Json.marksOfMember_of_get? hvalue,
        h.allConfined_append htracks hrest.fresh, not_and_or] at hconfined
      rcases hconfined with hfirst | hothers
      · exact ⟨_, List.mem_cons_self, h.overflows htracks hfirst⟩
      · obtain ⟨field, hfield, hoverflows⟩ :=
          hrest.overflows (h.tracks htracks).1 hothers
        exact ⟨field, List.mem_cons_of_mem _ hfield, hoverflows⟩

end

/-- No path of a schema passes three records of one full name exactly if no record of the value
refers both to itself and to a record around it. -/
theorem count_passed_le_iff {value : Json} {schema : Schema} (h : ofJson value = .ok schema) :
    (∀ path node fullName, Occurs path node schema → (passed path node).count fullName ≤ 2) ↔
      ∀ within definition, .defines within definition ∈ value.marks [] none →
        Confined (value.marks [] none) within definition.fullName := by
  obtain ⟨scope, hreads⟩ := ofJson_eq_ok_iff.mp h
  constructor
  · intro hcount
    by_contra hconfined
    rcases hreads.overflows tracks_empty hconfined with ⟨path, node, fullName, hnode, hlt⟩ |
      ⟨outside, hopen, -⟩
    · exact absurd (hcount path node fullName hnode) (Nat.not_le.mpr hlt)
    · cases hopen
  · intro hconfined path node fullName hnode
    have hunrolls := (hreads.unrolls tracks_empty Scope.coherent_empty Scope.unrolled_empty
      hconfined).2
    rcases hunrolls.sparing hnode fullName with hle | ⟨heq, -⟩
    · omega
    · omega

/-- A record that mentions itself has no record around it, and unrolls once. -/
theorem count_passed_le_listRecord :
    ∃ schema, ofJson listRecord = .ok schema ∧
      ∀ path node fullName, Occurs path node schema → (passed path node).count fullName ≤ 2 := by
  have h : ofJson listRecord = .ok _ := rfl
  refine ⟨_, h, (count_passed_le_iff h).mpr ?_⟩
  intro within definition hmem _ outside hopen
  have hmarks : listRecord.marks [] none = [.defines [] ⟨"List", none, none⟩,
      .mentions ["List"] none "null", .mentions ["List"] none "List"] := by decide
  have hwithin : within = [] := by
    simp only [hmarks, List.mem_cons, Mark.defines.injEq, reduceCtorEq, List.not_mem_nil,
      or_false] at hmem
    exact hmem.1
  rw [hwithin] at hopen
  cases hopen

/-- A folder of files, each of which mentions its folder and the next file. -/
def folderRecord : Json :=
  .obj [("type", .str "record"), ("name", .str "Folder"), ("fields", .arr [
    .obj [("name", .str "first"), ("type", .arr [.str "null",
      .obj [("type", .str "record"), ("name", .str "File"), ("fields", .arr [
        .obj [("name", .str "folder"), ("type", .arr [.str "null", .str "Folder"])],
        .obj [("name", .str "next"), ("type", .arr [.str "null", .str "File"])]])]])]])]

/-- A folder with this first file. -/
def folderOf (first : Schema) : Schema :=
  record { name := "Folder" } false [{ name := "first", schema := nullable first }]

/-- A file in this folder, followed by this file. -/
def fileOf (folder next : Schema) : Schema :=
  record { name := "File" } false
    [{ name := "folder", schema := nullable folder }, { name := "next", schema := nullable next }]

/-- The folder as it was when its file was finished. -/
def openFolder : Schema :=
  folderOf (fileOf (ref "Folder") (fileOf (ref "Folder") (ref "File")))

section Files

variable {path : List String} {node first folder next : Schema}

theorem Occurs.in_first (h : Occurs path node first) :
    Occurs ("Folder" :: path) node (folderOf first) := by
  have hname : TypeHead.fullName { name := "Folder" } = "Folder" := by decide
  rw [← hname]
  exact .field (.head _) (.member (.tail _ (.head _)) h)

theorem Occurs.in_folder (h : Occurs path node folder) :
    Occurs ("File" :: path) node (fileOf folder next) := by
  have hname : TypeHead.fullName { name := "File" } = "File" := by decide
  rw [← hname]
  exact .field (.head _) (.member (.tail _ (.head _)) h)

theorem Occurs.in_next (h : Occurs path node next) :
    Occurs ("File" :: path) node (fileOf folder next) := by
  have hname : TypeHead.fullName { name := "File" } = "File" := by decide
  rw [← hname]
  exact .field (.tail _ (.head _)) (.member (.tail _ (.head _)) h)

end Files

/-- A path through the folder passes four files: the file refers to itself and to the folder around
it, and the folder puts the copies of the file into each other. -/
theorem exists_four_files :
    ∃ schema, ofJson folderRecord = .ok schema ∧ ∃ path node, Occurs path node schema ∧
      (passed path node).count "File" = 4 := by
  have h : ofJson folderRecord =
      .ok (folderOf (fileOf openFolder (fileOf openFolder (ref "File")))) := rfl
  have hpath : Occurs ["Folder", "File", "File", "Folder", "File"]
      (fileOf (ref "Folder") (ref "File"))
      (folderOf (fileOf openFolder (fileOf openFolder (ref "File")))) :=
    .in_first (.in_next (.in_folder (.in_first (.in_next .here))))
  exact ⟨_, h, _, _, hpath, by decide⟩

end Schema

end EventSchema
