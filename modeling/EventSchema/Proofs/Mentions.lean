import EventSchema.Proofs.Places

/-!
# Mentions and the types that they stand for

A place of a value mentions a name, defines a type, or does neither.  The main
statement is that every mention of a type has become a named type of the full
name that it denotes there, with the outline of the definition, and that a union
with one record among its members, defined there or mentioned, gives it as its
only record.
-/

namespace EventSchema

open Mark (definedNames)

/-- What stands at a place: the mention of a name, the definition of a record or of another named
type, or none of them. -/
inductive Role where
  | mentions (name : String)
  | defines (isRecord : Bool) (fullName : String)
  | other
  deriving DecidableEq

/-- What a value within a namespace is: texts mention names, and so do objects whose type is not
one of the words of the format. -/
def Json.role (space : Option String) : Json → Role
  | .str name => .mentions name
  | .obj members =>
    match Entries.get? members "type" with
    | some (.str word) =>
      if word = "array" ∨ word = "map" then .other
      else if word = "record" ∨ word = "error" then
        .defines true (Definition.ofMembers space members).fullName
      else if word = "enum" ∨ word = "fixed" then
        .defines false (Definition.ofMembers space members).fullName
      else .mentions word
    | _ => .other
  | _ => .other

namespace Site

/-- What stands at a place. -/
def role (site : Site) : Role :=
  site.value.role site.space

/-- A place in a value defines a type of this full name. -/
def Defines (start : Site) (fullName : String) : Prop :=
  ∃ path site isRecord, Leads start path site ∧ site.role = .defines isRecord fullName

/-- A place denotes a record: it defines one, or it mentions a name that denotes a type which is
defined as a record in the value. -/
def DenotesRecord (start site : Site) : Prop :=
  match site.role with
  | .defines isRecord _ => isRecord = true
  | .mentions name => ∃ target path definition,
      Denotes (definedNames site.before) site.space name target ∧ Leads start path definition ∧
        definition.role = .defines true target
  | .other => False

/-- There is a place for each member of a union. -/
theorem exists_leads_member {items : List Json} {index : Nat} {start : Site}
    (hvalue : start.value = .arr items) (hindex : index < items.length) :
    ∃ member, Leads start [.member index] member := by
  obtain ⟨value, before, within, space⟩ := start
  obtain rfl : value = .arr items := hvalue
  exact ⟨_, leads_member_iff.mpr ⟨_, List.getElem?_eq_getElem hindex, .here⟩⟩

end Site

namespace Schema

/-! ## What is read at a place -/

/-- A schema that a place of this role is read as. -/
inductive Fits (scope : Scope) (space : Option String) : Role → Schema → Prop
  | primitive {kind props} :
      Fits scope space (.mentions (PrimitiveKind.name kind)) (.primitive kind props)
  | mention {name target} (h : Denotes scope.claimed space name target) :
      Fits scope space (.mentions name) (scope.stored target)
  | definition {part head} (hhead : head? part = some head) :
      Fits scope space (.defines part.isRecord head.fullName) part
  | other {part} (hkind : isRecord part = false) (hpart : ∀ name, part ≠ ref name) :
      Fits scope space .other part

section Roles

variable {scope scope' : Scope} {space : Option String} {value : Json} {schema : Schema}
  {name : String}

theorem isRecord_outline (schema : Schema) : schema.outline.isRecord = schema.isRecord := by
  cases schema <;> rfl

theorem isRecord_eq_of_outline {other : Schema} (h : schema.outline = other.outline) :
    schema.isRecord = other.isRecord := by
  rw [← isRecord_outline schema, h, isRecord_outline]

theorem role_of_word {members : Entries Json} {word : String}
    (htype : Entries.get? members "type" = some (.str word)) (hword : word ∉ typeWords) :
    (Json.obj members).role space = .mentions word := by
  simp only [typeWords, List.mem_cons, List.not_mem_nil, or_false, not_or] at hword
  obtain ⟨harray, hmap, hrecord, herror, henum, hfixed⟩ := hword
  simp only [Json.role, htype, harray, hmap, hrecord, herror, henum, hfixed, or_self, if_false]

theorem role_of_container {members : Entries Json} {word : String}
    (hword : word = "array" ∨ word = "map")
    (htype : Entries.get? members "type" = some (.str word)) :
    (Json.obj members).role space = .other := by
  rcases hword with rfl | rfl <;> simp [Json.role, htype]

theorem role_of_recordWord {members : Entries Json} {isError : Bool}
    (htype : Entries.get? members "type" = some (.str (recordWord isError))) :
    (Json.obj members).role space =
      .defines true (Definition.ofMembers space members).fullName := by
  cases isError <;> simp [Json.role, htype, recordWord]

theorem role_of_leafWord {members : Entries Json} {word : String}
    (hword : word = "enum" ∨ word = "fixed")
    (htype : Entries.get? members "type" = some (.str word)) :
    (Json.obj members).role space =
      .defines false (Definition.ofMembers space members).fullName := by
  rcases hword with rfl | rfl <;> simp [Json.role, htype]

theorem role_of_record {members : Entries Json} {head : TypeHead} {isError : Bool}
    (htype : Entries.get? members "type" = some (.str (recordWord isError)))
    (hhead : ReadsHead space (recordWord isError) recordAttributes members head) :
    (Json.obj members).role space = .defines true head.fullName := by
  rw [role_of_recordWord htype, hhead.fullName_definition]

theorem role_of_leaf {members : Entries Json} {head : TypeHead} {word : String}
    {reserved : List String} (hword : word = "enum" ∨ word = "fixed")
    (htype : Entries.get? members "type" = some (.str word))
    (hhead : ReadsHead space word reserved members head) :
    (Json.obj members).role space = .defines false head.fullName := by
  rw [role_of_leafWord hword htype, hhead.fullName_definition]

theorem fits_name (h : scope.schemaOfName space name = .ok schema) :
    Fits scope space (.mentions name) schema := by
  rcases Scope.schemaOfName_eq_ok h with ⟨kind, rfl, rfl⟩ | ⟨target, hdenotes, rfl⟩
  · exact .primitive
  · exact .mention hdenotes

/-- A value is read as a schema that fits its role. -/
theorem Reads.fits (h : Reads scope space value schema scope') :
    Fits scope space (value.role space) schema := by
  cases h with
  | name h => exact fits_name h
  | union h =>
      refine .other rfl ?_
      rintro name ⟨⟩
  | @primitive _ _ _ kind htype =>
      rw [role_of_word htype (name_notMem_typeWords kind)]
      exact .primitive
  | array htype =>
      rw [role_of_container (.inl rfl) htype]
      refine .other rfl ?_
      rintro name ⟨⟩
  | map htype =>
      rw [role_of_container (.inr rfl) htype]
      refine .other rfl ?_
      rintro name ⟨⟩
  | @record _ _ members head isError _ fields _ _ htype hhead =>
      rw [role_of_record htype hhead]
      exact @Fits.definition scope space (closeRecord head isError fields) head rfl
  | @enum _ _ members head _ symbols defaultSymbol _ htype hhead =>
      rw [role_of_leaf (.inl rfl) htype hhead]
      exact @Fits.definition scope space (Schema.enum head symbols defaultSymbol) head rfl
  | @fixed _ _ members head _ size _ htype hhead =>
      rw [role_of_leaf (.inr rfl) htype hhead]
      exact @Fits.definition scope space (Schema.fixed head size) head rfl
  | named htype _ hword h =>
      rw [role_of_word htype hword]
      exact fits_name h

end Roles

/-! ## Where a type is defined -/

theorem defines_of_leads {start middle : Site} {path : List Step} {fullName : String}
    (hleads : Site.Leads start path middle) (h : middle.Defines fullName) :
    start.Defines fullName := by
  obtain ⟨more, site, isRecord, hmore, hrole⟩ := h
  exact ⟨path ++ more, site, isRecord, hleads.trans hmore, hrole⟩

/-- A claimed name was claimed before, or the place that claims it defines it. -/
theorem defines_of_claim {scope opened : Scope} {site : Site} {isRecord : Bool}
    {fullName claimed : String} (hclaim : scope.claim claimed = .ok opened)
    (hrole : site.role = .defines isRecord claimed) (hmem : fullName ∈ opened.claimed) :
    fullName ∈ scope.claimed ∨ site.Defines fullName := by
  rw [claimed_of_claim hclaim] at hmem
  rcases List.mem_append.mp hmem with hearlier | hnew
  · exact .inl hearlier
  · rw [List.mem_singleton.mp hnew]
    exact .inr ⟨[], site, isRecord, .here, hrole⟩

mutual

/-- A name that is claimed while a value is read is defined at a place of the value. -/
theorem Reads.defines {scope scope' : Scope} {space : Option String} {value : Json}
    {schema : Schema} {fullName : String} (before : List Mark) (within : List String) :
    Reads scope space value schema scope' → fullName ∈ scope'.claimed →
      fullName ∈ scope.claimed ∨ Site.Defines ⟨value, before, within, space⟩ fullName
  | .name _, hmem => .inl hmem
  | .union h, hmem => by
      refine (h.defines before within hmem).imp_right ?_
      rintro ⟨first, item, rest, rfl, hitem⟩
      exact defines_of_leads (.member .here) hitem
  | .primitive _, hmem => .inl hmem
  | .array htype hvalue h, hmem => by
      refine (h.defines before within hmem).imp_right ?_
      intro hitems
      exact defines_of_leads (.items htype hvalue .here) hitems
  | .map htype hvalue h, hmem => by
      refine (h.defines before within hmem).imp_right ?_
      intro hvalues
      exact defines_of_leads (.values htype hvalue .here) hvalues
  | @Reads.record _ _ members head isError _ _ _ _ htype hhead hclaim hfields h, hmem => by
      rcases h.defines (before ++ [.defines within (.ofMembers space members)])
        (within ++ [head.fullName]) hmem with hopened |
        ⟨first, entries, rest, value, rfl, hvalue, hfield⟩
      · exact defines_of_claim hclaim (role_of_record htype hhead) hopened
      · right
        rw [← hhead.fullName_definition, ← hhead.innerSpace_definition] at hfield
        exact defines_of_leads (.field isError _ rfl htype hfields hvalue .here) hfield
  | .enum htype hhead hclaim _ _ _, hmem =>
      defines_of_claim hclaim (role_of_leaf (.inl rfl) htype hhead) hmem
  | .fixed htype hhead hclaim _ _, hmem =>
      defines_of_claim hclaim (role_of_leaf (.inr rfl) htype hhead) hmem
  | .named _ _ _ _, hmem => .inl hmem

theorem ReadsMembers.defines {scope scope' : Scope} {space : Option String}
    {seen : List String} {items : List Json} {schemas : List Schema} {fullName : String}
    (before : List Mark) (within : List String) :
    ReadsMembers scope space seen items schemas scope' → fullName ∈ scope'.claimed →
      fullName ∈ scope.claimed ∨ ∃ first item rest, items = first ++ item :: rest ∧
        Site.Defines ⟨item, before ++ Json.marksOfItems within space first, within, space⟩ fullName
  | .nil, hmem => .inl hmem
  | @ReadsMembers.cons _ _ _ item rest _ _ _ _ _ h _ _ hrest, hmem => by
      rcases hrest.defines (before ++ item.marks within space) within hmem with hbetween |
        ⟨first, later, others, rfl, hlater⟩
      · rcases h.defines before within hbetween with hearlier | hitem
        · exact .inl hearlier
        · refine .inr ⟨[], item, rest, rfl, ?_⟩
          rwa [Json.marksOfItems, List.append_nil]
      · refine .inr ⟨item :: first, later, others, rfl, ?_⟩
        rwa [Json.marksOfItems, ← List.append_assoc]

theorem ReadsFields.defines {scope scope' : Scope} {space : Option String}
    {seen : List String} {items : List Json} {fields : List Field} {fullName : String}
    (before : List Mark) (within : List String) :
    ReadsFields scope space seen items fields scope' → fullName ∈ scope'.claimed →
      fullName ∈ scope.claimed ∨ ∃ first entries rest value,
        items = first ++ .obj entries :: rest ∧ Entries.get? entries "type" = some value ∧
          Site.Defines ⟨value, before ++ Json.marksOfFieldItems within space first, within, space⟩
            fullName
  | .nil, hmem => .inl hmem
  | @ReadsFields.cons _ _ _ members value rest _ _ _ _ _ hvalue h _ hrest, hmem => by
      rcases hrest.defines (before ++ value.marks within space) within hmem with hbetween |
        ⟨first, entries, others, found, rfl, hfound, hlater⟩
      · rcases h.defines before within hbetween with hearlier | hitem
        · exact .inl hearlier
        · refine .inr ⟨[], members, rest, value, rfl, hvalue, ?_⟩
          rwa [Json.marksOfFieldItems, List.append_nil]
      · refine .inr ⟨.obj members :: first, entries, others, found, rfl, hfound, ?_⟩
        rwa [Json.marksOfFieldItems, Json.marksOfField, Json.marksOfMember_of_get? hvalue,
          ← List.append_assoc]

end

/-! ## Mentions in a value that was read -/

section Readings

variable {value : Json} {schema node other : Schema} {scope : Scope} {path : List Step}
  {site : Site}

/-- A node stands at each place of a value that was read: what the place was read as, closed by
the records around it. -/
theorem Reads.exists_node (h : Reads {} none value schema scope)
    (hleads : Site.Leads { value } path site) :
    ∃ part node inner, schema.at? path = some node ∧ Closings site.within part node ∧
      Fits inner site.space site.role part ∧ Reaches site.before site.within inner := by
  obtain ⟨names, part, node, inner, inner', hwithin, hnode, hclosings, hreads, hinner⟩ :=
    h.at_site hleads reaches_empty
  rw [List.nil_append] at hwithin
  rw [← hwithin] at hclosings
  exact ⟨part, node, inner, hnode, hclosings, hreads.fits, hinner⟩

theorem Reads.at_definition {isRecord : Bool} {fullName : String}
    (h : Reads {} none value schema scope) (hleads : Site.Leads { value } path site)
    (hrole : site.role = .defines isRecord fullName) :
    ∃ node head, schema.at? path = some node ∧ node.head? = some head ∧
      head.fullName = fullName ∧ node.isRecord = isRecord := by
  obtain ⟨part, node, inner, hnode, hclosings, hfits, -⟩ := h.exists_node hleads
  rw [hrole] at hfits
  cases hfits with
  | @definition _ head hhead =>
      exact ⟨node, head, hnode, hclosings.head? hhead, rfl,
        (hclosings.isRecord (ne_ref_of_head? hhead)).1⟩

/-- A mention of a type has become a named type of the full name that it denotes: a finished type
is copied, and a type that is still open is a record around the place, which is put in when it is
closed. -/
theorem Reads.at_mention {name : String} (h : Reads {} none value schema scope)
    (hleads : Site.Leads { value } path site) (hrole : site.role = .mentions name)
    (hkind : PrimitiveKind.ofName? name = none) :
    ∃ target node head, Denotes (definedNames site.before) site.space name target ∧
      schema.at? path = some node ∧ node.head? = some head ∧ head.fullName = target := by
  obtain ⟨part, node, inner, hnode, hclosings, hfits, hinner⟩ := h.exists_node hleads
  rw [hrole] at hfits
  cases hfits with
  | primitive => simp at hkind
  | @mention _ target hdenotes =>
      have hbefore := hdenotes
      rw [hinner.tracks.claimed] at hbefore
      rw [Scope.stored] at hclosings
      cases hfinished : inner.finished.get? target with
      | some definition =>
          rw [hfinished, Option.getD_some] at hclosings
          obtain ⟨-, head, hdefines⟩ := hinner.coherent.settled.finished hfinished
          have hhead := hclosings.head? hdefines.head_eq
          exact ⟨target, node, head, hbefore, hnode, hhead, hdefines.fullName_eq⟩
      | none =>
          rw [hfinished, Option.getD_none] at hclosings
          have hopen : target ∈ site.within :=
            hinner.tracks.opened.mpr ⟨hdenotes.mem, hfinished⟩
          obtain ⟨head, hhead, hname⟩ := hclosings.head?_of_ref hopen
          exact ⟨target, node, head, hbefore, hnode, hhead, hname⟩

/-- Two named types of one full name in a schema that was read have one outline. -/
theorem Reads.outline_eq {more : List Step} {head found : TypeHead}
    (h : Reads {} none value schema scope) (hnode : schema.at? path = some node)
    (hhead : node.head? = some head) (hother : schema.at? more = some other)
    (hfound : other.head? = some found) (hname : head.fullName = found.fullName) :
    node.outline = other.outline := by
  have hmatches := (h.coherent Scope.coherent_empty).2
  obtain ⟨around, hoccurs⟩ := exists_occurs_of_at? hnode
  obtain ⟨outer, houter⟩ := exists_occurs_of_at? hother
  obtain ⟨definition, hdefinition, houtline⟩ := hmatches around node hoccurs head hhead
  obtain ⟨again, hagain, hsame⟩ := hmatches outer other houter found hfound
  rw [← hname, hdefinition] at hagain
  cases hagain
  exact houtline.symm.trans hsame

/-- A named type in a schema that was read is defined at a place of the value, and the node there
has its outline. -/
theorem Reads.exists_definition {head : TypeHead} (h : Reads {} none value schema scope)
    (hnode : schema.at? path = some node) (hhead : node.head? = some head) :
    ∃ origin definition isRecord original, Site.Leads { value } origin definition ∧
      definition.role = .defines isRecord head.fullName ∧ schema.at? origin = some original ∧
        node.outline = original.outline := by
  obtain ⟨hscope, hmatches⟩ := h.coherent Scope.coherent_empty
  obtain ⟨around, hoccurs⟩ := exists_occurs_of_at? hnode
  obtain ⟨finished, hfinished, -⟩ := hmatches around node hoccurs head hhead
  have hclaimed : head.fullName ∈ scope.claimed := (hscope.settled.finished hfinished).1
  rcases h.defines [] [] hclaimed with hearlier | hdefines
  · cases hearlier
  · obtain ⟨origin, definition, isRecord, hleads, hrole⟩ := hdefines
    obtain ⟨original, found, horiginal, hfound, hname, -⟩ := h.at_definition hleads hrole
    have houtline := h.outline_eq hnode hhead horiginal hfound hname.symm
    exact ⟨origin, definition, isRecord, original, hleads, hrole, horiginal, houtline⟩

/-- A named type in a schema that was read is a record exactly if a place of the value defines it
as one. -/
theorem Reads.isRecord_iff_of_head {head : TypeHead} (h : Reads {} none value schema scope)
    (hnode : schema.at? path = some node) (hhead : node.head? = some head) :
    node.isRecord = true ↔ ∃ origin definition, Site.Leads { value } origin definition ∧
      definition.role = .defines true head.fullName := by
  constructor
  · intro hrecord
    obtain ⟨origin, definition, isRecord, original, horigin, hdefines, horiginal, houtline⟩ :=
      h.exists_definition hnode hhead
    obtain ⟨again, -, hagain, -, -, hkind⟩ := h.at_definition horigin hdefines
    rw [horiginal] at hagain
    cases hagain
    have hsame : isRecord = true := by
      rw [← hkind, ← isRecord_eq_of_outline houtline, hrecord]
    rw [hsame] at hdefines
    exact ⟨origin, definition, horigin, hdefines⟩
  · rintro ⟨origin, definition, horigin, hdefines⟩
    obtain ⟨original, found, horiginal, hfound, hname, hkind⟩ := h.at_definition horigin hdefines
    rw [isRecord_eq_of_outline (h.outline_eq hnode hhead horiginal hfound hname.symm), hkind]

/-- A place denotes a record exactly if a record stands at its path. -/
theorem Reads.isRecord_iff (h : Reads {} none value schema scope)
    (hleads : Site.Leads { value } path site) (hnode : schema.at? path = some node) :
    node.isRecord = true ↔ Site.DenotesRecord { value } site := by
  obtain ⟨part, found, inner, hfound, hclosings, hfits, -⟩ := h.exists_node hleads
  rw [hnode] at hfound
  cases hfound
  generalize hrole : site.role = role at hfits
  rw [Site.DenotesRecord, hrole]
  cases hfits with
  | @primitive kind props =>
      have hpart : ∀ name, Schema.primitive kind props ≠ ref name := by
        rintro name ⟨⟩
      rw [(hclosings.isRecord hpart).1]
      refine iff_of_false Bool.false_ne_true ?_
      rintro ⟨target, origin, definition, hdenotes, -⟩
      simpa using hdenotes.1
  | @mention name target hdenotes =>
      obtain ⟨target, found, head, htarget, hfound, hhead, hname⟩ :=
        h.at_mention hleads hrole hdenotes.1
      rw [hnode] at hfound
      cases hfound
      rw [h.isRecord_iff_of_head hnode hhead, hname]
      constructor
      · rintro ⟨origin, definition, horigin, hdefines⟩
        exact ⟨target, origin, definition, htarget, horigin, hdefines⟩
      · rintro ⟨again, origin, definition, hagain, horigin, hdefines⟩
        rw [← htarget.unique hagain] at hdefines
        exact ⟨origin, definition, horigin, hdefines⟩
  | definition hhead => rw [(hclosings.isRecord (ne_ref_of_head? hhead)).1]
  | other hkind hpart =>
      rw [(hclosings.isRecord hpart).1, hkind]
      simp

/-- A union that was read has a node for each of its members. -/
theorem Reads.at_union {items : List Json} (h : Reads {} none value schema scope)
    (hleads : Site.Leads { value } path site) (hvalue : site.value = .arr items) :
    ∃ members, schema.at? path = some (Schema.union members) ∧
      members.length = items.length := by
  obtain ⟨names, part, node, inner, inner', -, hnode, hclosings, hreads, -⟩ :=
    h.at_site hleads reaches_empty
  rw [hvalue] at hreads
  cases hreads with
  | union hmembers =>
      obtain ⟨closed, rfl, hlength⟩ := hclosings.union
      exact ⟨closed, hnode, hlength.trans hmembers.length_eq⟩

end Readings

theorem filter_eq_singleton {α : Type} {p : α → Bool} {items : List α} {index : Nat} {only : α}
    (honly : items[index]? = some only)
    (hiff : ∀ other item, items[other]? = some item → (p item = true ↔ other = index)) :
    items.filter p = [only] := by
  obtain ⟨hindex, rfl⟩ := List.getElem?_eq_some_iff.mp honly
  have hsplit : items.take index ++ items[index] :: items.drop (index + 1) = items := by simp
  have hbefore : (items.take index).filter p = [] := by
    rw [List.filter_eq_nil_iff]
    intro item hmem hitem
    obtain ⟨other, hother, rfl⟩ := List.mem_take_iff_getElem.mp hmem
    have heq := (hiff other _ (List.getElem?_eq_getElem (by omega))).mp hitem
    omega
  have hafter : (items.drop (index + 1)).filter p = [] := by
    rw [List.filter_eq_nil_iff]
    intro item hmem hitem
    obtain ⟨other, hother, rfl⟩ := List.mem_drop_iff_getElem.mp hmem
    have heq := (hiff _ _ (List.getElem?_eq_getElem (by omega))).mp hitem
    omega
  have hself : p items[index] = true := (hiff index _ honly).mpr rfl
  calc
    items.filter p = (items.take index ++ items[index] :: items.drop (index + 1)).filter p := by
      rw [hsplit]
    _ = [items[index]] := by
      rw [List.filter_append, List.filter_cons_of_pos hself, hbefore, hafter, List.nil_append]

/-- Every mention of a type in a value that is read has become a named type of the full name that
it denotes, with the outline of the type's definition in the value.  A union that denotes a record
with exactly one of its members, defined there or mentioned, has that member as its only record. -/
theorem mentions_resolved {value : Json} {schema : Schema} (h : ofJson value = .ok schema) :
    (∀ path site name, Site.Leads { value } path site → site.role = .mentions name →
        PrimitiveKind.ofName? name = none →
        ∃ target node head origin definition isRecord original,
          Denotes (definedNames site.before) site.space name target ∧
          schema.at? path = some node ∧ node.head? = some head ∧ head.fullName = target ∧
          Site.Leads { value } origin definition ∧ definition.role = .defines isRecord target ∧
          schema.at? origin = some original ∧ node.outline = original.outline) ∧
      ∀ path site items index, Site.Leads { value } path site → site.value = .arr items →
        index < items.length →
        (∀ other member, Site.Leads site [.member other] member →
          (Site.DenotesRecord { value } member ↔ other = index)) →
        ∃ union only, schema.at? path = some union ∧
          schema.at? (path ++ [.member index]) = some only ∧ union.onlyRecord? = some only := by
  obtain ⟨scope, hreads⟩ := ofJson_eq_ok_iff.mp h
  constructor
  · intro path site name hleads hrole hkind
    obtain ⟨target, node, head, hdenotes, hnode, hhead, rfl⟩ :=
      hreads.at_mention hleads hrole hkind
    obtain ⟨origin, definition, isRecord, original, horigin, hdefines, horiginal, houtline⟩ :=
      hreads.exists_definition hnode hhead
    exact ⟨_, node, head, origin, definition, isRecord, original, hdenotes, hnode, hhead, rfl,
      horigin, hdefines, horiginal, houtline⟩
  · intro path site items index hleads hvalue hindex hone
    obtain ⟨members, hunion, hlength⟩ := hreads.at_union hleads hvalue
    have hnodes := at?_member hunion
    have hwithin : index < members.length := by
      rw [hlength]
      exact hindex
    have honly := List.getElem?_eq_getElem hwithin
    have hiff : ∀ other node, members[other]? = some node →
        (node.isRecord = true ↔ other = index) := by
      intro other node hnode
      have hother : other < items.length := by
        rw [← hlength]
        exact (List.getElem?_eq_some_iff.mp hnode).1
      obtain ⟨member, hmember⟩ := Site.exists_leads_member hvalue hother
      rw [hreads.isRecord_iff (hleads.trans hmember) ((hnodes other).trans hnode)]
      exact hone other member hmember
    refine ⟨_, _, hunion, (hnodes index).trans honly, ?_⟩
    rw [onlyRecord?, filter_eq_singleton honly hiff]

/-- The place of the union in `chainRecord`. -/
def chainUnion : Site :=
  ⟨.arr [.str "null", .str "Chain"], [.defines [] ⟨"Chain", some "a", none⟩], ["a.Chain"], some "a"⟩

/-- The record mentions itself in a union, which has a copy of it as its only record. -/
theorem mentions_resolved_chainRecord :
    ofJson chainRecord = .ok (chainOf (chainOf (ref "a.Chain"))) ∧
      (∃ node head, (chainOf (chainOf (ref "a.Chain"))).at? [.field 0, .member 1] = some node ∧
        node.head? = some head ∧ head.fullName = "a.Chain") ∧
      ∃ union only, (chainOf (chainOf (ref "a.Chain"))).at? [.field 0] = some union ∧
        (chainOf (chainOf (ref "a.Chain"))).at? [.field 0, .member 1] = some only ∧
          union.onlyRecord? = some only := by
  have h : ofJson chainRecord = .ok (chainOf (chainOf (ref "a.Chain"))) := rfl
  have hunion : Site.Leads { value := chainRecord } [.field 0] chainUnion :=
    @Site.Leads.field _ [] _ _ _ _ _ _ _ _ false _ rfl rfl rfl rfl .here
  have hchain : Site.Leads chainUnion [.member 1] _ :=
    Site.leads_member_iff.mpr ⟨_, rfl, .here⟩
  have hone : ∀ other member, Site.Leads chainUnion [.member other] member →
      (Site.DenotesRecord { value := chainRecord } member ↔ other = 1) := by
    intro other member hmember
    obtain ⟨item, hitem, hhere⟩ := Site.leads_member_iff.mp hmember
    cases hhere
    match other, hitem with
    | 0, hitem =>
        cases hitem
        refine iff_of_false ?_ (by decide)
        rintro ⟨target, origin, definition, hdenotes, -⟩
        exact absurd hdenotes.1 (by decide)
    | 1, hitem =>
        cases hitem
        exact iff_of_true ⟨"a.Chain", [], _, by decide, .here, by decide⟩ rfl
  obtain ⟨hmentions, hunions⟩ := mentions_resolved h
  obtain ⟨target, node, head, -, -, -, -, hdenotes, hnode, hhead, hname, -⟩ :=
    hmentions _ _ _ (hunion.trans hchain) rfl (by decide)
  have htarget : target = "a.Chain" := hdenotes.unique (by decide)
  rw [htarget] at hname
  exact ⟨h, ⟨node, head, hnode, hhead, hname⟩, hunions _ _ _ 1 hunion rfl (by decide) hone⟩

end Schema

end EventSchema
