import EventSchema.Proofs.Attributes
import EventSchema.Proofs.Name
import EventSchema.Schema.OfJson

/-!
# Derivations of readings

A successful reading of a JSON value is a derivation: one rule for each way in
which a value denotes a schema, threading the scope from one part of the value
to the next.  The main statement is that the reader succeeds exactly when there
is a derivation, so that facts about readings are proved by induction on one.
-/

namespace EventSchema

/-! ## Composed outcomes -/

section Outcomes

variable {ε α β : Type}

theorem bind_eq_ok_iff {first : Except ε α} {next : α → Except ε β} {result : β} :
    (first >>= next) = .ok result ↔ ∃ value, first = .ok value ∧ next value = .ok result := by
  constructor
  · intro h
    cases first with
    | error e => cases h
    | ok value => exact ⟨value, rfl, h⟩
  · rintro ⟨value, rfl, hnext⟩
    exact hnext

theorem ok_bind (value : α) (next : α → Except ε β) :
    ((.ok value : Except ε α) >>= next) = next value := rfl

theorem pure_eq_ok (value : α) : (pure value : Except ε α) = .ok value := rfl

end Outcomes

namespace Schema

/-! ## The rules -/

/-- The words of types that are neither primitive nor names. -/
def typeWords : List String := ["array", "map", "record", "error", "enum", "fixed"]

/-- The members of a definition give the named type this head. -/
structure ReadsHead (space : Option String) (kind : String) (reserved : List String)
    (members : Entries Json) (head : TypeHead) : Prop where
  name : nameOf space kind members = .ok (head.name, head.space)
  rest : headOf head.name head.space reserved members = .ok head

/-- The members of a field give it everything but its schema. -/
structure ReadsLabel (members : Entries Json) (field : Field) : Prop where
  name : fieldNameOf members = .ok field.name
  defaultValue : members.get? "default" = field.defaultValue
  doc : textAttribute members "doc" = .ok field.doc
  order : orderOf members = .ok field.order
  aliases : aliasesOf members = .ok field.aliases
  props : Props.ofMembers fieldAttributes members = field.props

mutual

/-- `Reads scope space json schema scope'`: within a namespace, a value denotes a schema, and
takes the scope before it to the scope after it. -/
inductive Reads : Scope → Option String → Json → Schema → Scope → Prop
  | name {scope space name schema} (h : scope.schemaOfName space name = .ok schema) :
      Reads scope space (.str name) schema scope
  | union {scope space items schemas scope'}
      (h : ReadsMembers scope space [] items schemas scope') :
      Reads scope space (.arr items) (union schemas) scope'
  | primitive {scope space members kind}
      (htype : Entries.get? members "type" = some (.str (PrimitiveKind.name kind))) :
      Reads scope space (.obj members)
        (primitive kind (.ofMembers primitiveAttributes members)) scope
  | array {scope space members value items scope'}
      (htype : Entries.get? members "type" = some (.str "array"))
      (hvalue : Entries.get? members "items" = some value)
      (h : Reads scope space value items scope') :
      Reads scope space (.obj members) (array items (.ofMembers arrayAttributes members)) scope'
  | map {scope space members value values scope'}
      (htype : Entries.get? members "type" = some (.str "map"))
      (hvalue : Entries.get? members "values" = some value)
      (h : Reads scope space value values scope') :
      Reads scope space (.obj members) (map values (.ofMembers mapAttributes members)) scope'
  | record {scope space members head isError items fields opened scope'}
      (htype : Entries.get? members "type" = some (.str (recordWord isError)))
      (hhead : ReadsHead space (recordWord isError) recordAttributes members head)
      (hclaim : scope.claim head.fullName = .ok opened)
      (hvalue : Entries.get? members "fields" = some (.arr items))
      (h : ReadsFields opened (innerSpace head.name head.space) [] items fields scope') :
      Reads scope space (.obj members) (closeRecord head isError fields)
        (scope'.finish head.fullName (closeRecord head isError fields))
  | enum {scope space members head items symbols defaultSymbol opened}
      (htype : Entries.get? members "type" = some (.str "enum"))
      (hhead : ReadsHead space "enum" enumAttributes members head)
      (hclaim : scope.claim head.fullName = .ok opened)
      (hvalue : Entries.get? members "symbols" = some (.arr items))
      (hsymbols : symbolsOfJson [] items = .ok symbols)
      (hdefault : defaultSymbolOf symbols members = .ok defaultSymbol) :
      Reads scope space (.obj members) (enum head symbols defaultSymbol)
        (opened.finish head.fullName (enum head symbols defaultSymbol))
  | fixed {scope space members head value size opened}
      (htype : Entries.get? members "type" = some (.str "fixed"))
      (hhead : ReadsHead space "fixed" fixedAttributes members head)
      (hclaim : scope.claim head.fullName = .ok opened)
      (hvalue : Entries.get? members "size" = some value)
      (hsize : value.toUInt64? = some size) :
      Reads scope space (.obj members) (fixed head size)
        (opened.finish head.fullName (fixed head size))
  | named {scope space members word schema}
      (htype : Entries.get? members "type" = some (.str word))
      (hkind : PrimitiveKind.ofName? word = none) (hword : word ∉ typeWords)
      (h : scope.schemaOfName space word = .ok schema) :
      Reads scope space (.obj members) schema scope

/-- The members of a union from one of them on, given the keys of the ones before. -/
inductive ReadsMembers :
    Scope → Option String → List String → List Json → List Schema → Scope → Prop
  | nil {scope space seen} : ReadsMembers scope space seen [] [] scope
  | cons {scope space seen item rest schema schemas key between scope'}
      (h : Reads scope space item schema between)
      (hkey : unionKey? schema = some key) (hnew : key ∉ seen)
      (hrest : ReadsMembers between space (seen ++ [key]) rest schemas scope') :
      ReadsMembers scope space seen (item :: rest) (schema :: schemas) scope'

/-- The fields of a record from one of them on, given the names of the ones before. -/
inductive ReadsFields :
    Scope → Option String → List String → List Json → List Field → Scope → Prop
  | nil {scope space seen} : ReadsFields scope space seen [] [] scope
  | cons {scope space seen members value rest field fields between scope'}
      (hlabel : ReadsLabel members field)
      (hvalue : Entries.get? members "type" = some value)
      (h : Reads scope space value field.schema between)
      (hnew : field.name ∉ seen)
      (hrest : ReadsFields between space (seen ++ [field.name]) rest fields scope') :
      ReadsFields scope space seen (.obj members :: rest) (field :: fields) scope'

end

/-! ## Every successful reading has a derivation -/

theorem readsHead_of_ok {space : Option String} {kind name : String} {own : Option String}
    {reserved : List String} {members : Entries Json} {head : TypeHead}
    (hname : nameOf space kind members = .ok (name, own))
    (hhead : headOf name own reserved members = .ok head) :
    head.name = name ∧ head.space = own ∧ ReadsHead space kind reserved members head := by
  have hparts := hhead
  obtain ⟨doc, -, hparts⟩ := bind_eq_ok_iff.mp hparts
  obtain ⟨aliases, -, hparts⟩ := bind_eq_ok_iff.mp hparts
  cases hparts
  exact ⟨rfl, rfl, hname, hhead⟩

theorem readsEnum_of_ok {scope scope' : Scope} {space : Option String} {members : Entries Json}
    {schema : Schema} (htype : members.get? "type" = some (.str "enum"))
    (h : enumOfMembers scope space members = .ok (schema, scope')) :
    Reads scope space (.obj members) schema scope' := by
  obtain ⟨⟨name, own⟩, hname, h⟩ := bind_eq_ok_iff.mp h
  obtain ⟨opened, hclaim, h⟩ := bind_eq_ok_iff.mp h
  split at h
  next items hvalue =>
    obtain ⟨symbols, hsymbols, h⟩ := bind_eq_ok_iff.mp h
    obtain ⟨defaultSymbol, hdefault, h⟩ := bind_eq_ok_iff.mp h
    obtain ⟨head, hhead, h⟩ := bind_eq_ok_iff.mp h
    cases h
    obtain ⟨rfl, rfl, hreads⟩ := readsHead_of_ok hname hhead
    exact .enum htype hreads hclaim hvalue hsymbols hdefault
  next => cases h

theorem readsFixed_of_ok {scope scope' : Scope} {space : Option String} {members : Entries Json}
    {schema : Schema} (htype : members.get? "type" = some (.str "fixed"))
    (h : fixedOfMembers scope space members = .ok (schema, scope')) :
    Reads scope space (.obj members) schema scope' := by
  obtain ⟨⟨name, own⟩, hname, h⟩ := bind_eq_ok_iff.mp h
  obtain ⟨opened, hclaim, h⟩ := bind_eq_ok_iff.mp h
  split at h
  next value hvalue =>
    split at h
    next size hsize =>
      obtain ⟨head, hhead, h⟩ := bind_eq_ok_iff.mp h
      cases h
      obtain ⟨rfl, rfl, hreads⟩ := readsHead_of_ok hname hhead
      exact .fixed htype hreads hclaim hvalue hsize
    next => cases h
  next => cases h

-- The induction follows the value; `readAttribute` and its kin only walk to one member of it.
mutual

theorem reads_of_read {scope scope' : Scope} {space : Option String} {json : Json}
    {schema : Schema} (h : read scope space json = .ok (schema, scope')) :
    Reads scope space json schema scope' := by
  cases json with
  | str name =>
      rw [read] at h
      obtain ⟨found, hfound, h⟩ := bind_eq_ok_iff.mp h
      cases h
      exact .name hfound
  | arr items =>
      rw [read] at h
      obtain ⟨⟨schemas, after⟩, hitems, h⟩ := bind_eq_ok_iff.mp h
      cases h
      exact .union (readsMembers_of_read hitems)
  | obj members =>
      rw [read] at h
      split at h
      next => cases h
      next word htype =>
        split at h
        next kind hkind =>
          cases h
          rw [PrimitiveKind.eq_name_of_ofName? hkind] at htype
          exact .primitive htype
        next hkind =>
          split_ifs at h with harray hmap hrecord henum hfixed
          · obtain ⟨⟨items, after⟩, hvalue, h⟩ := bind_eq_ok_iff.mp h
            cases h
            subst harray
            obtain ⟨value, hget, hreads⟩ := readsAttribute_of_read hvalue
            exact .array htype hget hreads
          · obtain ⟨⟨values, after⟩, hvalue, h⟩ := bind_eq_ok_iff.mp h
            cases h
            subst hmap
            obtain ⟨value, hget, hreads⟩ := readsAttribute_of_read hvalue
            exact .map htype hget hreads
          · obtain ⟨⟨name, own⟩, hname, h⟩ := bind_eq_ok_iff.mp h
            obtain ⟨opened, hclaim, h⟩ := bind_eq_ok_iff.mp h
            obtain ⟨⟨fields, after⟩, hfields, h⟩ := bind_eq_ok_iff.mp h
            obtain ⟨head, hhead, h⟩ := bind_eq_ok_iff.mp h
            cases h
            obtain ⟨rfl, rfl, hreadsHead⟩ := readsHead_of_ok hname hhead
            obtain ⟨items, hget, hreads⟩ := readsFieldsAttribute_of_read hfields
            rcases hrecord with rfl | rfl
            · exact .record htype hreadsHead hclaim hget hreads
            · exact .record htype hreadsHead hclaim hget hreads
          · exact readsEnum_of_ok (henum ▸ htype) h
          · exact readsFixed_of_ok (hfixed ▸ htype) h
          · obtain ⟨found, hfound, h⟩ := bind_eq_ok_iff.mp h
            cases h
            refine .named htype hkind ?_ hfound
            simp only [typeWords, List.mem_cons, List.not_mem_nil, or_false]
            tauto
      next => cases h
  | null | bool | num => cases h

theorem readsMembers_of_read {scope scope' : Scope} {space : Option String}
    {seen : List String} {items : List Json} {schemas : List Schema}
    (h : readMembers scope space seen items = .ok (schemas, scope')) :
    ReadsMembers scope space seen items schemas scope' := by
  cases items with
  | nil =>
      cases h
      exact .nil
  | cons item rest =>
      rw [readMembers] at h
      obtain ⟨⟨schema, between⟩, hitem, h⟩ := bind_eq_ok_iff.mp h
      dsimp only at h
      split at h
      next => cases h
      next key hkey =>
        split at h
        next => cases h
        next hnew =>
          obtain ⟨⟨others, after⟩, hrest, h⟩ := bind_eq_ok_iff.mp h
          cases h
          exact .cons (reads_of_read hitem) hkey hnew (readsMembers_of_read hrest)

theorem readsAttribute_of_read {scope scope' : Scope} {space : Option String}
    {kind attr : String} {members : List (String × Json)} {schema : Schema}
    (h : readAttribute scope space kind attr members = .ok (schema, scope')) :
    ∃ value, Entries.get? members attr = some value ∧
      Reads scope space value schema scope' := by
  cases members with
  | nil => cases h
  | cons member rest =>
      obtain ⟨key, value⟩ := member
      rw [readAttribute] at h
      split at h
      next hkey => exact ⟨value, by simp [hkey], reads_of_read h⟩
      next hkey =>
        obtain ⟨found, hget, hreads⟩ := readsAttribute_of_read h
        exact ⟨found, by simpa [Ne.symm hkey] using hget, hreads⟩

theorem readsFieldsAttribute_of_read {scope scope' : Scope} {space : Option String}
    {kind : String} {members : List (String × Json)} {fields : List Field}
    (h : readFieldsAttribute scope space kind members = .ok (fields, scope')) :
    ∃ items, Entries.get? members "fields" = some (.arr items) ∧
      ReadsFields scope space [] items fields scope' := by
  cases members with
  | nil => cases h
  | cons member rest =>
      obtain ⟨key, value⟩ := member
      rw [readFieldsAttribute] at h
      split at h
      next hkey =>
        obtain ⟨items, rfl, hreads⟩ := readsFieldsValue_of_read h
        exact ⟨items, by simp [hkey], hreads⟩
      next hkey =>
        obtain ⟨items, hget, hreads⟩ := readsFieldsAttribute_of_read h
        exact ⟨items, by simpa [Ne.symm hkey] using hget, hreads⟩

theorem readsFieldsValue_of_read {scope scope' : Scope} {space : Option String}
    {value : Json} {fields : List Field}
    (h : readFieldsValue scope space value = .ok (fields, scope')) :
    ∃ items, value = .arr items ∧ ReadsFields scope space [] items fields scope' := by
  cases value with
  | arr items => exact ⟨items, rfl, readsFields_of_read h⟩
  | null | bool | num | str | obj => cases h

theorem readsFields_of_read {scope scope' : Scope} {space : Option String}
    {seen : List String} {items : List Json} {fields : List Field}
    (h : readFields scope space seen items = .ok (fields, scope')) :
    ReadsFields scope space seen items fields scope' := by
  cases items with
  | nil =>
      cases h
      exact .nil
  | cons item rest =>
      rw [readFields] at h
      obtain ⟨⟨field, between⟩, hfield, h⟩ := bind_eq_ok_iff.mp h
      dsimp only at h
      split at h
      next => cases h
      next hnew =>
        obtain ⟨⟨others, after⟩, hrest, h⟩ := bind_eq_ok_iff.mp h
        cases h
        obtain ⟨members, value, rfl, hlabel, hget, hreads⟩ := readsField_of_read hfield
        exact .cons hlabel hget hreads hnew (readsFields_of_read hrest)

theorem readsField_of_read {scope scope' : Scope} {space : Option String} {item : Json}
    {field : Field} (h : readField scope space item = .ok (field, scope')) :
    ∃ members value, item = .obj members ∧ ReadsLabel members field ∧
      Entries.get? members "type" = some value ∧
      Reads scope space value field.schema scope' := by
  cases item with
  | obj members =>
      rw [readField] at h
      obtain ⟨name, hname, h⟩ := bind_eq_ok_iff.mp h
      split at h
      next => cases h
      next =>
        obtain ⟨order, horder, h⟩ := bind_eq_ok_iff.mp h
        obtain ⟨⟨schema, after⟩, hvalue, h⟩ := bind_eq_ok_iff.mp h
        obtain ⟨doc, hdoc, h⟩ := bind_eq_ok_iff.mp h
        obtain ⟨aliases, haliases, h⟩ := bind_eq_ok_iff.mp h
        cases h
        obtain ⟨value, hget, hreads⟩ := readsAttribute_of_read hvalue
        exact ⟨members, value, rfl, ⟨hname, rfl, hdoc, horder, haliases, rfl⟩, hget, hreads⟩
  | null | bool | num | str | arr => cases h

end

/-! ## Every derivation is a successful reading -/

theorem readAttribute_of_get? {scope : Scope} {space : Option String} {kind attr : String}
    {members : List (String × Json)} {value : Json}
    (h : Entries.get? members attr = some value) :
    readAttribute scope space kind attr members = read scope space value := by
  induction members with
  | nil => cases h
  | cons member rest ih =>
      obtain ⟨key, found⟩ := member
      rw [readAttribute]
      rw [Entries.get?_cons] at h
      by_cases hkey : key = attr
      · rw [if_pos hkey.symm] at h
        rw [if_pos hkey, Option.some.inj h]
      · rw [if_neg (Ne.symm hkey)] at h
        rw [if_neg hkey, ih h]

theorem readFieldsAttribute_of_get? {scope : Scope} {space : Option String} {kind : String}
    {members : List (String × Json)} {items : List Json}
    (h : Entries.get? members "fields" = some (.arr items)) :
    readFieldsAttribute scope space kind members = readFields scope space [] items := by
  induction members with
  | nil => cases h
  | cons member rest ih =>
      obtain ⟨key, found⟩ := member
      rw [readFieldsAttribute]
      rw [Entries.get?_cons] at h
      by_cases hkey : key = "fields"
      · rw [if_pos hkey.symm] at h
        rw [if_pos hkey, Option.some.inj h, readFieldsValue]
      · rw [if_neg (Ne.symm hkey)] at h
        rw [if_neg hkey, ih h]

mutual

theorem read_of_reads {scope scope' : Scope} {space : Option String} {json : Json}
    {schema : Schema} :
    Reads scope space json schema scope' → read scope space json = .ok (schema, scope')
  | .name h => by
      rw [read, h]
      rfl
  | .union h => by
      rw [read, readMembers_of_reads h]
      rfl
  | .primitive htype => by simp only [read, htype, PrimitiveKind.ofName?_name]
  | .array htype hvalue h => by
      have hkind : PrimitiveKind.ofName? "array" = none := by decide
      simp only [read, htype, hkind, if_true]
      rw [readAttribute_of_get? hvalue, read_of_reads h]
      rfl
  | .map htype hvalue h => by
      have hkind : PrimitiveKind.ofName? "map" = none := by decide
      have harray : "map" ≠ "array" := by decide
      simp only [read, htype, hkind, if_neg harray, if_true]
      rw [readAttribute_of_get? hvalue, read_of_reads h]
      rfl
  | @Reads.record _ _ _ _ isError _ _ _ _ htype hhead hclaim hvalue h => by
      have hkind : PrimitiveKind.ofName? (recordWord isError) = none := by
        cases isError <;> decide
      have harray : recordWord isError ≠ "array" := by cases isError <;> decide
      have hmap : recordWord isError ≠ "map" := by cases isError <;> decide
      have hrecord : recordWord isError = "record" ∨ recordWord isError = "error" := by
        cases isError <;> decide
      have herror : decide (recordWord isError = "error") = isError := by
        cases isError <;> decide
      simp only [read, htype, hkind, if_neg harray, if_neg hmap, if_pos hrecord, herror]
      rw [hhead.name, ok_bind]
      dsimp only
      rw [← TypeHead.fullName, hclaim, ok_bind, readFieldsAttribute_of_get? hvalue,
        readFields_of_reads h, ok_bind]
      dsimp only
      rw [hhead.rest]
      rfl
  | .enum htype hhead hclaim hvalue hsymbols hdefault => by
      have hkind : PrimitiveKind.ofName? "enum" = none := by decide
      simp only [read, htype, hkind, reduceIte, String.reduceEq, or_self]
      rw [enumOfMembers, hhead.name, ok_bind]
      dsimp only
      rw [← TypeHead.fullName, hclaim, ok_bind, hvalue]
      dsimp only
      rw [hsymbols, ok_bind, hdefault, ok_bind, hhead.rest]
      rfl
  | .fixed htype hhead hclaim hvalue hsize => by
      have hkind : PrimitiveKind.ofName? "fixed" = none := by decide
      simp only [read, htype, hkind, reduceIte, String.reduceEq, or_self]
      rw [fixedOfMembers, hhead.name, ok_bind]
      dsimp only
      rw [← TypeHead.fullName, hclaim, ok_bind, hvalue]
      dsimp only
      rw [hsize]
      dsimp only
      rw [hhead.rest]
      rfl
  | .named htype hkind hword h => by
      simp only [typeWords, List.mem_cons, List.not_mem_nil, or_false, not_or] at hword
      obtain ⟨harray, hmap, hrecord, herror, henum, hfixed⟩ := hword
      simp only [read, htype, hkind, harray, hmap, hrecord, herror, henum, hfixed, reduceIte,
        or_self, h]
      rfl

theorem readMembers_of_reads {scope scope' : Scope} {space : Option String}
    {seen : List String} {items : List Json} {schemas : List Schema} :
    ReadsMembers scope space seen items schemas scope' →
      readMembers scope space seen items = .ok (schemas, scope')
  | .nil => rfl
  | .cons h hkey hnew hrest => by
      rw [readMembers, read_of_reads h, ok_bind]
      dsimp only
      rw [hkey]
      dsimp only
      rw [if_neg hnew, readMembers_of_reads hrest]
      rfl

theorem readFields_of_reads {scope scope' : Scope} {space : Option String}
    {seen : List String} {items : List Json} {fields : List Field} :
    ReadsFields scope space seen items fields scope' →
      readFields scope space seen items = .ok (fields, scope')
  | .nil => rfl
  | @ReadsFields.cons _ _ _ members value _ field _ between _ hlabel hvalue h hnew hrest => by
      have hfield : readField scope space (.obj members) = .ok (field, between) := by
        rw [readField, hlabel.name, ok_bind, hvalue]
        simp only [Option.isNone_some, Bool.false_eq_true, if_false]
        rw [hlabel.order, ok_bind, readAttribute_of_get? hvalue, read_of_reads h, ok_bind]
        dsimp only
        rw [hlabel.doc, ok_bind, hlabel.aliases, ok_bind, hlabel.defaultValue, hlabel.props]
        rfl
      rw [readFields, hfield, ok_bind]
      dsimp only
      rw [if_neg hnew, readFields_of_reads hrest]
      rfl

end

/-- The reader succeeds exactly when there is a derivation. -/
theorem read_eq_ok_iff {scope scope' : Scope} {space : Option String} {json : Json}
    {schema : Schema} :
    read scope space json = .ok (schema, scope') ↔ Reads scope space json schema scope' :=
  ⟨reads_of_read, read_of_reads⟩

theorem ofJson_eq_ok_iff {json : Json} {schema : Schema} :
    ofJson json = .ok schema ↔ ∃ scope, Reads {} none json schema scope := by
  rw [ofJson, bind_eq_ok_iff]
  constructor
  · rintro ⟨⟨found, scope⟩, hread, h⟩
    cases h
    exact ⟨scope, reads_of_read hread⟩
  · rintro ⟨scope, h⟩
    exact ⟨(schema, scope), read_of_reads h, rfl⟩

end Schema

end EventSchema
