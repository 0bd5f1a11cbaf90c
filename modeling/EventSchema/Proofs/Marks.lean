import EventSchema.Proofs.Checks
import EventSchema.Proofs.Resolution

/-!
# Names in a JSON value

A JSON value that is read as a schema defines named types and mentions names.
This module lists both in document order, each with the records around it and
the namespace that it stands in, without reading the value: only `type`,
`name`, `namespace`, `items`, `values` and `fields` are looked at.  What a
reading claims are the definitions of the value, in this order.
-/

namespace EventSchema

/-- The name and the namespace that the members of a definition give, and the namespace around
it. -/
structure Definition where
  name : String
  explicit : Option String
  around : Option String
  deriving DecidableEq

namespace Definition

/-- A member that is a text. -/
def textOf (members : Entries Json) (attr : String) : Option String :=
  match members.get? attr with
  | some (.str value) => some value
  | _ => none

/-- The definition that members make within a namespace. -/
def ofMembers (space : Option String) (members : Entries Json) : Definition :=
  ⟨(textOf members "name").getD "", textOf members "namespace", space⟩

/-- The namespace of the defined type. -/
def space (definition : Definition) : Option String :=
  Schema.givenSpace definition.explicit definition.around

/-- The full name of the defined type. -/
def fullName (definition : Definition) : String :=
  Name.full definition.name definition.space

/-- The namespace in which the fields of the defined type stand. -/
def innerSpace (definition : Definition) : Option String :=
  Schema.innerSpace definition.name definition.space

end Definition

/-- A place of a JSON value that defines a type or mentions a name, below records of these full
names, outermost first. -/
inductive Mark where
  | defines (within : List String) (definition : Definition)
  | mentions (within : List String) (space : Option String) (name : String)
  deriving DecidableEq

namespace Mark

/-- The definition at a place. -/
def definition? : Mark → Option Definition
  | defines _ definition => some definition
  | mentions .. => none

/-- The definitions among places, in order. -/
def definitions (marks : List Mark) : List Definition :=
  marks.filterMap definition?

/-- The full names defined at places, in order. -/
def definedNames (marks : List Mark) : List String :=
  (definitions marks).map Definition.fullName

@[simp] theorem definitions_nil : definitions [] = [] := rfl

@[simp] theorem definitions_defines (within : List String) (definition : Definition)
    (marks : List Mark) :
    definitions (defines within definition :: marks) = definition :: definitions marks := rfl

@[simp] theorem definitions_mentions (within : List String) (space : Option String)
    (name : String) (marks : List Mark) :
    definitions (mentions within space name :: marks) = definitions marks := rfl

@[simp] theorem definitions_append (first second : List Mark) :
    definitions (first ++ second) = definitions first ++ definitions second :=
  List.filterMap_append

@[simp] theorem definedNames_nil : definedNames [] = [] := rfl

@[simp] theorem definedNames_defines (within : List String) (definition : Definition)
    (marks : List Mark) :
    definedNames (defines within definition :: marks) =
      definition.fullName :: definedNames marks := rfl

@[simp] theorem definedNames_mentions (within : List String) (space : Option String)
    (name : String) (marks : List Mark) :
    definedNames (mentions within space name :: marks) = definedNames marks := rfl

@[simp] theorem definedNames_append (first second : List Mark) :
    definedNames (first ++ second) = definedNames first ++ definedNames second := by
  rw [definedNames, definitions_append, List.map_append, definedNames, definedNames]

end Mark

theorem append_eq_append_cons_iff {α : Type} {first second before after : List α} {x : α} :
    first ++ second = before ++ x :: after ↔
      (∃ rest, first = before ++ x :: rest ∧ after = rest ++ second) ∨
        ∃ rest, before = first ++ rest ∧ second = rest ++ x :: after := by
  rw [List.append_eq_append_iff]
  constructor
  · rintro (⟨rest, rfl, rfl⟩ | ⟨rest, rfl, hrest⟩)
    · exact .inr ⟨rest, rfl, rfl⟩
    · cases rest with
      | nil => exact .inr ⟨[], by simp, by simpa using hrest.symm⟩
      | cons y rest =>
          cases hrest
          exact .inl ⟨rest, rfl, rfl⟩
  · rintro (⟨rest, rfl, rfl⟩ | ⟨rest, rfl, rfl⟩)
    · exact .inr ⟨x :: rest, rfl, rfl⟩
    · exact .inl ⟨rest, rfl, rfl⟩

namespace Json

mutual

/-- The definitions and mentions of a value within a namespace, in document order. -/
def marks (within : List String) (space : Option String) : Json → List Mark
  | .str name => [.mentions within space name]
  | .arr items => marksOfItems within space items
  | .obj members =>
    match Entries.get? members "type" with
    | some (.str word) =>
      if word = "array" then marksOfMember within space "items" members
      else if word = "map" then marksOfMember within space "values" members
      else if word = "record" ∨ word = "error" then
        .defines within (.ofMembers space members) ::
          marksOfFields (within ++ [(Definition.ofMembers space members).fullName])
            (Definition.ofMembers space members).innerSpace members
      else if word = "enum" ∨ word = "fixed" then [.defines within (.ofMembers space members)]
      else [.mentions within space word]
    | _ => []
  | _ => []
termination_by structural json => json

/-- `marks` of each item of an array. -/
def marksOfItems (within : List String) (space : Option String) : List Json → List Mark
  | [] => []
  | item :: rest => item.marks within space ++ marksOfItems within space rest
termination_by structural items => items

/-- `marks` of the first member under a key. -/
def marksOfMember (within : List String) (space : Option String) (attr : String) :
    List (String × Json) → List Mark
  | [] => []
  | (key, value) :: rest =>
    if key = attr then value.marks within space else marksOfMember within space attr rest
termination_by structural members => members

/-- `marks` of the fields that the first `fields` member lists. -/
def marksOfFields (within : List String) (space : Option String) :
    List (String × Json) → List Mark
  | [] => []
  | (key, value) :: rest =>
    if key = "fields" then marksOfFieldsValue within space value
    else marksOfFields within space rest
termination_by structural members => members

/-- `marks` of the fields that a value lists. -/
def marksOfFieldsValue (within : List String) (space : Option String) : Json → List Mark
  | .arr items => marksOfFieldItems within space items
  | _ => []
termination_by structural json => json

/-- `marks` of each field of a list. -/
def marksOfFieldItems (within : List String) (space : Option String) : List Json → List Mark
  | [] => []
  | item :: rest => marksOfField within space item ++ marksOfFieldItems within space rest
termination_by structural items => items

/-- `marks` of the type of a field. -/
def marksOfField (within : List String) (space : Option String) : Json → List Mark
  | .obj members => marksOfMember within space "type" members
  | _ => []
termination_by structural json => json

end

/-! ## The marks of each kind of node -/

section Nodes

variable {within : List String} {space : Option String} {members : Entries Json}

theorem marksOfMember_of_get? {attr : String} {value : Json}
    (h : Entries.get? members attr = some value) :
    marksOfMember within space attr members = value.marks within space := by
  induction members with
  | nil => cases h
  | cons member rest ih =>
      obtain ⟨key, found⟩ := member
      rw [Entries.get?_cons] at h
      rw [marksOfMember]
      by_cases hkey : key = attr
      · rw [if_pos hkey.symm] at h
        rw [if_pos hkey, Option.some.inj h]
      · rw [if_neg (Ne.symm hkey)] at h
        rw [if_neg hkey, ih h]

theorem marksOfFields_of_get? {items : List Json}
    (h : Entries.get? members "fields" = some (.arr items)) :
    marksOfFields within space members = marksOfFieldItems within space items := by
  induction members with
  | nil => cases h
  | cons member rest ih =>
      obtain ⟨key, found⟩ := member
      rw [Entries.get?_cons] at h
      rw [marksOfFields]
      by_cases hkey : key = "fields"
      · rw [if_pos hkey.symm] at h
        rw [if_pos hkey, Option.some.inj h, marksOfFieldsValue]
      · rw [if_neg (Ne.symm hkey)] at h
        rw [if_neg hkey, ih h]

theorem marks_of_word {word : String} (htype : Entries.get? members "type" = some (.str word))
    (hword : word ∉ Schema.typeWords) :
    (obj members).marks within space = [.mentions within space word] := by
  simp only [Schema.typeWords, List.mem_cons, List.not_mem_nil, or_false, not_or] at hword
  obtain ⟨harray, hmap, hrecord, herror, henum, hfixed⟩ := hword
  simp only [marks, htype, harray, hmap, hrecord, herror, henum, hfixed, if_false, or_self]

theorem marks_of_array {value : Json} (htype : Entries.get? members "type" = some (.str "array"))
    (hvalue : Entries.get? members "items" = some value) :
    (obj members).marks within space = value.marks within space := by
  simp only [marks, htype, if_true]
  exact marksOfMember_of_get? hvalue

theorem marks_of_map {value : Json} (htype : Entries.get? members "type" = some (.str "map"))
    (hvalue : Entries.get? members "values" = some value) :
    (obj members).marks within space = value.marks within space := by
  have hmap : "map" ≠ "array" := by decide
  simp only [marks, htype, if_neg hmap, if_true]
  exact marksOfMember_of_get? hvalue

theorem marks_of_record {isError : Bool} {items : List Json}
    (htype : Entries.get? members "type" = some (.str (Schema.recordWord isError)))
    (hvalue : Entries.get? members "fields" = some (.arr items)) :
    (obj members).marks within space =
      .defines within (.ofMembers space members) ::
        marksOfFieldItems (within ++ [(Definition.ofMembers space members).fullName])
          (Definition.ofMembers space members).innerSpace items := by
  have harray : Schema.recordWord isError ≠ "array" := by cases isError <;> decide
  have hmap : Schema.recordWord isError ≠ "map" := by cases isError <;> decide
  have hrecord : Schema.recordWord isError = "record" ∨ Schema.recordWord isError = "error" := by
    cases isError <;> decide
  simp only [marks, htype, if_neg harray, if_neg hmap, if_pos hrecord]
  rw [marksOfFields_of_get? hvalue]

theorem marks_of_enum (htype : Entries.get? members "type" = some (.str "enum")) :
    (obj members).marks within space = [.defines within (.ofMembers space members)] := by
  simp [marks, htype]

theorem marks_of_fixed (htype : Entries.get? members "type" = some (.str "fixed")) :
    (obj members).marks within space = [.defines within (.ofMembers space members)] := by
  simp [marks, htype]

end Nodes

end Json

/-! ## Claims -/

namespace Schema

theorem textOf_of_ok {members : Entries Json} {attr : String} {value : Option String}
    (h : textAttribute members attr = .ok value) : Definition.textOf members attr = value := by
  rw [textAttribute] at h
  rw [Definition.textOf]
  split at h
  next hnone =>
    cases h
    rw [hnone]
  next hnull =>
    cases h
    rw [hnull]
  next text htext =>
    cases h
    rw [htext]
  next => cases h

theorem requiredText_eq_ok {members : Entries Json} {kind attr value : String}
    (h : requiredText members kind attr = .ok value) :
    textAttribute members attr = .ok (some value) := by
  obtain ⟨found, hfound, h⟩ := bind_eq_ok_iff.mp h
  cases found with
  | none => cases h
  | some text =>
      cases h
      exact hfound

/-- A definition that is read has the name and the namespace that its members give it. -/
theorem ReadsHead.definition {space : Option String} {kind : String} {reserved : List String}
    {members : Entries Json} {head : TypeHead}
    (h : ReadsHead space kind reserved members head) :
    (Definition.ofMembers space members).name = head.name ∧
      (Definition.ofMembers space members).space = head.space := by
  obtain ⟨hname, ⟨explicit, hexplicit, hspace⟩, -⟩ := nameOf_eq_ok_iff.mp h.name
  constructor
  · rw [Definition.ofMembers, textOf_of_ok (requiredText_eq_ok hname), Option.getD_some]
  · rw [Definition.space, Definition.ofMembers, textOf_of_ok hexplicit, hspace]

theorem ReadsHead.fullName_definition {space : Option String} {kind : String}
    {reserved : List String} {members : Entries Json} {head : TypeHead}
    (h : ReadsHead space kind reserved members head) :
    (Definition.ofMembers space members).fullName = head.fullName := by
  rw [Definition.fullName, h.definition.1, h.definition.2, TypeHead.fullName]

theorem ReadsHead.innerSpace_definition {space : Option String} {kind : String}
    {reserved : List String} {members : Entries Json} {head : TypeHead}
    (h : ReadsHead space kind reserved members head) :
    (Definition.ofMembers space members).innerSpace = innerSpace head.name head.space := by
  rw [Definition.innerSpace, h.definition.1, h.definition.2]

theorem claimed_of_claim {scope opened : Scope} {fullName : String}
    (h : scope.claim fullName = .ok opened) :
    opened.claimed = scope.claimed ++ [fullName] := by
  obtain ⟨-, -, rfl⟩ := Scope.claim_eq_ok_iff.mp h
  rfl

theorem mem_claimed_of_claim {scope opened : Scope} {fullName : String}
    (h : scope.claim fullName = .ok opened) : fullName ∈ opened.claimed := by
  rw [claimed_of_claim h]
  exact List.mem_append_right _ (List.mem_singleton_self fullName)

theorem name_notMem_typeWords (kind : PrimitiveKind) : kind.name ∉ typeWords := by
  cases kind <;> decide

mutual

/-- A reading claims the definitions of its value, in document order. -/
theorem Reads.claimed {scope scope' : Scope} {space : Option String} {json : Json}
    {schema : Schema} (within : List String) :
    Reads scope space json schema scope' →
      scope'.claimed = scope.claimed ++ Mark.definedNames (json.marks within space)
  | .name _ => by simp [Json.marks]
  | .union h => by
      rw [Json.marks]
      exact h.claimed within
  | @Reads.primitive _ _ _ kind htype => by
      simp [Json.marks_of_word htype (name_notMem_typeWords kind)]
  | .array htype hvalue h => by
      rw [Json.marks_of_array htype hvalue]
      exact h.claimed within
  | .map htype hvalue h => by
      rw [Json.marks_of_map htype hvalue]
      exact h.claimed within
  | @Reads.record _ _ _ head _ _ _ _ _ htype hhead hclaim hvalue h => by
      rw [Json.marks_of_record htype hvalue, hhead.fullName_definition,
        hhead.innerSpace_definition, Mark.definedNames_defines, hhead.fullName_definition,
        Scope.claimed_finish, h.claimed (within ++ [head.fullName]), claimed_of_claim hclaim,
        List.append_assoc, List.singleton_append]
  | .enum htype hhead hclaim _ _ _ => by
      rw [Json.marks_of_enum htype, Mark.definedNames_defines, hhead.fullName_definition,
        Scope.claimed_finish]
      exact claimed_of_claim hclaim
  | .fixed htype hhead hclaim _ _ => by
      rw [Json.marks_of_fixed htype, Mark.definedNames_defines, hhead.fullName_definition,
        Scope.claimed_finish]
      exact claimed_of_claim hclaim
  | .named htype _ hword _ => by simp [Json.marks_of_word htype hword]

theorem ReadsMembers.claimed {scope scope' : Scope} {space : Option String} {seen : List String}
    {items : List Json} {schemas : List Schema} (within : List String) :
    ReadsMembers scope space seen items schemas scope' →
      scope'.claimed = scope.claimed ++ Mark.definedNames (Json.marksOfItems within space items)
  | .nil => by simp [Json.marksOfItems]
  | .cons h _ _ hrest => by
      rw [Json.marksOfItems, Mark.definedNames_append, hrest.claimed within, h.claimed within,
        List.append_assoc]

theorem ReadsFields.claimed {scope scope' : Scope} {space : Option String} {seen : List String}
    {items : List Json} {fields : List Field} (within : List String) :
    ReadsFields scope space seen items fields scope' →
      scope'.claimed =
        scope.claimed ++ Mark.definedNames (Json.marksOfFieldItems within space items)
  | .nil => by simp [Json.marksOfFieldItems]
  | .cons _ hvalue h _ hrest => by
      rw [Json.marksOfFieldItems, Json.marksOfField, Json.marksOfMember_of_get? hvalue,
        Mark.definedNames_append, hrest.claimed within, h.claimed within, List.append_assoc]

end

theorem Reads.mem_claimed {scope scope' : Scope} {space : Option String} {json : Json}
    {schema : Schema} {fullName : String} (h : Reads scope space json schema scope')
    (hmem : fullName ∈ scope.claimed) : fullName ∈ scope'.claimed := by
  rw [h.claimed []]
  exact List.mem_append_left _ hmem

theorem ReadsFields.mem_claimed {scope scope' : Scope} {space : Option String}
    {seen : List String} {items : List Json} {fields : List Field} {fullName : String}
    (h : ReadsFields scope space seen items fields scope') (hmem : fullName ∈ scope.claimed) :
    fullName ∈ scope'.claimed := by
  rw [h.claimed []]
  exact List.mem_append_left _ hmem

end Schema

end EventSchema
