import EventSchema.Proofs.Places
import EventSchema.Proofs.Writable

/-!
# Extra attributes from reading to writing

An object that stands for a schema or for a field may have attributes that its
kind does not define.  What is written for a schema that was read follows the
value that it was read from, place by place.  The main statement is that the
object at a place is written with its extra attributes exactly when it is not a
mere mention of a type by name, which is written as a bare name.
-/

namespace EventSchema

/-! ## Objects of a value -/

/-- A place where an object stands: for a schema at the end of a path, or for one of the fields of
the record there. -/
structure ObjectPlace where
  path : List Step
  field : Option Nat := none

namespace Json

/-- The members of an object. -/
def members? : Json → Option (Entries Json)
  | obj members => some members
  | _ => none

/-- The items of an array. -/
def items? : Json → Option (List Json)
  | arr items => some items
  | _ => none

/-- An attribute of an object that has this word as its type. -/
def attributeOf? (members : Entries Json) (word attr : String) : Option Json :=
  if members.get? "type" = some (.str word) then members.get? attr else none

/-- The object that stands for a field of a record. -/
def field? : Json → Nat → Option (Entries Json)
  | obj members, index => do
    let fields ← (attributeOf? members (Schema.recordWord false) "fields").or
      (attributeOf? members (Schema.recordWord true) "fields")
    let items ← fields.items?
    let item ← items[index]?
    item.members?
  | _, _ => none

/-- The part of a value that a step leads to. -/
def part? : Json → Step → Option Json
  | obj members, .items => attributeOf? members "array" "items"
  | obj members, .values => attributeOf? members "map" "values"
  | arr items, .member index => items[index]?
  | obj members, .field index => ((obj members).field? index).bind fun field => field.get? "type"
  | _, _ => none

/-- The value at the end of a path. -/
def at? (value : Json) : List Step → Option Json
  | [] => some value
  | step :: path => (value.part? step).bind fun part => part.at? path

/-- The object that stands for the schema of a value, or for one of its fields. -/
def object? (value : Json) : Option Nat → Option (Entries Json)
  | none => value.members?
  | some index => value.field? index

/-- The object at a place. -/
def objectAt? (value : Json) (place : ObjectPlace) : Option (Entries Json) :=
  (value.at? place.path).bind fun node => node.object? place.field

/-- The words of the types that have parts. -/
def partWords : List String := ["array", "map", "record", "error"]

section Parts

variable {members : Entries Json} {word : String} {step : Step} {part : Json}

theorem eq_obj_of_members? {value : Json} (h : value.members? = some members) :
    value = obj members := by
  cases value with
  | obj found =>
      cases h
      rfl
  | null | bool | num | str | arr => cases h

theorem attributeOf?_of_type (htype : members.get? "type" = some (.str word)) (attr : String) :
    attributeOf? members word attr = members.get? attr :=
  if_pos htype

theorem attributeOf?_of_ne {other : String} (htype : members.get? "type" = some (.str other))
    (hne : other ≠ word) (attr : String) : attributeOf? members word attr = none := by
  refine if_neg ?_
  rw [htype]
  rintro ⟨⟩
  exact hne rfl

theorem recordWord_mem_partWords (isError : Bool) : Schema.recordWord isError ∈ partWords := by
  cases isError <;> decide

theorem field?_of_record {isError : Bool} {items : List Json}
    (htype : members.get? "type" = some (.str (Schema.recordWord isError)))
    (hfields : members.get? "fields" = some (.arr items)) (index : Nat) :
    (obj members).field? index = items[index]?.bind members? := by
  have hlisted : (attributeOf? members (Schema.recordWord false) "fields").or
      (attributeOf? members (Schema.recordWord true) "fields") = some (.arr items) := by
    cases isError with
    | false => rw [attributeOf?_of_type htype, hfields, Option.some_or]
    | true =>
        rw [attributeOf?_of_ne htype (by decide), attributeOf?_of_type htype, hfields,
          Option.none_or]
  rw [field?, hlisted]
  rfl

theorem field?_eq_none (htype : members.get? "type" = some (.str word))
    (hword : ∀ isError, word ≠ Schema.recordWord isError) (index : Nat) :
    (obj members).field? index = none := by
  rw [field?, attributeOf?_of_ne htype (hword false), attributeOf?_of_ne htype (hword true)]
  rfl

theorem part?_of_array (htype : members.get? "type" = some (.str "array")) (step : Step) :
    (obj members).part? step = if step = .items then members.get? "items" else none := by
  cases step with
  | items => exact attributeOf?_of_type htype "items"
  | values => exact attributeOf?_of_ne htype (by decide) "values"
  | member index => rfl
  | field index =>
      rw [part?, field?_eq_none htype (by decide)]
      rfl

theorem part?_of_map (htype : members.get? "type" = some (.str "map")) (step : Step) :
    (obj members).part? step = if step = .values then members.get? "values" else none := by
  cases step with
  | items => exact attributeOf?_of_ne htype (by decide) "items"
  | values => exact attributeOf?_of_type htype "values"
  | member index => rfl
  | field index =>
      rw [part?, field?_eq_none htype (by decide)]
      rfl

/-- The parts of a record are the types of its fields. -/
theorem part?_of_record {isError : Bool} {items : List Json}
    (htype : members.get? "type" = some (.str (Schema.recordWord isError)))
    (hfields : members.get? "fields" = some (.arr items))
    (h : (obj members).part? step = some part) :
    ∃ index field, step = .field index ∧ items[index]? = some (.obj field) ∧
      Entries.get? field "type" = some part := by
  have harray : Schema.recordWord isError ≠ "array" := by cases isError <;> decide
  have hmap : Schema.recordWord isError ≠ "map" := by cases isError <;> decide
  cases step with
  | items =>
      rw [part?, attributeOf?_of_ne htype harray] at h
      cases h
  | values =>
      rw [part?, attributeOf?_of_ne htype hmap] at h
      cases h
  | member index => cases h
  | field index =>
      obtain ⟨field, hfield, hpart⟩ := Option.bind_eq_some_iff.mp h
      rw [field?_of_record htype hfields] at hfield
      obtain ⟨item, hitem, hmembers⟩ := Option.bind_eq_some_iff.mp hfield
      obtain rfl := eq_obj_of_members? hmembers
      exact ⟨index, field, rfl, hitem, hpart⟩

/-- An object of another type has neither fields nor parts. -/
theorem field?_part?_eq_none (htype : members.get? "type" = some (.str word))
    (hword : word ∉ partWords) :
    (∀ index, (obj members).field? index = none) ∧
      ∀ step, (obj members).part? step = none := by
  have hfield : ∀ index, (obj members).field? index = none := by
    apply field?_eq_none htype
    rintro isError rfl
    exact hword (recordWord_mem_partWords isError)
  refine ⟨hfield, ?_⟩
  intro step
  cases step with
  | items =>
      refine attributeOf?_of_ne htype ?_ "items"
      rintro rfl
      exact hword (by decide)
  | values =>
      refine attributeOf?_of_ne htype ?_ "values"
      rintro rfl
      exact hword (by decide)
  | member index => rfl
  | field index =>
      rw [part?, hfield]
      rfl

end Parts

end Json

/-! ## Attributes that are kept -/

namespace Schema

/-- The attributes that an object with this word as its type defines.  Primitive types and mentions
of types define the word only. -/
def attributesOfWord (word : String) : List String :=
  if word = "array" then arrayAttributes
  else if word = "map" then mapAttributes
  else if word = "record" ∨ word = "error" then recordAttributes
  else if word = "enum" then enumAttributes
  else if word = "fixed" then fixedAttributes
  else primitiveAttributes

/-- The attributes that an object defines as a schema. -/
def attributesOf (members : Entries Json) : List String :=
  match members.get? "type" with
  | some (.str word) => attributesOfWord word
  | _ => []

/-- An object mentions a type by name: its type is neither a primitive type nor one of the words of
the format. -/
def Mentions (members : Entries Json) : Prop :=
  ∃ word, members.get? "type" = some (.str word) ∧ PrimitiveKind.ofName? word = none ∧
    word ∉ typeWords

end Schema

namespace ObjectPlace

/-- The attributes that the object at a place defines. -/
def attributes (place : ObjectPlace) (object : Entries Json) : List String :=
  if place.field.isNone then Schema.attributesOf object else Schema.fieldAttributes

/-- The object at a place stands for a schema and mentions it by name. -/
def Mentions (place : ObjectPlace) (object : Entries Json) : Prop :=
  place.field = none ∧ Schema.Mentions object

/-- The extra attributes of the object at a place of one value stand at the same place of another
exactly when the object does not mention a type. -/
def Kept (value json : Json) (place : ObjectPlace) : Prop :=
  ∀ object key extra, value.objectAt? place = some object → key ∉ place.attributes object →
    object.get? key = some extra →
      ((∃ kept, json.objectAt? place = some kept ∧ kept.get? key = some extra) ↔
        ¬ place.Mentions object)

theorem attributes_of_type {members : Entries Json} {word : String}
    (htype : members.get? "type" = some (.str word)) (path : List Step) :
    attributes ⟨path, none⟩ members = Schema.attributesOfWord word := by
  change Schema.attributesOf members = _
  rw [Schema.attributesOf, htype]

end ObjectPlace

open ObjectPlace (Kept attributes_of_type)

namespace Schema

/-- Related lists have related elements at each index. -/
theorem exists_getElem?_of_forall₂ {α β : Type} {related : α → β → Prop} {firsts : List α}
    {seconds : List β} {index : Nat} {first : α} (h : List.Forall₂ related firsts seconds)
    (hfirst : firsts[index]? = some first) :
    ∃ second, seconds[index]? = some second ∧ related first second := by
  obtain ⟨hindex, rfl⟩ := List.getElem?_eq_some_iff.mp hfirst
  have hlength : index < seconds.length := h.length_eq ▸ hindex
  exact ⟨seconds[index], List.getElem?_eq_getElem hlength, h.get hindex hlength⟩

/-- The extra attributes of one value are kept in the other, at every place. -/
def Carries (value json : Json) : Prop :=
  ∀ place, Kept value json place

/-- The object of one field is kept in the other, and the schema of one in that of the other. -/
inductive CarriesField : Json → Json → Prop
  | intro {members written value json}
      (hvalue : Entries.get? members "type" = some value)
      (hwritten : Entries.get? written "type" = some json) (h : Carries value json)
      (hextras : ∀ key, key ∉ fieldAttributes →
        Entries.get? written key = Entries.get? members key) :
      CarriesField (.obj members) (.obj written)

section Carrying

variable {value json : Json} {members written : Entries Json} {word : String}

/-- The objects of a value are its own object, its fields, and the objects of its parts. -/
theorem carries_of_parts (hroot : ∀ field, Kept value json ⟨[], field⟩)
    (hparts : ∀ step part, value.part? step = some part →
      ∃ other, json.part? step = some other ∧ Carries part other) : Carries value json := by
  rintro ⟨path, field⟩ object key extra hobject
  cases path with
  | nil => exact hroot field object key extra hobject
  | cons step path =>
      obtain ⟨node, hnode, hmembers⟩ := Option.bind_eq_some_iff.mp hobject
      obtain ⟨part, hpart, hnode⟩ := Option.bind_eq_some_iff.mp hnode
      obtain ⟨other, hother, hcarries⟩ := hparts step part hpart
      have hplace : part.objectAt? ⟨path, field⟩ = some object :=
        Option.bind_eq_some_iff.mpr ⟨node, hnode, hmembers⟩
      have hsame : json.objectAt? ⟨step :: path, field⟩ = other.objectAt? ⟨path, field⟩ := by
        rw [Json.objectAt?, Json.at?, hother, Option.bind_some]
        rfl
      rw [hsame]
      exact hcarries ⟨path, field⟩ object key extra hplace

/-- A value without fields has no object but its own and those of its parts. -/
theorem kept_of_no_fields (hfields : ∀ index, value.field? index = none)
    (hroot : Kept value json ⟨[], none⟩) (field : Option Nat) : Kept value json ⟨[], field⟩ := by
  cases field with
  | none => exact hroot
  | some index =>
      intro object key extra hobject
      have hfield : value.field? index = some object := hobject
      rw [hfields] at hfield
      cases hfield

theorem carries_str (name : String) (json : Json) : Carries (.str name) json := by
  apply carries_of_parts
  · intro field object key extra hobject
    cases field <;> cases hobject
  · intro step part hpart
    cases step <;> cases hpart

theorem carries_union {items jsons : List Json} (h : List.Forall₂ Carries items jsons) :
    Carries (.arr items) (.arr jsons) := by
  apply carries_of_parts
  · intro field object key extra hobject
    cases field <;> cases hobject
  · intro step part hpart
    cases step with
    | items | values | field => cases hpart
    | member index => exact exists_getElem?_of_forall₂ h hpart

/-- An object whose type has no parts. -/
theorem carries_of_word (htype : members.get? "type" = some (.str word))
    (hword : word ∉ Json.partWords) (hroot : Kept (.obj members) json ⟨[], none⟩) :
    Carries (.obj members) json := by
  obtain ⟨hfields, hparts⟩ := Json.field?_part?_eq_none htype hword
  apply carries_of_parts (kept_of_no_fields hfields hroot)
  intro step part hpart
  rw [hparts] at hpart
  cases hpart

/-- The mention of a type is written without its attributes. -/
theorem carries_mention {text : String} (htype : members.get? "type" = some (.str word))
    (hkind : PrimitiveKind.ofName? word = none) (hword : word ∉ typeWords) :
    Carries (.obj members) (.str text) := by
  have hsubset : Json.partWords ⊆ typeWords := by decide
  apply carries_of_word htype (fun hmem => hword (hsubset hmem))
  rintro object key extra ⟨⟩ - -
  apply iff_of_false
  · rintro ⟨kept, ⟨⟩, -⟩
  · exact not_not_intro ⟨rfl, word, htype, hkind, hword⟩

/-- The object of a type that is no mention is kept where its extra attributes are written beside
members under its own keys. -/
theorem kept_root {reserved : List String} (htype : members.get? "type" = some (.str word))
    (hword : PrimitiveKind.ofName? word = none → word ∈ typeWords)
    (hattributes : attributesOfWord word = reserved) (hwritten : written.keys ⊆ reserved) :
    Kept (.obj members) (withProps written (.ofMembers reserved members)) ⟨[], none⟩ := by
  rintro object key extra ⟨⟩ hkey hextra
  rw [attributes_of_type htype, hattributes] at hkey
  apply iff_of_true
  · refine ⟨_, rfl, ?_⟩
    rw [get?_withExtras hwritten hkey, hextra]
  · rintro ⟨-, other, hother, hkind, hnot⟩
    rw [htype] at hother
    cases hother
    exact hnot (hword hkind)

theorem carries_primitive {kind : PrimitiveKind}
    (htype : members.get? "type" = some (.str kind.name)) (space : Option String)
    (written : List String) :
    ∃ json, Writes space written (primitive kind (.ofMembers primitiveAttributes members)) json
        written ∧ Carries (.obj members) json := by
  have hparts : kind.name ∉ Json.partWords := by cases kind <;> decide
  have hattributes : attributesOfWord kind.name = primitiveAttributes := by cases kind <;> rfl
  cases hprops : (Props.ofMembers primitiveAttributes members).entries.isEmpty with
  | true =>
      refine ⟨_, .word hprops, carries_of_word htype hparts ?_⟩
      -- Without extra attributes, there is nothing to keep.
      rintro object key extra ⟨⟩ hkey hextra
      rw [attributes_of_type htype, hattributes] at hkey
      rw [← Props.get?_ofMembers hkey, Props.get?, List.isEmpty_iff.mp hprops] at hextra
      cases hextra
  | false =>
      refine ⟨_, .primitive hprops, carries_of_word htype hparts ?_⟩
      apply kept_root htype _ hattributes
      · simp [primitiveAttributes]
      · rw [PrimitiveKind.ofName?_name]
        rintro ⟨⟩

/-- An object with one part, which stands under an attribute of its own. -/
theorem carries_of_single {attr : String} {step : Step} {part other : Json} {extras : Props}
    (hsteps : ∀ object : Entries Json, object.get? "type" = some (.str word) →
      ∀ other, (Json.obj object).part? other = if other = step then object.get? attr else none)
    (hword : ∀ isError, word ≠ recordWord isError)
    (htype : members.get? "type" = some (.str word)) (hvalue : members.get? attr = some part)
    (hwritten : written.get? "type" = some (.str word)) (hother : written.get? attr = some other)
    (hroot : Kept (.obj members) (withProps written extras) ⟨[], none⟩)
    (h : Carries part other) : Carries (.obj members) (withProps written extras) := by
  apply carries_of_parts (kept_of_no_fields (Json.field?_eq_none htype hword) hroot)
  intro found value hpart
  rw [hsteps members htype] at hpart
  split at hpart
  next heq =>
    rw [hvalue] at hpart
    cases hpart
    refine ⟨other, ?_, h⟩
    rw [withProps, hsteps _ (get?_withProps hwritten), if_pos heq, get?_withProps hother]
  next => cases hpart

theorem carries_array {part other : Json} (htype : members.get? "type" = some (.str "array"))
    (hvalue : members.get? "items" = some part) (h : Carries part other) :
    Carries (.obj members) (withProps [("type", .str "array"), ("items", other)]
      (.ofMembers arrayAttributes members)) := by
  have hkeys : Entries.keys [("type", .str "array"), ("items", other)] ⊆ arrayAttributes := by
    simp [arrayAttributes]
  exact carries_of_single (fun _ => Json.part?_of_array) (by decide) htype hvalue rfl rfl
    (kept_root htype (by decide) rfl hkeys) h

theorem carries_map {part other : Json} (htype : members.get? "type" = some (.str "map"))
    (hvalue : members.get? "values" = some part) (h : Carries part other) :
    Carries (.obj members) (withProps [("type", .str "map"), ("values", other)]
      (.ofMembers mapAttributes members)) := by
  have hkeys : Entries.keys [("type", .str "map"), ("values", other)] ⊆ mapAttributes := by
    simp [mapAttributes]
  exact carries_of_single (fun _ => Json.part?_of_map) (by decide) htype hvalue rfl rfl
    (kept_root htype (by decide) rfl hkeys) h

theorem ReadsHead.props_eq {space : Option String} {reserved : List String} {head : TypeHead}
    (h : ReadsHead space word reserved members head) :
    head.props = .ofMembers reserved members := by
  obtain ⟨doc, -, hrest⟩ := bind_eq_ok_iff.mp h.rest
  obtain ⟨aliases, -, hrest⟩ := bind_eq_ok_iff.mp hrest
  exact congrArg TypeHead.props (Except.ok.inj hrest).symm

/-- The object of a definition is kept where its opening is written before the rest of it. -/
theorem kept_definition {space around : Option String} {reserved : List String}
    {body : Entries Json} {head : TypeHead}
    (hhead : ReadsHead around word reserved members head)
    (htype : members.get? "type" = some (.str word)) (hword : word ∈ typeWords)
    (hattributes : attributesOfWord word = reserved) (hreserved : headAttributes ⊆ reserved)
    (hbody : body.keys ⊆ reserved) :
    Kept (.obj members) (withProps (opening space word head ++ body) head.props) ⟨[], none⟩ := by
  have hopening : (opening space word head).keys ⊆ reserved :=
    List.Subset.trans (keys_opening_subset space word head) hreserved
  rw [hhead.props_eq]
  apply kept_root htype (fun _ => hword) hattributes
  rw [Entries.keys_append]
  exact List.append_subset.mpr ⟨hopening, hbody⟩

theorem carries_of_record {isError : Bool} {items jsons : List Json}
    (htype : members.get? "type" = some (.str (recordWord isError)))
    (hfields : members.get? "fields" = some (.arr items))
    (hwritten : written.get? "type" = some (.str (recordWord isError)))
    (hlisted : written.get? "fields" = some (.arr jsons))
    (hroot : Kept (.obj members) (.obj written) ⟨[], none⟩)
    (h : List.Forall₂ CarriesField items jsons) : Carries (.obj members) (.obj written) := by
  have hfield : ∀ {index kept}, jsons[index]? = some (.obj kept) →
      (Json.obj written).field? index = some kept := by
    intro index kept hkept
    rw [Json.field?_of_record hwritten hlisted, hkept]
    rfl
  apply carries_of_parts
  · intro field
    cases field with
    | none => exact hroot
    | some index =>
        intro object key extra hobject hkey hextra
        have hread : (Json.obj members).field? index = some object := hobject
        rw [Json.field?_of_record htype hfields] at hread
        obtain ⟨item, hitem, hmembers⟩ := Option.bind_eq_some_iff.mp hread
        obtain rfl := Json.eq_obj_of_members? hmembers
        obtain ⟨json, hjson, hcarries⟩ := exists_getElem?_of_forall₂ h hitem
        cases hcarries with
        | @intro _ kept _ _ _ _ _ hextras =>
            apply iff_of_true
            · refine ⟨kept, hfield hjson, ?_⟩
              rw [hextras key hkey, hextra]
            · rintro ⟨⟨⟩, -⟩
  · intro step part hpart
    obtain ⟨index, field, rfl, hitem, hpart⟩ := Json.part?_of_record htype hfields hpart
    obtain ⟨json, hjson, hcarries⟩ := exists_getElem?_of_forall₂ h hitem
    cases hcarries with
    | @intro _ kept _ other hvalue hother hcarries _ =>
        rw [hvalue] at hpart
        cases hpart
        refine ⟨other, ?_, hcarries⟩
        rw [Json.part?, hfield hjson, Option.bind_some, hother]

end Carrying

/-! ## Following a reading -/

/-- A name that is read is written as a name. -/
theorem exists_writes_name {scope : Scope} {space : Option String} {name : String}
    {schema : Schema} (hsettled : scope.Settled) (haddressed : scope.Addressed)
    (h : scope.schemaOfName space name = .ok schema) :
    ∃ text, Writes space scope.claimed schema (.str text) scope.claimed := by
  rcases Scope.schemaOfName_eq_ok h with ⟨kind, -, rfl⟩ | ⟨fullName, hdenotes, rfl⟩
  · exact ⟨kind.name, .word rfl⟩
  · refine ⟨referenceText space fullName, ?_⟩
    rw [← reference_eq, Scope.stored]
    cases hfinished : scope.finished.get? fullName with
    | none => exact .ref (haddressed.claimed fullName hdenotes.mem)
    | some definition =>
        obtain ⟨hmem, head, hdefines⟩ := hsettled.finished hfinished
        rw [← hdefines.fullName_eq] at hmem ⊢
        exact .again hdefines.head_eq hdefines.valid hmem

mutual

/-- The step of a reading: the schema is written, from the names claimed before to the names claimed
after, as a value that keeps the extra attributes of the one that was read. -/
theorem Reads.carries {scope scope' : Scope} {space : Option String} {value : Json}
    {schema : Schema} :
    Reads scope space value schema scope' → scope.Settled → scope.Addressed →
      ∃ json, Writes space scope.claimed schema json scope'.claimed ∧ Carries value json
  | .name h, hsettled, haddressed => by
      obtain ⟨text, hwrites⟩ := exists_writes_name hsettled haddressed h
      exact ⟨_, hwrites, carries_str _ _⟩
  | .union h, hsettled, haddressed => by
      obtain ⟨jsons, hwrites, hcarries⟩ := h.carries hsettled haddressed
      exact ⟨_, .union hwrites, carries_union hcarries⟩
  | .primitive htype, _, _ => carries_primitive htype _ _
  | .array htype hvalue h, hsettled, haddressed => by
      obtain ⟨json, hwrites, hcarries⟩ := h.carries hsettled haddressed
      exact ⟨_, .array hwrites, carries_array htype hvalue hcarries⟩
  | .map htype hvalue h, hsettled, haddressed => by
      obtain ⟨json, hwrites, hcarries⟩ := h.carries hsettled haddressed
      exact ⟨_, .map hwrites, carries_map htype hvalue hcarries⟩
  | @Reads.record _ _ _ head isError _ fields _ _ htype hhead hclaim hvalue h, hsettled,
      haddressed => by
      obtain ⟨jsons, hwrites, hcarries⟩ :=
        h.carries (hsettled.claim hclaim) (haddressed.claim hhead.sound.name hclaim)
      have hdefines : Defines (record head isError fields) head.fullName head :=
        ⟨rfl, rfl, hhead.sound.name⟩
      have hattributes : attributesOfWord (recordWord isError) = recordAttributes := by
        cases isError <;> rfl
      rw [innerSpace_eq_ownSpace hhead.sound, claimed_of_claim hclaim] at hwrites
      -- The fields are written closed as they were written open, since the name comes first.
      have hclosed := hwrites.close hdefines (by simp)
      refine ⟨_, .record hhead.sound.name (Scope.claim_eq_ok_iff.mp hclaim).2.1 hclosed, ?_⟩
      apply carries_of_record htype hvalue get?_writtenMembers_type
        (get?_writtenMembers_of_body (by decide) rfl) _ hcarries
      exact kept_definition hhead htype (recordWord_mem_typeWords isError) hattributes (by decide)
        (by simp [recordAttributes])
  | @Reads.enum scope space _ head _ symbols defaultSymbol _ htype hhead hclaim _ _ _, _, _ => by
      have hbody : (enumMembers symbols defaultSymbol).keys ⊆ enumAttributes :=
        List.Subset.trans (keys_enumMembers_subset symbols defaultSymbol) (by decide)
      have hwrites : Writes space scope.claimed (enum head symbols defaultSymbol) _ _ :=
        .enum hhead.sound.name (Scope.claim_eq_ok_iff.mp hclaim).2.1
      rw [← claimed_of_claim hclaim] at hwrites
      refine ⟨_, hwrites, carries_of_word htype (by decide) ?_⟩
      exact kept_definition hhead htype (by decide) rfl (by decide) hbody
  | @Reads.fixed scope space _ head _ size _ htype hhead hclaim _ _, _, _ => by
      have hbody : Entries.keys [("size", Json.ofUInt64 size)] ⊆ fixedAttributes := by
        simp [fixedAttributes]
      have hwrites : Writes space scope.claimed (fixed head size) _ _ :=
        .fixed hhead.sound.name (Scope.claim_eq_ok_iff.mp hclaim).2.1
      rw [← claimed_of_claim hclaim] at hwrites
      refine ⟨_, hwrites, carries_of_word htype (by decide) ?_⟩
      exact kept_definition hhead htype (by decide) rfl (by decide) hbody
  | .named htype hkind hword h, hsettled, haddressed => by
      obtain ⟨text, hwrites⟩ := exists_writes_name hsettled haddressed h
      exact ⟨_, hwrites, carries_mention htype hkind hword⟩

theorem ReadsMembers.carries {scope scope' : Scope} {space : Option String}
    {seen : List String} {items : List Json} {schemas : List Schema} :
    ReadsMembers scope space seen items schemas scope' → scope.Settled → scope.Addressed →
      ∃ jsons, WritesMembers space scope.claimed schemas jsons scope'.claimed ∧
        List.Forall₂ Carries items jsons
  | .nil, _, _ => ⟨[], .nil, .nil⟩
  | .cons h hkey _ hrest, hsettled, haddressed => by
      obtain ⟨json, hwrites, hcarries⟩ := h.carries hsettled haddressed
      obtain ⟨jsons, hwritesRest, hcarriesRest⟩ :=
        hrest.carries (h.visible hsettled).1 (h.addressed haddressed).1
      refine ⟨json :: jsons, .cons ?_ hwrites hwritesRest, .cons hcarries hcarriesRest⟩
      rintro inner rfl
      cases hkey

theorem ReadsFields.carries {scope scope' : Scope} {space : Option String}
    {seen : List String} {items : List Json} {fields : List Field} :
    ReadsFields scope space seen items fields scope' → scope.Settled → scope.Addressed →
      ∃ jsons, WritesFields space scope.claimed fields jsons scope'.claimed ∧
        List.Forall₂ CarriesField items jsons
  | .nil, _, _ => ⟨[], .nil, .nil⟩
  | @ReadsFields.cons _ _ _ _ _ _ field _ _ _ hlabel hvalue h _ hrest, hsettled, haddressed => by
      obtain ⟨json, hwrites, hcarries⟩ := h.carries hsettled haddressed
      obtain ⟨jsons, hwritesRest, hcarriesRest⟩ :=
        hrest.carries (h.visible hsettled).1 (h.addressed haddressed).1
      refine ⟨_, .cons hwrites hwritesRest, .cons (.intro hvalue ?_ hcarries ?_) hcarriesRest⟩
      · exact get?_withProps (get?_fieldMembers field json "type")
      · intro key hkey
        rw [← hlabel.props]
        exact get?_withExtras (keys_fieldMembers_subset field json) hkey

end

/-- A schema that was read is written, and the object at each place is written with the extra
attributes it was read with, unless it mentions a type by name: then nothing of it is left. -/
theorem attribute_kept_iff {value : Json} {schema : Schema} (h : ofJson value = .ok schema) :
    ∃ json, schema.toJson = .ok json ∧ ∀ place object key extra,
      value.objectAt? place = some object → key ∉ place.attributes object →
        object.get? key = some extra →
          ((∃ kept, json.objectAt? place = some kept ∧ kept.get? key = some extra) ↔
            ¬ place.Mentions object) := by
  obtain ⟨scope, hreads⟩ := ofJson_eq_ok_iff.mp h
  obtain ⟨json, hwrites, hcarries⟩ :=
    hreads.carries Scope.settled_empty Scope.addressed_empty
  exact ⟨json, toJson_eq_ok_iff.mpr ⟨_, hwrites⟩, hcarries⟩

/-- A record that has a length in one field, and mentions its type in another. -/
def lengthsRecord : Json :=
  .obj [("type", .str "record"), ("name", .str "R"), ("fields", .arr [
    .obj [("name", .str "x"), ("type", .obj [("type", .str "fixed"), ("name", .str "F"),
      ("size", .ofUInt64 1), ("unit", .str "m")])],
    .obj [("name", .str "y"), ("type", .obj [("type", .str "F"), ("unit", .str "s")])]])]

/-- The unit of the definition is kept, and the one of the mention is lost. -/
theorem attribute_kept_lengthsRecord :
    ∃ schema json, ofJson lengthsRecord = .ok schema ∧ schema.toJson = .ok json ∧
      (∃ kept, json.objectAt? ⟨[.field 0], none⟩ = some kept ∧
        kept.get? "unit" = some (.str "m")) ∧
      ¬ ∃ kept, json.objectAt? ⟨[.field 1], none⟩ = some kept ∧
        kept.get? "unit" = some (.str "s") := by
  have h : ofJson lengthsRecord = .ok _ := rfl
  obtain ⟨json, hjson, hkept⟩ := attribute_kept_iff h
  refine ⟨_, json, h, hjson, ?_, ?_⟩
  · refine (hkept ⟨[.field 0], none⟩ _ "unit" (.str "m") rfl (by decide) rfl).mpr ?_
    rintro ⟨-, word, hword, -, hnot⟩
    cases hword
    exact hnot (by decide)
  · intro hunit
    refine (hkept ⟨[.field 1], none⟩ _ "unit" (.str "s") rfl (by decide) rfl).mp hunit ?_
    exact ⟨rfl, "F", rfl, by decide, by decide⟩

/-- Not every extra attribute is kept: one that stands on the mention of a type is not. -/
theorem exists_dropped_attribute :
    ∃ value schema json place object key extra, ofJson value = .ok schema ∧
      schema.toJson = .ok json ∧ value.objectAt? place = some object ∧
        key ∉ place.attributes object ∧ object.get? key = some extra ∧
          ¬ ∃ kept, json.objectAt? place = some kept ∧ kept.get? key = some extra := by
  refine ⟨lengthsRecord, _, _, ⟨[.field 1], none⟩, _, "unit", .str "s", rfl, rfl, rfl,
    by decide, rfl, ?_⟩
  rintro ⟨kept, ⟨⟩, -⟩

end Schema

end EventSchema
