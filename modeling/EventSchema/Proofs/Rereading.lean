import EventSchema.Proofs.Checks
import EventSchema.Proofs.Resolution
import EventSchema.Proofs.Writing

/-!
# Reading what is written

The members that a checked definition is written with are read as the same
definition.  What is left out in writing is what a missing member stands for,
and a namespace that is left out is inherited from the enclosing one.
-/

namespace EventSchema

namespace Schema

/-! ## Looking up written members -/

theorem get?_opening (space : Option String) (word : String) (head : TypeHead) (key : String) :
    (opening space word head).get? key = ((openingSlots space word head).lookup key).join :=
  Entries.get?_present (by simp [openingSlots]) key

theorem keys_opening_subset (space : Option String) (word : String) (head : TypeHead) :
    (opening space word head).keys ⊆ headAttributes := by
  refine List.Subset.trans (Entries.keys_present_subset _) ?_
  simp [openingSlots, headAttributes]

theorem get?_fieldMembers (field : Field) (type : Json) (key : String) :
    (fieldMembers field type).get? key = ((fieldSlots field type).lookup key).join :=
  Entries.get?_present (by simp [fieldSlots]) key

theorem keys_fieldMembers_subset (field : Field) (type : Json) :
    (fieldMembers field type).keys ⊆ fieldAttributes := by
  refine List.Subset.trans (Entries.keys_present_subset _) ?_
  simp [fieldSlots, fieldAttributes]

theorem get?_enumMembers (symbols : List String) (defaultSymbol : Option String) (key : String) :
    (enumMembers symbols defaultSymbol).get? key =
      (List.lookup key [("symbols", some (Json.ofStrings symbols)),
        ("default", defaultSymbol.map .str)]).join :=
  Entries.get?_present (by simp) key

theorem keys_enumMembers_subset (symbols : List String) (defaultSymbol : Option String) :
    (enumMembers symbols defaultSymbol).keys ⊆ ["symbols", "default"] :=
  Entries.keys_present_subset _

/-! ## Attributes -/

section Attributes

variable {members : Entries Json}

theorem textAttribute_of_get? {attr : String} {value : Option String}
    (h : members.get? attr = value.map .str) : textAttribute members attr = .ok value := by
  rw [textAttribute, h]
  cases value <;> rfl

theorem requiredText_of_get? {kind attr value : String}
    (h : members.get? attr = some (.str value)) :
    requiredText members kind attr = .ok value := by
  have hattribute : textAttribute members attr = .ok (some value) := textAttribute_of_get? h
  rw [requiredText, hattribute]
  rfl

theorem aliasesOf_of_get? {aliases : List String}
    (h : members.get? "aliases" =
      if aliases.isEmpty then none else some (Json.ofStrings aliases))
    (hvalid : ∀ name ∈ aliases, Name.isValid name = true) :
    aliasesOf members = .ok aliases := by
  rw [aliasesOf, h]
  cases aliases with
  | nil => rfl
  | cons name rest => exact aliases_eq_ok_iff.mpr ⟨rfl, hvalid⟩

theorem orderOf_of_get? {order : Option FieldOrder}
    (h : members.get? "order" = order.map fun order => .str order.name) :
    orderOf members = .ok order := by
  have hattribute : textAttribute members "order" = .ok (order.map FieldOrder.name) :=
    textAttribute_of_get? (by rw [h, Option.map_map]; rfl)
  rw [orderOf, hattribute]
  cases order with
  | none => rfl
  | some order => cases order <;> rfl

theorem defaultSymbolOf_of_get? {symbols : List String} {defaultSymbol : Option String}
    (h : members.get? "default" = defaultSymbol.map .str)
    (hmem : ∀ symbol, defaultSymbol = some symbol → symbol ∈ symbols) :
    defaultSymbolOf symbols members = .ok defaultSymbol := by
  rw [defaultSymbolOf, textAttribute_of_get? h]
  cases defaultSymbol with
  | none => rfl
  | some symbol =>
      rw [ok_bind]
      exact if_pos (hmem symbol rfl)

theorem toUInt64?_ofUInt64 (size : UInt64) : (Json.ofUInt64 size).toUInt64? = some size := by
  have hbound : 0 ≤ (size.toNat : Int) ∧ (size.toNat : Int).toNat < UInt64.size :=
    ⟨Int.natCast_nonneg _, by simpa using size.toNat_lt⟩
  rw [Json.ofUInt64, Json.toUInt64?, if_pos hbound]
  simp

end Attributes

/-! ## Heads -/

section Heads

variable {space : Option String} {kind word : String} {reserved : List String} {head : TypeHead}
  {body : Entries Json}

theorem ownSpace_of_undotted (hsound : head.Sound reserved)
    (hname : Name.isDotted head.name = false) : head.ownSpace = head.space := by
  rw [TypeHead.ownSpace, Name.splitLast_eq_none_iff.mpr hname]
  cases hspace : head.space with
  | none => rfl
  | some own =>
      have hnonempty : own ≠ "" := Name.ne_empty_of_isValid (hsound.space own hspace)
      simp [Option.filter, hnonempty]

/-- The fields of a record are read in the namespace in which they are written. -/
theorem innerSpace_eq_ownSpace (hsound : head.Sound reserved) :
    innerSpace head.name head.space = head.ownSpace := by
  rw [innerSpace]
  cases hsplit : Name.splitLast head.name with
  | none => exact (ownSpace_of_undotted hsound (Name.splitLast_eq_none_iff.mp hsplit)).symm
  | some parts => rw [TypeHead.ownSpace, hsplit]

/-- The namespace of a definition is given back by the namespace attribute that is written for
it. -/
theorem exists_givenSpace (hsound : head.Sound reserved)
    (hcarried : Name.isDotted head.name = true → head.space = space) :
    ∃ explicit, (opening space word head).get? "namespace" = explicit.map .str ∧
      head.space = givenSpace explicit space := by
  have hwritten : (opening space word head).get? "namespace" =
      if !Name.isDotted head.name && head.ownSpace ≠ space then
        some (.str (head.ownSpace.getD "")) else none :=
    get?_opening space word head "namespace"
  rw [hwritten]
  by_cases hname : Name.isDotted head.name = true
  · exact ⟨none, by simp [hname], hcarried hname⟩
  · rw [Bool.not_eq_true] at hname
    have hspace : head.space ≠ some "" := by
      intro hempty
      exact Name.ne_empty_of_isValid (hsound.space "" hempty) rfl
    refine ⟨if head.space ≠ space then some (head.space.getD "") else none, ?_,
      (givenSpace_of_differing hspace).symm⟩
    rw [ownSpace_of_undotted hsound hname, hname]
    by_cases hsame : head.space = space <;> simp [hsame]

theorem get?_object_of_mem (hsound : head.Sound reserved) (hreserved : headAttributes ⊆ reserved)
    (hbody : ∀ key ∈ body.keys, key ∉ headAttributes) {key : String} (hkey : key ∈ headAttributes) :
    Entries.get? (opening space word head ++ body ++ head.props.entries) key =
      (opening space word head).get? key := by
  have hnone : body.get? key = none := by
    rw [Entries.get?_eq_none_iff]
    intro hmem
    exact hbody key hmem hkey
  rw [get?_append_props (hreserved hkey) hsound.props, Entries.get?_append, hnone, Option.or_none]

theorem get?_object_of_notMem (hsound : head.Sound reserved) {key : String}
    (hkey : key ∉ headAttributes) (hreserved : key ∈ reserved) :
    Entries.get? (opening space word head ++ body ++ head.props.entries) key = body.get? key := by
  have hnone : (opening space word head).get? key = none := by
    rw [Entries.get?_eq_none_iff]
    intro hmem
    exact hkey (keys_opening_subset _ _ _ hmem)
  rw [get?_append_props hreserved hsound.props, Entries.get?_append, hnone, Option.none_or]

theorem readsHead_of_written (hsound : head.Sound reserved)
    (hcarried : Name.isDotted head.name = true → head.space = space)
    (hreserved : headAttributes ⊆ reserved) (hbody : ∀ key ∈ body.keys, key ∉ headAttributes)
    (hbodyReserved : body.keys ⊆ reserved) :
    ReadsHead space kind reserved (opening space word head ++ body ++ head.props.entries)
      head := by
  have hget : ∀ {key}, key ∈ headAttributes → Entries.get? (opening space word head ++ body ++
      head.props.entries) key = (opening space word head).get? key :=
    get?_object_of_mem hsound hreserved hbody
  obtain ⟨explicit, hexplicit, hspace⟩ :=
    @exists_givenSpace space word reserved head hsound hcarried
  constructor
  · refine nameOf_eq_ok_iff.mpr ⟨?_, ⟨explicit, ?_, hspace⟩, hsound.name, hsound.space⟩
    · apply requiredText_of_get?
      rw [hget (by decide), get?_opening]
      rfl
    · apply textAttribute_of_get?
      rw [hget (by decide), hexplicit]
  · have hdoc : textAttribute (opening space word head ++ body ++ head.props.entries) "doc" =
        .ok head.doc := by
      apply textAttribute_of_get?
      rw [hget (by decide), get?_opening]
      rfl
    have haliases : aliasesOf (opening space word head ++ body ++ head.props.entries) =
        .ok head.aliases := by
      refine aliasesOf_of_get? ?_ hsound.aliases
      rw [hget (by decide), get?_opening]
      rfl
    have hprops : Props.ofMembers reserved (opening space word head ++ body ++
        head.props.entries) = head.props := by
      refine Props.ofMembers_append ?_ hsound.props
      intro key hkey
      rw [Entries.keys_append, List.mem_append] at hkey
      rcases hkey with hopening | hbodyKey
      · exact hreserved (keys_opening_subset _ _ _ hopening)
      · exact hbodyReserved hbodyKey
    rw [headOf, hdoc, ok_bind, haliases, ok_bind, hprops]
    rfl

end Heads

/-! ## Nodes -/

section Nodes

variable {scope opened scope' : Scope} {space : Option String}

/-- Nothing is lost of a primitive type that is written as its name. -/
theorem reads_word {kind : PrimitiveKind} {props : Props} (hprops : props.entries.isEmpty = true) :
    Reads scope space (.str kind.name) (primitive kind props) scope := by
  have hempty : props = .empty := Props.ext (List.isEmpty_iff.mp hprops)
  rw [hempty]
  exact .name (Scope.schemaOfName_name scope space kind)

theorem reads_primitive {kind : PrimitiveKind} {props : Props}
    (hprops : ∀ key ∈ props.keys, key ∉ primitiveAttributes) :
    Reads scope space (withProps [("type", .str kind.name)] props) (primitive kind props)
      scope := by
  have hmembers : ∀ key ∈ Entries.keys [("type", Json.str kind.name)],
      key ∈ primitiveAttributes := by
    simp [primitiveAttributes]
  have hread : Reads scope space (.obj ([("type", .str kind.name)] ++ props.entries))
      (primitive kind (.ofMembers primitiveAttributes _)) scope := .primitive (by simp)
  rw [Props.ofMembers_append hmembers hprops] at hread
  rwa [withProps_of_reserved hmembers hprops]

theorem reads_array {items : Schema} {props : Props} {json : Json}
    (hprops : ∀ key ∈ props.keys, key ∉ arrayAttributes)
    (h : Reads scope space json items scope') :
    Reads scope space (withProps [("type", .str "array"), ("items", json)] props)
      (array items props) scope' := by
  have hmembers : ∀ key ∈ Entries.keys [("type", Json.str "array"), ("items", json)],
      key ∈ arrayAttributes := by
    simp [arrayAttributes]
  have hread : Reads scope space
      (.obj ([("type", .str "array"), ("items", json)] ++ props.entries))
      (array items (.ofMembers arrayAttributes _)) scope' := .array (by simp) (by simp) h
  rw [Props.ofMembers_append hmembers hprops] at hread
  rwa [withProps_of_reserved hmembers hprops]

theorem reads_map {values : Schema} {props : Props} {json : Json}
    (hprops : ∀ key ∈ props.keys, key ∉ mapAttributes)
    (h : Reads scope space json values scope') :
    Reads scope space (withProps [("type", .str "map"), ("values", json)] props)
      (map values props) scope' := by
  have hmembers : ∀ key ∈ Entries.keys [("type", Json.str "map"), ("values", json)],
      key ∈ mapAttributes := by
    simp [mapAttributes]
  have hread : Reads scope space
      (.obj ([("type", .str "map"), ("values", json)] ++ props.entries))
      (map values (.ofMembers mapAttributes _)) scope' := .map (by simp) (by simp) h
  rw [Props.ofMembers_append hmembers hprops] at hread
  rwa [withProps_of_reserved hmembers hprops]

/-- The members that define a named type, opening and body, come before its extra attributes. -/
theorem withProps_object {word : String} {reserved : List String} {head : TypeHead}
    {body : Entries Json} (hsound : head.Sound reserved) (hreserved : headAttributes ⊆ reserved)
    (hbody : body.keys ⊆ reserved) :
    withProps (opening space word head ++ body) head.props =
      .obj (opening space word head ++ body ++ head.props.entries) := by
  refine withProps_of_reserved ?_ hsound.props
  intro key hkey
  rw [Entries.keys_append, List.mem_append] at hkey
  rcases hkey with hopening | hbodyKey
  · exact hreserved (keys_opening_subset _ _ _ hopening)
  · exact hbody hbodyKey

theorem reads_record {head : TypeHead} {isError : Bool} {jsons : List Json} {fields : List Field}
    (hsound : head.Sound recordAttributes)
    (hcarried : Name.isDotted head.name = true → head.space = space)
    (hclaim : scope.claim head.fullName = .ok opened)
    (h : ReadsFields opened head.ownSpace [] jsons fields scope') :
    Reads scope space
      (withProps (opening space (recordWord isError) head ++ [("fields", .arr jsons)]) head.props)
      (closeRecord head isError fields)
      (scope'.finish head.fullName (closeRecord head isError fields)) := by
  have hreserved : headAttributes ⊆ recordAttributes := by decide
  have hbody : ∀ key ∈ Entries.keys [("fields", Json.arr jsons)], key ∉ headAttributes := by
    simp [headAttributes]
  have hbodyReserved : Entries.keys [("fields", Json.arr jsons)] ⊆ recordAttributes := by
    simp [recordAttributes]
  rw [withProps_object hsound hreserved hbodyReserved]
  rw [← innerSpace_eq_ownSpace hsound] at h
  refine .record ?_ (readsHead_of_written hsound hcarried hreserved hbody hbodyReserved) hclaim ?_ h
  · rw [get?_object_of_mem hsound hreserved hbody (by decide), get?_opening]
    rfl
  · rw [get?_object_of_notMem hsound (by decide) (by decide)]
    simp

theorem reads_enum {head : TypeHead} {symbols : List String} {defaultSymbol : Option String}
    (hsound : head.Sound enumAttributes)
    (hcarried : Name.isDotted head.name = true → head.space = space)
    (hsymbols : SymbolsSound symbols defaultSymbol)
    (hclaim : scope.claim head.fullName = .ok opened) :
    Reads scope space
      (withProps (opening space "enum" head ++ enumMembers symbols defaultSymbol) head.props)
      (enum head symbols defaultSymbol)
      (opened.finish head.fullName (enum head symbols defaultSymbol)) := by
  have hreserved : headAttributes ⊆ enumAttributes := by decide
  have hkeys := keys_enumMembers_subset symbols defaultSymbol
  have hbody : ∀ key ∈ (enumMembers symbols defaultSymbol).keys, key ∉ headAttributes := by
    have hapart : ∀ key ∈ ["symbols", "default"], key ∉ headAttributes := by decide
    intro key hkey
    exact hapart key (hkeys hkey)
  have hbodyReserved : (enumMembers symbols defaultSymbol).keys ⊆ enumAttributes :=
    List.Subset.trans hkeys (by decide)
  rw [withProps_object hsound hreserved hbodyReserved]
  have hvalue : Entries.get? (opening space "enum" head ++ enumMembers symbols defaultSymbol ++
      head.props.entries) "symbols" = some (.arr (symbols.map .str)) := by
    rw [get?_object_of_notMem hsound (by decide) (by decide), get?_enumMembers]
    rfl
  refine .enum ?_ (readsHead_of_written hsound hcarried hreserved hbody hbodyReserved) hclaim
    hvalue ?_ ?_
  · rw [get?_object_of_mem hsound hreserved hbody (by decide), get?_opening]
    rfl
  · exact symbolsOfJson_eq_ok_iff.mpr ⟨rfl, hsymbols.segments, hsymbols.nodup, by simp⟩
  · apply defaultSymbolOf_of_get? _ hsymbols.default_mem
    rw [get?_object_of_notMem hsound (by decide) (by decide), get?_enumMembers]
    rfl

theorem reads_fixed {head : TypeHead} {size : UInt64} (hsound : head.Sound fixedAttributes)
    (hcarried : Name.isDotted head.name = true → head.space = space)
    (hclaim : scope.claim head.fullName = .ok opened) :
    Reads scope space
      (withProps (opening space "fixed" head ++ [("size", .ofUInt64 size)]) head.props)
      (fixed head size) (opened.finish head.fullName (fixed head size)) := by
  have hreserved : headAttributes ⊆ fixedAttributes := by decide
  have hbody : ∀ key ∈ Entries.keys [("size", Json.ofUInt64 size)], key ∉ headAttributes := by
    simp [headAttributes]
  have hbodyReserved : Entries.keys [("size", Json.ofUInt64 size)] ⊆ fixedAttributes := by
    simp [fixedAttributes]
  rw [withProps_object hsound hreserved hbodyReserved]
  refine .fixed ?_ (readsHead_of_written hsound hcarried hreserved hbody hbodyReserved) hclaim ?_
    (toUInt64?_ofUInt64 size)
  · rw [get?_object_of_mem hsound hreserved hbody (by decide), get?_opening]
    rfl
  · rw [get?_object_of_notMem hsound (by decide) (by decide)]
    simp

/-- A written field is read again before the fields that follow it. -/
theorem readsFields_cons {field : Field} {json : Json} {seen : List String} {jsons : List Json}
    {fields : List Field} {between : Scope} (hsound : field.Sound)
    (h : Reads scope space json field.schema between) (hnew : field.name ∉ seen)
    (hrest : ReadsFields between space (seen ++ [field.name]) jsons fields scope') :
    ReadsFields scope space seen (withProps (fieldMembers field json) field.props :: jsons)
      (field :: fields) scope' := by
  have hmembers : ∀ key ∈ (fieldMembers field json).keys, key ∈ fieldAttributes :=
    keys_fieldMembers_subset field json
  have hget : ∀ {key}, key ∈ fieldAttributes →
      Entries.get? (fieldMembers field json ++ field.props.entries) key =
        (fieldMembers field json).get? key := by
    intro key hkey
    exact get?_append_props hkey hsound.props
  rw [withProps_of_reserved hmembers hsound.props]
  refine .cons ⟨?_, ?_, ?_, ?_, ?_, ?_⟩ ?_ h hnew hrest
  · have hname : requiredText (fieldMembers field json ++ field.props.entries) "field" "name" =
        .ok field.name := by
      apply requiredText_of_get?
      rw [hget (by decide), get?_fieldMembers]
      rfl
    rw [fieldNameOf, hname, ok_bind, if_pos hsound.name]
  · rw [hget (by decide), get?_fieldMembers]
    rfl
  · apply textAttribute_of_get?
    rw [hget (by decide), get?_fieldMembers]
    rfl
  · apply orderOf_of_get?
    rw [hget (by decide), get?_fieldMembers]
    rfl
  · refine aliasesOf_of_get? ?_ hsound.aliases
    rw [hget (by decide), get?_fieldMembers]
    rfl
  · exact Props.ofMembers_append hmembers hsound.props
  · rw [hget (by decide), get?_fieldMembers]
    rfl

end Nodes

end Schema

end EventSchema
