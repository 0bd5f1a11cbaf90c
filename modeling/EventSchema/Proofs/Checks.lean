import EventSchema.Proofs.Occurrence
import EventSchema.Proofs.Reading
import EventSchema.Schema.Equality

/-!
# What reading checks

A definition that is read has passed checks on its names, its aliases, its
symbols and its extra attributes.  This module names these checks and shows
which of them each reading of a member has made.
-/

namespace EventSchema

/-! ## What reading checks -/

/-- The attributes that open the definition of a named type. -/
def Schema.headAttributes : List String := ["type", "name", "namespace", "doc", "aliases"]

/-- The names of a named type are valid, and its extra attributes are not reserved. -/
structure TypeHead.Sound (reserved : List String) (head : TypeHead) : Prop where
  name : Name.isValid head.name = true
  space : ∀ own, head.space = some own → Name.isValid own = true
  aliases : ∀ name ∈ head.aliases, Name.isValid name = true
  props : ∀ key ∈ head.props.keys, key ∉ reserved

/-- The checks on the head of a named type, whichever its kind. -/
def TypeHead.Checked (head : TypeHead) : Prop :=
  ∃ reserved, Schema.headAttributes ⊆ reserved ∧ head.Sound reserved

theorem TypeHead.Checked.notMem_props {head : TypeHead} (h : head.Checked) {key : String}
    (hkey : key ∈ Schema.headAttributes) : key ∉ head.props.keys := by
  obtain ⟨reserved, hreserved, hsound⟩ := h
  intro hmem
  exact hsound.props key hmem (hreserved hkey)

/-- The name of a field is a segment, its aliases are valid, and its extra attributes are not
reserved. -/
structure FieldOf.Sound {σ : Type} (field : FieldOf σ) : Prop where
  name : Name.isSegment field.name = true
  aliases : ∀ name ∈ field.aliases, Name.isValid name = true
  props : ∀ key ∈ field.props.keys, key ∉ Schema.fieldAttributes

theorem FieldOf.Sound.of_label {σ : Type} {field other : FieldOf σ} (h : field.Sound)
    (hlabel : field.label = other.label) : other.Sound := by
  have hname : field.name = other.name := congrArg (@FieldOf.name Unit) hlabel
  have haliases : field.aliases = other.aliases := congrArg (@FieldOf.aliases Unit) hlabel
  have hprops : field.props = other.props := congrArg (@FieldOf.props Unit) hlabel
  exact ⟨hname ▸ h.name, haliases ▸ h.aliases, hprops ▸ h.props⟩

/-- The symbols of an enum are distinct segments, and the default is one of them. -/
structure SymbolsSound (symbols : List String) (defaultSymbol : Option String) : Prop where
  segments : ∀ symbol ∈ symbols, Name.isSegment symbol = true
  nodup : symbols.Nodup
  default_mem : ∀ symbol, defaultSymbol = some symbol → symbol ∈ symbols

namespace Schema

variable {space : Option String} {kind : String} {members : Entries Json}

theorem aliases_eq_ok_iff {items : List Json} {aliases : List String} :
    items.mapM aliasOfJson = .ok aliases ↔
      items = aliases.map .str ∧ ∀ name ∈ aliases, Name.isValid name = true := by
  induction items generalizing aliases with
  | nil =>
      rw [List.mapM_nil, pure_eq_ok, Except.ok.injEq]
      constructor
      · rintro rfl
        exact ⟨rfl, by simp⟩
      · rintro ⟨hitems, -⟩
        exact (List.map_eq_nil_iff.mp hitems.symm).symm
  | cons item rest ih =>
      rw [List.mapM_cons, bind_eq_ok_iff]
      constructor
      · rintro ⟨name, hname, h⟩
        obtain ⟨names, hrest, h⟩ := bind_eq_ok_iff.mp h
        cases h
        obtain ⟨rfl, hvalid⟩ := ih.mp hrest
        cases item with
        | str text =>
            rw [aliasOfJson] at hname
            split at hname
            next htext =>
              cases hname
              exact ⟨rfl, List.forall_mem_cons.mpr ⟨htext, hvalid⟩⟩
            next => cases hname
        | null | bool | num | arr | obj => cases hname
      · rintro ⟨hitems, hvalid⟩
        cases aliases with
        | nil => cases hitems
        | cons name names =>
            cases hitems
            obtain ⟨hname, hnames⟩ := List.forall_mem_cons.mp hvalid
            refine ⟨name, by rw [aliasOfJson, if_pos hname], ?_⟩
            rw [ih.mpr ⟨rfl, hnames⟩]
            rfl

theorem symbolsOfJson_eq_ok_iff {seen : List String} {items : List Json}
    {symbols : List String} :
    symbolsOfJson seen items = .ok symbols ↔
      items = symbols.map .str ∧ (∀ symbol ∈ symbols, Name.isSegment symbol = true) ∧
        symbols.Nodup ∧ ∀ symbol ∈ symbols, symbol ∉ seen := by
  induction items generalizing seen symbols with
  | nil =>
      rw [symbolsOfJson, Except.ok.injEq]
      constructor
      · rintro rfl
        simp
      · rintro ⟨hitems, -⟩
        exact (List.map_eq_nil_iff.mp hitems.symm).symm
  | cons item rest ih =>
      constructor
      · intro h
        cases item with
        | str symbol =>
            rw [symbolsOfJson] at h
            split_ifs at h with hsegment hseen
            obtain ⟨others, hrest, h⟩ := bind_eq_ok_iff.mp h
            cases h
            obtain ⟨rfl, hsegments, hnodup, hnew⟩ := ih.mp hrest
            have hfirst : symbol ∉ others := by
              intro hmem
              exact hnew symbol hmem (by simp)
            have hothers : ∀ other ∈ others, other ∉ seen := by
              intro other hmem hother
              exact hnew other hmem (List.mem_append_left _ hother)
            refine ⟨rfl, ?_, List.nodup_cons.mpr ⟨hfirst, hnodup⟩,
              List.forall_mem_cons.mpr ⟨hseen, hothers⟩⟩
            exact List.forall_mem_cons.mpr ⟨by simpa using hsegment, hsegments⟩
        | null | bool | num | arr | obj => cases h
      · rintro ⟨hitems, hsegments, hnodup, hnew⟩
        cases symbols with
        | nil => cases hitems
        | cons symbol others =>
            cases hitems
            obtain ⟨hsegment, hsegments⟩ := List.forall_mem_cons.mp hsegments
            obtain ⟨hfirst, hnodup⟩ := List.nodup_cons.mp hnodup
            obtain ⟨hseen, hnew⟩ := List.forall_mem_cons.mp hnew
            have hothers : ∀ other ∈ others, other ∉ seen ++ [symbol] := by
              intro other hmem
              rw [List.mem_append, List.mem_singleton, not_or]
              refine ⟨hnew other hmem, ?_⟩
              rintro rfl
              exact hfirst hmem
            rw [symbolsOfJson, if_neg (by simp [hsegment]), if_neg hseen,
              ih.mpr ⟨rfl, hsegments, hnodup, hothers⟩]
            rfl

theorem defaultSymbolOf_eq_ok {symbols : List String} {defaultSymbol : Option String}
    (h : defaultSymbolOf symbols members = .ok defaultSymbol) :
    ∀ symbol, defaultSymbol = some symbol → symbol ∈ symbols := by
  obtain ⟨found, -, h⟩ := bind_eq_ok_iff.mp h
  split at h
  next symbol =>
    split at h
    next hmem =>
      cases h
      rintro _ ⟨⟩
      exact hmem
    next => cases h
  next =>
    cases h
    rintro _ ⟨⟩

theorem aliasesOf_eq_ok {aliases : List String} (h : aliasesOf members = .ok aliases) :
    ∀ name ∈ aliases, Name.isValid name = true := by
  rw [aliasesOf] at h
  split at h
  · cases h
    simp
  · cases h
    simp
  · exact (aliases_eq_ok_iff.mp h).2
  · cases h

/-- The namespace of a definition, given its namespace attribute and the enclosing namespace. -/
def givenSpace (explicit space : Option String) : Option String :=
  match explicit with
  | some explicit => if explicit.isEmpty then none else some explicit
  | none => space

/-- A namespace is given by naming it where it differs from the enclosing one, the absent one as
empty text. -/
theorem givenSpace_of_differing {own : Option String} (hown : own ≠ some "") :
    givenSpace (if own ≠ space then some (own.getD "") else none) space = own := by
  by_cases hsame : own = space
  · rw [if_neg (not_not_intro hsame)]
    exact hsame.symm
  · rw [if_pos hsame]
    cases own with
    | none => rfl
    | some given =>
        have hgiven : given ≠ "" := by
          rintro rfl
          exact hown rfl
        simp [givenSpace, hgiven]

/-- A name and a namespace that are both valid. -/
def checkedName (name : String) (own : Option String) :
    Except SchemaReadError (String × Option String) :=
  if !Name.isValid name then .error (.invalidName name)
  else
    match own with
    | some given => if Name.isValid given then .ok (name, own) else .error (.invalidName given)
    | none => .ok (name, own)

theorem checkedName_eq_ok_iff {name : String} {own : Option String}
    {parts : String × Option String} :
    checkedName name own = .ok parts ↔
      parts = (name, own) ∧ Name.isValid name = true ∧
        ∀ given, own = some given → Name.isValid given = true := by
  have hswap : (Except.ok (name, own) : Except SchemaReadError _) = .ok parts ↔
      parts = (name, own) := by
    rw [Except.ok.injEq]
    exact eq_comm
  rw [checkedName.eq_def]
  cases hname : Name.isValid name with
  | false => simp
  | true =>
      cases own with
      | none => simpa using hswap
      | some given =>
          cases hgiven : Name.isValid given with
          | false => simp [hgiven]
          | true => simpa [hgiven] using hswap

theorem nameOf_eq : nameOf space kind members = (do
    let name ← requiredText members kind "name"
    let explicit ← textAttribute members "namespace"
    checkedName name (givenSpace explicit space)) := rfl

theorem nameOf_eq_ok_iff {name : String} {own : Option String} :
    nameOf space kind members = .ok (name, own) ↔
      requiredText members kind "name" = .ok name ∧
        (∃ explicit, textAttribute members "namespace" = .ok explicit ∧
          own = givenSpace explicit space) ∧
        Name.isValid name = true ∧ ∀ given, own = some given → Name.isValid given = true := by
  rw [nameOf_eq, bind_eq_ok_iff]
  constructor
  · rintro ⟨found, hfound, h⟩
    obtain ⟨explicit, hexplicit, h⟩ := bind_eq_ok_iff.mp h
    obtain ⟨hparts, hvalid⟩ := checkedName_eq_ok_iff.mp h
    cases hparts
    exact ⟨hfound, ⟨explicit, hexplicit, rfl⟩, hvalid⟩
  · rintro ⟨hfound, ⟨explicit, hexplicit, rfl⟩, hvalid⟩
    refine ⟨name, hfound, ?_⟩
    rw [hexplicit, ok_bind]
    exact checkedName_eq_ok_iff.mpr ⟨rfl, hvalid⟩

theorem ReadsHead.sound {reserved : List String} {head : TypeHead}
    (h : ReadsHead space kind reserved members head) : head.Sound reserved := by
  obtain ⟨-, -, hname, hspace⟩ := nameOf_eq_ok_iff.mp h.name
  obtain ⟨doc, -, hparts⟩ := bind_eq_ok_iff.mp h.rest
  obtain ⟨aliases, haliases, hparts⟩ := bind_eq_ok_iff.mp hparts
  have hhead := Except.ok.inj hparts
  have haliasesEq : aliases = head.aliases := congrArg TypeHead.aliases hhead
  have hpropsEq : Props.ofMembers reserved members = head.props := congrArg TypeHead.props hhead
  refine ⟨hname, hspace, haliasesEq ▸ aliasesOf_eq_ok haliases, ?_⟩
  rw [← hpropsEq]
  intro key hkey
  exact Props.notMem_reserved_of_mem_keys_ofMembers hkey

theorem ReadsLabel.sound {field : Field} (h : ReadsLabel members field) : field.Sound := by
  refine ⟨?_, aliasesOf_eq_ok h.aliases, ?_⟩
  · obtain ⟨name, -, hname⟩ := bind_eq_ok_iff.mp h.name
    split at hname
    next hsegment =>
      rwa [← Except.ok.inj hname]
    next => cases hname
  · rw [← h.props]
    intro key hkey
    exact Props.notMem_reserved_of_mem_keys_ofMembers hkey

/-- The conditions that reading checks on a node, apart from the full names of types. -/
def WellBuilt : Schema → Prop
  | primitive _ props => ∀ key ∈ props.keys, key ∉ primitiveAttributes
  | array _ props => ∀ key ∈ props.keys, key ∉ arrayAttributes
  | map _ props => ∀ key ∈ props.keys, key ∉ mapAttributes
  | union members => (∀ member ∈ members, (unionKey? member).isSome) ∧
      (members.map unionKey?).Nodup
  | record head _ fields => head.Sound recordAttributes ∧
      (∀ field ∈ fields, FieldOf.Sound field) ∧ (fields.map FieldOf.name).Nodup
  | enum head symbols defaultSymbol => head.Sound enumAttributes ∧
      SymbolsSound symbols defaultSymbol
  | fixed head _ => head.Sound fixedAttributes
  | ref _ => True

/-- The head of a well-built named type has passed the checks that all kinds share. -/
theorem WellBuilt.head_checked {schema : Schema} {head : TypeHead} (h : schema.WellBuilt)
    (hhead : schema.head? = some head) : head.Checked := by
  cases schema with
  | record found isError fields =>
      cases hhead
      exact ⟨recordAttributes, by decide, h.1⟩
  | enum found symbols defaultSymbol =>
      cases hhead
      exact ⟨enumAttributes, by decide, h.1⟩
  | fixed found size =>
      cases hhead
      exact ⟨fixedAttributes, by decide, h⟩
  | primitive | array | map | union | ref => cases hhead

end Schema

end EventSchema
