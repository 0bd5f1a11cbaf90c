import EventSchema.Json.Basic

/-!
# Extra attributes

A schema node or a field may carry attributes beyond the ones that its kind
defines.  They keep the order in which they were written, and each key occurs
once.
-/

namespace EventSchema

/-- Extra attributes in insertion order, every key once. -/
structure Props where
  entries : Entries Json
  nodup : entries.keys.Nodup
  deriving DecidableEq

namespace Props

/-- No attributes. -/
def empty : Props :=
  ⟨[], List.nodup_nil⟩

instance : Inhabited Props :=
  ⟨empty⟩

/-- Attributes written one after the other: a repeated key keeps its first place and takes its
last value. -/
def ofList (entries : List (String × Json)) : Props :=
  ⟨Entries.ofList entries, Entries.nodup_keys_ofList entries⟩

/-- The members of an object whose keys are not reserved. -/
def ofMembers (reserved : List String) (members : List (String × Json)) : Props :=
  ⟨Entries.addAllMissing [] (members.filter fun member => member.1 ∉ reserved),
    Entries.nodup_keys_addAllMissing _ List.nodup_nil⟩

/-- The keys, in order. -/
def keys (props : Props) : List String :=
  props.entries.keys

/-- The value under a key. -/
def get? (props : Props) (key : String) : Option Json :=
  props.entries.get? key

/-- Equality up to the order of keys, here and inside the values. -/
def sameAs (first second : Props) : Bool :=
  first.entries.length == second.entries.length
    && Json.sameMembers first.entries second.entries

/-- Two lists of attributes with the same entries are equal. -/
theorem ext {first second : Props} (h : first.entries = second.entries) : first = second := by
  cases first
  cases second
  cases h
  rfl

end Props

end EventSchema
