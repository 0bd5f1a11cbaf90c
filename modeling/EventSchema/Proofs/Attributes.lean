import EventSchema.Schema.ToJson
import Mathlib.Data.List.Nodup

/-!
# Attributes of an object

An object that is written consists of the members that its kind defines,
followed by extra attributes under other keys.  Reading it back finds each
defined member by its key and keeps exactly the extra attributes.
-/

namespace EventSchema

namespace Entries

variable {α : Type}

@[simp] theorem get?_nil (key : String) : get? ([] : Entries α) key = none := rfl

@[simp] theorem get?_cons (k key : String) (value : α) (rest : Entries α) :
    get? ((k, value) :: rest) key = if key = k then some value else get? rest key := by
  by_cases h : key = k
  · simp [get?, h]
  · simp [get?, List.lookup_cons, beq_false_of_ne h, h]

@[simp] theorem get?_append (first second : Entries α) (key : String) :
    get? (first ++ second) key = (get? first key).or (get? second key) :=
  List.lookup_append

theorem get?_eq_none_iff {entries : Entries α} {key : String} :
    entries.get? key = none ↔ key ∉ entries.keys := by
  induction entries with
  | nil => simp
  | cons entry rest ih =>
      obtain ⟨k, value⟩ := entry
      by_cases h : key = k
      · simp [h]
      · simp [h, ih]

theorem keys_present_subset (members : List (String × Option α)) :
    (present members).keys ⊆ members.map Prod.fst := by
  intro key hkey
  obtain ⟨entry, hentry, rfl⟩ := List.mem_map.mp hkey
  obtain ⟨⟨k, value⟩, hmember, hvalue⟩ := List.mem_filterMap.mp hentry
  obtain ⟨found, -, rfl⟩ := Option.map_eq_some_iff.mp hvalue
  exact List.mem_map_of_mem hmember

/-- A member is found with its value, and not at all if it has none. -/
theorem get?_present {members : List (String × Option α)} (h : (members.map Prod.fst).Nodup)
    (key : String) : (present members).get? key = (members.lookup key).join := by
  induction members with
  | nil => rfl
  | cons member rest ih =>
      obtain ⟨k, value⟩ := member
      rw [List.map_cons, List.nodup_cons] at h
      have hlater : k ∉ (present rest).keys := fun hmem => h.1 (keys_present_subset rest hmem)
      have hrest : present ((k, value) :: rest) =
          (value.map (k, ·)).toList ++ present rest := by
        cases value <;> rfl
      rw [hrest, get?_append, List.lookup_cons]
      by_cases hkey : key = k
      · subst hkey
        cases value with
        | none => simpa using get?_eq_none_iff.mpr hlater
        | some value => simp
      · rw [beq_false_of_ne hkey, ← ih h.2]
        cases value <;> simp [hkey]

theorem addAllMissing_cons (entries rest : Entries α) (key : String) (value : α) :
    entries.addAllMissing ((key, value) :: rest) =
      (entries.addMissing key value).addAllMissing rest := rfl

theorem addAllMissing_of_disjoint {entries more : Entries α}
    (hnew : ∀ key ∈ more.keys, key ∉ entries.keys) (hnodup : more.keys.Nodup) :
    entries.addAllMissing more = entries ++ more := by
  induction more generalizing entries with
  | nil => simp [addAllMissing]
  | cons entry rest ih =>
      obtain ⟨key, value⟩ := entry
      simp only [keys_cons, List.mem_cons, forall_eq_or_imp, List.nodup_cons] at hnew hnodup
      have hadd : entries.addMissing key value = entries ++ [(key, value)] := by
        rw [addMissing, if_neg hnew.1]
      have hrest : ∀ k ∈ keys rest, k ∉ keys (entries ++ [(key, value)]) := by
        intro k hk
        rw [keys_append, List.mem_append, not_or]
        refine ⟨hnew.2 k hk, ?_⟩
        rw [keys_cons, keys_nil, List.mem_singleton]
        rintro rfl
        exact hnodup.1 hk
      calc
        entries.addAllMissing ((key, value) :: rest) =
            (entries ++ [(key, value)]).addAllMissing rest := by
          rw [addAllMissing_cons, hadd]
        _ = entries ++ (key, value) :: rest := by
          rw [ih hrest hnodup.2, List.append_assoc, List.singleton_append]

theorem get?_addMissing (entries : Entries α) (key other : String) (value : α) :
    (entries.addMissing key value).get? other =
      (entries.get? other).or (if other = key then some value else none) := by
  rw [addMissing]
  split
  next hmem =>
    by_cases hother : other = key
    · obtain ⟨found, hfound⟩ : ∃ found, entries.get? other = some found := by
        cases hfound : entries.get? other with
        | some found => exact ⟨found, rfl⟩
        | none =>
            rw [hother] at hfound
            exact absurd hmem (get?_eq_none_iff.mp hfound)
      rw [hfound, Option.some_or]
    · rw [if_neg hother, Option.or_none]
  next => simp

/-- A key that is there keeps its value, and any other takes its first value of the ones added. -/
theorem get?_addAllMissing (entries more : Entries α) (key : String) :
    (entries.addAllMissing more).get? key = (entries.get? key).or (more.get? key) := by
  induction more generalizing entries with
  | nil => simp [addAllMissing]
  | cons entry rest ih =>
      obtain ⟨k, value⟩ := entry
      rw [addAllMissing_cons, ih, get?_addMissing, Option.or_assoc, get?_cons]
      by_cases h : key = k
      · simp [h]
      · simp [h]

/-- Adding missing keys brings in no other key. -/
theorem mem_keys_addAllMissing {entries more : Entries α} {key : String}
    (h : key ∈ (entries.addAllMissing more).keys) :
    key ∈ entries.keys ∨ key ∈ more.keys := by
  induction more generalizing entries with
  | nil => exact .inl h
  | cons entry rest ih =>
      obtain ⟨k, value⟩ := entry
      rw [addAllMissing_cons] at h
      rcases ih h with hadd | hrest
      · rw [keys_addMissing] at hadd
        split at hadd
        · exact .inl hadd
        · rw [List.mem_append, List.mem_singleton] at hadd
          rcases hadd with hearlier | rfl
          · exact .inl hearlier
          · exact .inr (by simp)
      · exact .inr (by simp [hrest])

/-- Leaving out other keys does not change what is found under a key. -/
theorem get?_filter_notMem {entries : Entries α} {reserved : List String} {key : String}
    (hkey : key ∉ reserved) :
    get? (entries.filter fun entry => entry.1 ∉ reserved) key = get? entries key := by
  induction entries with
  | nil => rfl
  | cons entry rest ih =>
      obtain ⟨other, value⟩ := entry
      by_cases hreserved : other ∈ reserved
      · have hne : key ≠ other := by
          rintro rfl
          exact hkey hreserved
        rw [List.filter_cons_of_neg (by simpa using hreserved), ih, get?_cons, if_neg hne]
      · rw [List.filter_cons_of_pos (by simpa using hreserved), get?_cons, get?_cons, ih]

end Entries

namespace Props

theorem notMem_reserved_of_mem_keys_ofMembers {reserved : List String} {members : Entries Json}
    {key : String} (h : key ∈ (ofMembers reserved members).keys) : key ∉ reserved := by
  rcases Entries.mem_keys_addAllMissing h with hnil | hmem
  · cases hnil
  · obtain ⟨member, hmember, rfl⟩ := List.mem_map.mp hmem
    simpa using (List.mem_filter.mp hmember).2

/-- An attribute that is not reserved is found among the extra ones as among the members. -/
theorem get?_ofMembers {reserved : List String} {members : Entries Json} {key : String}
    (hkey : key ∉ reserved) :
    (ofMembers reserved members).get? key = members.get? key := by
  change Entries.get? (Entries.addAllMissing [] _) key = _
  rw [Entries.get?_addAllMissing, Entries.get?_nil, Option.none_or,
    Entries.get?_filter_notMem hkey]

/-- Of reserved members followed by extra attributes, exactly the extra attributes are kept. -/
theorem ofMembers_append {reserved : List String} {members : Entries Json} {props : Props}
    (hmembers : ∀ key ∈ members.keys, key ∈ reserved)
    (hprops : ∀ key ∈ props.keys, key ∉ reserved) :
    ofMembers reserved (members ++ props.entries) = props := by
  have hkept : (members ++ props.entries).filter (fun member => member.1 ∉ reserved) =
      props.entries := by
    rw [List.filter_append, List.filter_eq_nil_iff.mpr, List.filter_eq_self.mpr, List.nil_append]
    · intro member hmember
      simpa using hprops _ (List.mem_map_of_mem hmember)
    · intro member hmember
      simpa using hmembers _ (List.mem_map_of_mem hmember)
  apply Props.ext
  change Entries.addAllMissing [] _ = _
  rw [hkept, Entries.addAllMissing_of_disjoint (by simp) props.nodup, List.nil_append]

end Props

namespace Schema

/-- Members under reserved keys and extra attributes under others stand side by side. -/
theorem withProps_of_reserved {reserved : List String} {members : Entries Json} {props : Props}
    (hmembers : ∀ key ∈ members.keys, key ∈ reserved)
    (hprops : ∀ key ∈ props.keys, key ∉ reserved) :
    withProps members props = .obj (members ++ props.entries) := by
  have hdisjoint : ∀ key ∈ props.keys, key ∉ members.keys := by
    intro key hkey hmem
    exact hprops key hkey (hmembers key hmem)
  rw [withProps, Entries.addAllMissing_of_disjoint hdisjoint props.nodup]

/-- Members under reserved keys do not stand in the way of extra attributes. -/
theorem get?_withExtras {reserved : List String} {members written : Entries Json} {key : String}
    (hwritten : written.keys ⊆ reserved) (hkey : key ∉ reserved) :
    (written.addAllMissing (Props.ofMembers reserved members).entries).get? key =
      members.get? key := by
  have hnone : written.get? key = none := by
    rw [Entries.get?_eq_none_iff]
    intro hmem
    exact hkey (hwritten hmem)
  rw [Entries.get?_addAllMissing, hnone, Option.none_or]
  exact Props.get?_ofMembers hkey

/-- A reserved key is looked up among the defined members only. -/
theorem get?_append_props {reserved : List String} {members : Entries Json} {props : Props}
    {key : String} (hkey : key ∈ reserved) (hprops : ∀ key ∈ props.keys, key ∉ reserved) :
    Entries.get? (members ++ props.entries) key = members.get? key := by
  have hnone : Entries.get? props.entries key = none := by
    rw [Entries.get?_eq_none_iff]
    intro hmem
    exact hprops key hmem hkey
  rw [Entries.get?_append, hnone, Option.or_none]

end Schema

end EventSchema
