/-!
# Ordered entries

Objects, attribute lists and reports keep their entries in the order in which
the keys were first written.  This module holds the operations on such lists;
each of them keeps a list of distinct keys distinct.
-/

namespace EventSchema

/-- Entries in insertion order. -/
abbrev Entries (α : Type) := List (String × α)

namespace Entries

variable {α β : Type}

/-- The keys, in order. -/
def keys (entries : Entries α) : List String :=
  entries.map Prod.fst

/-- The value under a key. -/
def get? (entries : Entries α) (key : String) : Option α :=
  List.lookup key entries

/-- A key that is present keeps its place and takes the new value; a new key goes to the end. -/
def set (key : String) (value : α) : Entries α → Entries α
  | [] => [(key, value)]
  | (k, v) :: rest => if k = key then (key, value) :: rest else (k, v) :: set key value rest

/-- A key that is present keeps its value; a new key goes to the end. -/
def addMissing (entries : Entries α) (key : String) (value : α) : Entries α :=
  if key ∈ entries.keys then entries else entries ++ [(key, value)]

/-- Writes the entries of a list one after the other: a repeated key keeps its first place and
takes its last value. -/
def ofList (entries : List (String × α)) : Entries α :=
  entries.foldl (fun done (key, value) => set key value done) []

/-- Adds the entries of a list whose keys are not there yet. -/
def addAllMissing (entries : Entries α) (more : List (String × α)) : Entries α :=
  more.foldl (fun done (key, value) => done.addMissing key value) entries

/-- The members of a list that have a value, in order. -/
def present (members : List (String × Option α)) : Entries α :=
  members.filterMap fun (key, value) => value.map (key, ·)

@[simp] theorem keys_nil : keys ([] : Entries α) = [] := rfl

@[simp] theorem keys_cons (key : String) (value : α) (rest : Entries α) :
    keys ((key, value) :: rest) = key :: keys rest := rfl

@[simp] theorem keys_append (first second : Entries α) :
    keys (first ++ second) = keys first ++ keys second :=
  List.map_append

theorem keys_set (key : String) (value : α) (entries : Entries α) :
    keys (set key value entries) =
      if key ∈ keys entries then keys entries else keys entries ++ [key] := by
  induction entries with
  | nil => simp [set]
  | cons entry rest ih =>
    obtain ⟨k, v⟩ := entry
    by_cases h : k = key
    · simp [set, h]
    · simp only [set, if_neg h, keys_cons, ih, List.mem_cons, Ne.symm h, false_or]
      split <;> simp

theorem keys_addMissing (entries : Entries α) (key : String) (value : α) :
    keys (entries.addMissing key value) =
      if key ∈ keys entries then keys entries else keys entries ++ [key] := by
  unfold addMissing
  split <;> simp

theorem nodup_append_new {keys : List String} {key : String} (h : keys.Nodup) :
    (if key ∈ keys then keys else keys ++ [key]).Nodup := by
  split
  · exact h
  · next fresh =>
    rw [List.nodup_append]
    refine ⟨h, by simp, fun a ha b hb => ?_⟩
    rw [List.mem_singleton.1 hb]
    rintro rfl
    exact fresh ha

/-- Setting a key keeps the keys distinct. -/
theorem nodup_keys_set {entries : Entries α} (key : String) (value : α)
    (h : entries.keys.Nodup) : (set key value entries).keys.Nodup := by
  rw [keys_set]
  exact nodup_append_new h

/-- Adding a missing key keeps the keys distinct. -/
theorem nodup_keys_addMissing {entries : Entries α} (key : String) (value : α)
    (h : entries.keys.Nodup) : (entries.addMissing key value).keys.Nodup := by
  rw [keys_addMissing]
  exact nodup_append_new h

theorem nodup_keys_foldl_set {start : Entries α} (more : List (String × α))
    (h : start.keys.Nodup) :
    (more.foldl (fun done (key, value) => set key value done) start).keys.Nodup := by
  induction more generalizing start with
  | nil => exact h
  | cons entry rest ih => exact ih (nodup_keys_set entry.1 entry.2 h)

/-- Entries written one after the other have distinct keys. -/
theorem nodup_keys_ofList (entries : List (String × α)) : (ofList entries).keys.Nodup :=
  nodup_keys_foldl_set entries List.nodup_nil

/-- Adding several missing keys keeps the keys distinct. -/
theorem nodup_keys_addAllMissing {entries : Entries α} (more : List (String × α))
    (h : entries.keys.Nodup) : (entries.addAllMissing more).keys.Nodup := by
  unfold addAllMissing
  induction more generalizing entries with
  | nil => exact h
  | cons entry rest ih => exact ih (nodup_keys_addMissing entry.1 entry.2 h)

end Entries

end EventSchema
