import EventSchema.Entries
import EventSchema.Json.Double

/-!
# JSON values

A JSON value keeps the order of its object members, and tells whole numbers
from numbers with a fraction or an exponent.  Two values are the same when they
agree up to the order of object members.
-/

namespace EventSchema

/-- A whole number in plain digits, or any other number. -/
inductive Number where
  | integer (value : Int)
  | double (value : Double)
  deriving DecidableEq

/-- A JSON value. -/
inductive Json where
  | null
  | bool (value : Bool)
  | num (value : Number)
  | str (value : String)
  | arr (items : List Json)
  | obj (members : List (String × Json))
  deriving Inhabited

namespace Json

/-- The whole number, when it is not negative and fits 64 bits. -/
def toUInt64? : Json → Option UInt64
  | .num (.integer value) =>
    if 0 ≤ value ∧ value.toNat < UInt64.size then some (UInt64.ofNat value.toNat) else none
  | _ => none

/-- The number that a size is written as. -/
def ofUInt64 (value : UInt64) : Json :=
  .num (.integer value.toNat)

/-- An array of strings. -/
def ofStrings (items : List String) : Json :=
  .arr (items.map .str)

mutual

/-- Decides equality of two values, members compared in order. -/
def beq : Json → Json → Bool
  | .null, .null => true
  | .bool a, .bool b => a == b
  | .num a, .num b => decide (a = b)
  | .str a, .str b => a == b
  | .arr a, .arr b => beqItems a b
  | .obj a, .obj b => beqMembers a b
  | _, _ => false
termination_by structural a => a

/-- `beq` item by item. -/
def beqItems : List Json → List Json → Bool
  | [], [] => true
  | a :: as, b :: bs => a.beq b && beqItems as bs
  | _, _ => false
termination_by structural as => as

/-- `beq` member by member. -/
def beqMembers : List (String × Json) → List (String × Json) → Bool
  | [], [] => true
  | (k, a) :: as, (l, b) :: bs => k == l && a.beq b && beqMembers as bs
  | _, _ => false
termination_by structural as => as

end

mutual

theorem eq_of_beq : ∀ {a b : Json}, a.beq b = true → a = b
  | .null, b, h => by cases b <;> simp_all [beq]
  | .bool _, b, h => by cases b <;> simp_all [beq]
  | .num _, b, h => by cases b <;> simp_all [beq]
  | .str _, b, h => by cases b <;> simp_all [beq]
  | .arr as, b, h => by
    cases b with
    | arr bs => rw [show as = bs from eq_of_beqItems (by simpa [beq] using h)]
    | _ => simp [beq] at h
  | .obj as, b, h => by
    cases b with
    | obj bs => rw [show as = bs from eq_of_beqMembers (by simpa [beq] using h)]
    | _ => simp [beq] at h

theorem eq_of_beqItems : ∀ {as bs : List Json}, beqItems as bs = true → as = bs
  | [], bs, h => by cases bs <;> simp_all [beqItems]
  | a :: as, bs, h => by
    cases bs with
    | nil => simp [beqItems] at h
    | cons b bs =>
      simp only [beqItems, Bool.and_eq_true] at h
      rw [eq_of_beq h.1, eq_of_beqItems h.2]

theorem eq_of_beqMembers :
    ∀ {as bs : List (String × Json)}, beqMembers as bs = true → as = bs
  | [], bs, h => by cases bs <;> simp_all [beqMembers]
  | (k, a) :: as, bs, h => by
    cases bs with
    | nil => simp [beqMembers] at h
    | cons b bs =>
      obtain ⟨l, b⟩ := b
      simp only [beqMembers, Bool.and_eq_true, beq_iff_eq] at h
      rw [h.1.1, eq_of_beq h.1.2, eq_of_beqMembers h.2]

end

mutual

theorem beq_self : ∀ a : Json, a.beq a = true
  | .null => rfl
  | .bool _ => by simp [beq]
  | .num _ => by simp [beq]
  | .str _ => by simp [beq]
  | .arr as => by simpa [beq] using beqItems_self as
  | .obj as => by simpa [beq] using beqMembers_self as

theorem beqItems_self : ∀ as : List Json, beqItems as as = true
  | [] => rfl
  | a :: as => by simp [beqItems, beq_self a, beqItems_self as]

theorem beqMembers_self : ∀ as : List (String × Json), beqMembers as as = true
  | [] => rfl
  | (k, a) :: as => by simp [beqMembers, beq_self a, beqMembers_self as]

end

instance : DecidableEq Json := fun a b =>
  decidable_of_iff (a.beq b = true) ⟨eq_of_beq, fun h => h ▸ beq_self a⟩

end Json

/-- Numeric equality within one way of writing; a whole number never equals one with a point. -/
def Number.equal : Number → Number → Bool
  | .integer a, .integer b => a == b
  | .double a, .double b => a.equal b
  | _, _ => false

namespace Json

mutual

/-- Equality up to the order of object members. -/
def sameAs : Json → Json → Bool
  | .null, .null => true
  | .bool a, .bool b => a == b
  | .num a, .num b => a.equal b
  | .str a, .str b => a == b
  | .arr as, .arr bs => sameItems as bs
  | .obj as, .obj bs => as.length == bs.length && sameMembers as bs
  | _, _ => false
termination_by structural a => a

/-- `sameAs` item by item. -/
def sameItems : List Json → List Json → Bool
  | [], [] => true
  | a :: as, b :: bs => a.sameAs b && sameItems as bs
  | _, _ => false
termination_by structural as => as

/-- Whether each member of the first list has the same value in the second. -/
def sameMembers : List (String × Json) → Entries Json → Bool
  | [], _ => true
  | (k, a) :: as, bs =>
    (match bs.get? k with
      | some b => a.sameAs b
      | none => false) && sameMembers as bs
termination_by structural as => as

end

mutual

/-- Merges repeated keys at every depth: a key keeps its first place and takes its last value. -/
def mergeKeys : Json → Json
  | .arr items => .arr (mergeKeysItems items)
  | .obj members => .obj (Entries.ofList (mergeKeysMembers members))
  | scalar => scalar
termination_by structural json => json

/-- `mergeKeys` item by item. -/
def mergeKeysItems : List Json → List Json
  | [] => []
  | item :: items => item.mergeKeys :: mergeKeysItems items
termination_by structural items => items

/-- `mergeKeys` on the value of each member. -/
def mergeKeysMembers : List (String × Json) → List (String × Json)
  | [] => []
  | (key, value) :: members => (key, value.mergeKeys) :: mergeKeysMembers members
termination_by structural members => members

end

end Json

end EventSchema
