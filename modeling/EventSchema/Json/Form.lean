import EventSchema.Json.Parse
import EventSchema.Json.Skip
import EventSchema.Json.Text
import EventSchema.Quoted

/-!
# Reading values of a known form

A text, a flag, a list or a structure is read straight from the characters of a
document, so that the first thing that does not fit is reported where it
stands.  A structure is written as an object of its fields, or as an array of
them in declaration order.
-/

namespace EventSchema

namespace Json

/-- What a value is, for a reader who expected something else. -/
def describe : Json → String
  | .null => "null"
  | .bool value => "boolean `" ++ (if value then "true" else "false") ++ "`"
  | .num (.integer value) => "integer `" ++ toString value ++ "`"
  | .num (.double value) => "floating point `" ++ value.text ++ "`"
  | .str value => "string " ++ shown value
  | .arr _ => "sequence"
  | .obj _ => "map"

end Json

namespace Fault

/-- Places a mismatch of an item after what the array reads next: its closing bracket, or a comma
and the blanks after it. -/
def settleInArray (fault : Fault) : Fault :=
  match fault.place with
  | .before _ => fault
  | .afterValue rest =>
    let bytesLeft := match rest.dropWhile Reader.isBlank with
      | ']' :: more => byteLength more
      | ',' :: more => byteLength (more.dropWhile Reader.isBlank)
      | other => byteLength other
    { fault with place := .before bytesLeft }

/-- Places a mismatch of a member after what the object reads next: its closing brace, while a
comma is left. -/
def settleInObject (fault : Fault) : Fault :=
  match fault.place with
  | .before _ => fault
  | .afterValue rest =>
    let bytesLeft := match rest.dropWhile Reader.isBlank with
      | '\x7d' :: more => byteLength more
      | other => byteLength other
    { fault with place := .before bytesLeft }

end Fault

namespace Reader

variable {α : Type}

/-- Changes the faults of a reader. -/
def mapFault (change : Fault → Fault) (reader : Reader α) : Reader α :=
  fun s => (reader s).mapError change

/-- Gives up with a mismatch noticed after the characters read so far. -/
def mismatch (error : Mismatch) : Reader α :=
  fail (.mismatched error)

/-- Gives up on a value of another form: before an array or an object, after anything else. -/
def wrongForm (expected : String) : Reader α := do
  match ← peekPastBlanks with
  | some '[' => mismatch (.invalidType (Json.describe (.arr [])) expected)
  | some '\x7b' => mismatch (.invalidType (Json.describe (.obj [])) expected)
  | _ =>
    let found ← scalar
    mismatch (.invalidType found.describe expected)

/-- A text; the phrase names what it is expected to be. -/
def text (expected : String) : Reader String := do
  match ← peekPastBlanks with
  | some '"' =>
    advance
    string
  | _ => wrongForm expected

/-- A truth value. -/
def flag : Reader Bool := do
  match ← peekPastBlanks with
  | some 't' => word ['t', 'r', 'u', 'e']; pure true
  | some 'f' => word ['f', 'a', 'l', 's', 'e']; pure false
  | _ => wrongForm "a boolean"

/-- A value or null. -/
def optional (reader : Reader α) : Reader (Option α) := do
  match ← peekPastBlanks with
  | some 'n' => word ['n', 'u', 'l', 'l']; pure none
  | _ => some <$> reader

/-- Opens an array or an object; what is inside has one level of nesting less. -/
def descend (depth : Nat) (inner : Nat → Reader α) : Reader α :=
  match depth with
  | 0 => fail (.atNext .nestedTooDeep)
  | depth + 1 => do
    advance
    inner depth

/-! ## Lists -/

/-- The items of a list from one of them on, and the closing bracket. -/
def listItems (item : Reader α) (place : Nat) (s : List Char) :
    Except Fault (Taken s (List α)) :=
  match item s with
  | .error fault => .error (fault.settleInArray.within (.index place))
  | .ok first =>
    match nextItem first.rest with
    | .error fault => .error fault
    | .ok ⟨false, rest, h⟩ =>
      .ok ⟨[first.value], rest, by have := first.rest_le; omega⟩
    | .ok ⟨true, rest, h⟩ =>
      match listItems item (place + 1) rest with
      | .error fault => .error fault
      | .ok others =>
        .ok ⟨first.value :: others.value, others.rest, by
          have := first.rest_le; have := others.rest_le; omega⟩
termination_by s.length
decreasing_by have := first.rest_le; omega

/-- A list of values of one form. -/
def listOf (item : Nat → Reader α) (depth : Nat) : Reader (List α) := do
  match ← peekPastBlanks with
  | some '[' =>
    descend depth fun depth => do
      if ← firstItem then listItems (item depth) 0 else pure []
  | _ => wrongForm "a sequence"

/-! ## Structures -/

/-- A field of a structure `α`: how its value is read and entered into the structure. -/
structure Slot (α : Type) where
  key : String
  required : Bool
  read : Nat → α → Reader α

/-- The form of a structure. -/
structure Form (α : Type) where
  title : String
  slots : List (Slot α)
  /-- Whether keys other than those of the slots are refused rather than passed over. -/
  closed : Bool
  /-- The structure before any field is read. -/
  initial : α

namespace Form

variable (form : Form α)

/-- The keys of the fields, in declaration order. -/
def keys : List String :=
  form.slots.map Slot.key

/-- Ends an object: every required field must have been there. -/
def finish (seen : List String) (value : α) : Reader α :=
  match form.slots.find? fun slot => slot.required && slot.key ∉ seen with
  | some slot => mismatch (.missingField slot.key)
  | none => pure value

/-- Reads what follows a key. -/
def member (depth : Nat) (seen : List String) (value : α) (name : String) : Reader α :=
  match form.slots.find? fun slot => slot.key = name with
  | some slot =>
    if name ∈ seen then do
      let _ ← peekPastBlanks
      mismatch (.duplicateField name)
    else do
      colon
      within (.key name) (mapFault Fault.settleInObject (slot.read depth value))
  | none =>
    if form.closed then within (.key name) (mismatch (.unknownField name form.keys))
    else do
      colon
      within (.key name) skipValue
      pure value

/-- The members of an object from the key of one of them on, and the closing brace. -/
def members (depth : Nat) (seen : List String) (value : α) (s : List Char) :
    Except Fault (Taken s α) :=
  match key s with
  | .error fault => .error (fault.within .unknown)
  | .ok name =>
    match form.member depth seen value name.value name.rest with
    | .error fault => .error fault
    | .ok item =>
      match nextMember item.rest with
      | .error fault => .error (fault.within .unknown)
      | .ok ⟨false, rest, h⟩ =>
        (form.finish (name.value :: seen) item.value rest).map
          (Taken.widen (by have := name.rest_le; have := item.rest_le; omega))
      | .ok ⟨true, rest, h⟩ =>
        (members depth (name.value :: seen) item.value rest).map
          (Taken.widen (by have := name.rest_le; have := item.rest_le; omega))
termination_by s.length
decreasing_by have := name.rest_le; have := item.rest_le; omega

/-- Whether an array goes on at the given place. -/
def anotherElement (place : Nat) : Reader Bool :=
  if place = 0 then firstItem
  else fun s =>
    (nextItem s).map fun next => ⟨next.more, next.rest, Nat.le_of_lt next.rest_lt⟩

/-- Ends an array that holds all fields. -/
def lastElement : Reader Unit := do
  match ← peekPastBlanks with
  | none => fail (.atNext .endInArray)
  | some ']' => advance
  | some ',' =>
    advance
    match ← peekPastBlanks with
    | some ']' => fail (.atNext .trailingComma)
    | _ => fail (.atNext .trailingCharacters)
  | some _ => fail (.atNext .trailingCharacters)

/-- The elements of an array, one for each of the slots from `place` on; slots that are not
required may be missing at the end. -/
def elements (depth place : Nat) (value : α) : List (Slot α) → Reader α
  | [] => do
    lastElement
    pure value
  | slot :: slots => do
    if ← anotherElement place then
      let value ← within (.index place) (mapFault Fault.settleInArray (slot.read depth value))
      elements depth (place + 1) value slots
    else
      match (slot :: slots).findIdx? Slot.required with
      | some missing =>
        mismatch (.invalidLength (place + missing)
          ("struct " ++ form.title ++ " with " ++ toString form.slots.length ++ " elements"))
      | none => pure value

/-- A structure. -/
def reader (depth : Nat) : Reader α := do
  match ← peekPastBlanks with
  | some '[' => descend depth fun depth => form.elements depth 0 form.initial form.slots
  | some '\x7b' =>
    descend depth fun depth => do
      if ← within .unknown firstMember then form.members depth [] form.initial
      else form.finish [] form.initial
  | _ => wrongForm ("struct " ++ form.title)

end Form

end Reader

end EventSchema
