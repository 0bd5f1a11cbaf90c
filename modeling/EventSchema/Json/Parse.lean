import EventSchema.Json.Reader

/-!
# Reading JSON values

A text is read into the value it denotes, down to a fixed depth of nesting.
Repeated keys are all kept by the reader of a single value; a whole text merges
them, so that a key keeps its first place and takes its last value.
-/

namespace EventSchema

namespace Reader

/-- How many arrays and objects may be open at once. -/
def depthLimit : Nat := 127

/-- A value that is neither an array nor an object. -/
def scalar : Reader Json := do
  match ← peekPastBlanks with
  | none => fail (.atNext .endInValue)
  | some 'n' => word ['n', 'u', 'l', 'l']; pure .null
  | some 't' => word ['t', 'r', 'u', 'e']; pure (.bool true)
  | some 'f' => word ['f', 'a', 'l', 's', 'e']; pure (.bool false)
  | some '"' => advance; return .str (← string)
  | some c =>
    if c = '-' || c.isDigit then return .num (← number) else fail (.atNext .expectedValue)

mutual

/-- A value, with `depth` further levels of nesting allowed. -/
def value (depth : Nat) (s : List Char) : Except Fault (Taken s Json) :=
  match pastBlanks s with
  | ⟨[], _⟩ => .error (.atNext .endInValue [])
  | ⟨c :: rest, h⟩ =>
    if c = '[' then
      match depth with
      | 0 => .error (.atNext .nestedTooDeep (c :: rest))
      | depth + 1 =>
        match firstItem rest with
        | .error fault => .error fault
        | .ok ⟨false, after, h'⟩ => .ok ⟨.arr [], after, Nat.le_trans h' (Nat.le_of_lt h)⟩
        | .ok ⟨true, after, h'⟩ =>
          match items depth 0 after with
          | .error fault => .error fault
          | .ok all =>
            .ok ⟨.arr all.value, all.rest,
              Nat.le_trans all.rest_le (Nat.le_trans h' (Nat.le_of_lt h))⟩
    else if c = '\x7b' then
      match depth with
      | 0 => .error (.atNext .nestedTooDeep (c :: rest))
      | depth + 1 =>
        match firstMember rest with
        | .error fault => .error (fault.within .unknown)
        | .ok ⟨false, after, h'⟩ => .ok ⟨.obj [], after, Nat.le_trans h' (Nat.le_of_lt h)⟩
        | .ok ⟨true, after, h'⟩ =>
          match members depth after with
          | .error fault => .error fault
          | .ok all =>
            .ok ⟨.obj all.value, all.rest,
              Nat.le_trans all.rest_le (Nat.le_trans h' (Nat.le_of_lt h))⟩
    else scalar s
termination_by 2 * s.length
decreasing_by all_goals have := Nat.lt_of_le_of_lt h' h; omega

/-- The items of an array from one of them on, and the closing bracket. -/
def items (depth place : Nat) (s : List Char) : Except Fault (Taken s (List Json)) :=
  match value depth s with
  | .error fault => .error (fault.within (.index place))
  | .ok item =>
    match nextItem item.rest with
    | .error fault => .error fault
    | .ok ⟨false, rest, h⟩ =>
      .ok ⟨[item.value], rest, by have := item.rest_le; omega⟩
    | .ok ⟨true, rest, h⟩ =>
      match items depth (place + 1) rest with
      | .error fault => .error fault
      | .ok others =>
        .ok ⟨item.value :: others.value, others.rest, by
          have := item.rest_le; have := others.rest_le; omega⟩
termination_by 2 * s.length + 1
decreasing_by
  · omega
  · have := item.rest_le; omega

/-- The members of an object from the key of one of them on, and the closing brace. -/
def members (depth : Nat) (s : List Char) : Except Fault (Taken s (List (String × Json))) :=
  match key s with
  | .error fault => .error (fault.within .unknown)
  | .ok name =>
    match colon name.rest with
    | .error fault => .error fault
    | .ok mark =>
      match value depth mark.rest with
      | .error fault => .error (fault.within (.key name.value))
      | .ok item =>
        match nextMember item.rest with
        | .error fault => .error (fault.within .unknown)
        | .ok ⟨false, rest, h⟩ =>
          .ok ⟨[(name.value, item.value)], rest, by
            have := name.rest_le; have := mark.rest_le; have := item.rest_le; omega⟩
        | .ok ⟨true, rest, h⟩ =>
          match members depth rest with
          | .error fault => .error fault
          | .ok others =>
            .ok ⟨(name.value, item.value) :: others.value, others.rest, by
              have := name.rest_le; have := mark.rest_le; have := item.rest_le
              have := others.rest_le; omega⟩
termination_by 2 * s.length + 1
decreasing_by
  · have := name.rest_le; have := mark.rest_le; omega
  · have := name.rest_le; have := mark.rest_le; have := item.rest_le; omega

end

/-- Reads a value off the front of a text. -/
def front {α : Type} (reader : Reader α) (text : String) : Except TextError α :=
  match reader text.toList with
  | .ok taken => .ok taken.value
  | .error fault => .error (.ofFault text.toList fault)

/-- Takes the blanks at the end of a text, where nothing else may follow. -/
def finished : Reader Unit := do
  if (← peekPastBlanks).isSome then fail (.atNext .trailingCharacters)

/-- Reads a whole text. -/
def whole {α : Type} (reader : Reader α) (text : String) : Except TextError α :=
  front (do let value ← reader; finished; pure value) text

end Reader

/-- The value that a JSON text denotes. -/
def Json.parse (text : String) : Except TextError Json :=
  (Reader.whole (Reader.value Reader.depthLimit) text).map Json.mergeKeys

end EventSchema
