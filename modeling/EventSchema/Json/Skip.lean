import EventSchema.Json.Reader

/-!
# Passing over JSON values

A value that nobody asks for is passed over without being read: its punctuation
and the form of its words, numbers and strings are checked, but neither how
deep it is nested, nor whether its numbers are in range and its surrogates
paired.
-/

namespace EventSchema

namespace Reader

/-- Passes over an escape, after its backslash. -/
def skipEscape : Reader Unit := do
  match ← peek with
  | none => fail (.here .endInString)
  | some 'u' =>
    advance
    let _ ← hexUnit
  | some c => if (escapeLetter c).isSome then advance else fail (.atNext .invalidEscape)

/-- Passes over a string, after its opening quote. -/
def skipString (s : List Char) : Except Fault (Taken s Unit) :=
  match s with
  | [] => .error (.here .endInString [])
  | c :: rest =>
    if c = '"' then .ok ⟨(), rest, Nat.le_succ _⟩
    else if c.toNat < 32 then .error (.here .controlCharacter (c :: rest))
    else if c = '\\' then
      match skipEscape rest with
      | .error fault => .error fault
      | .ok first =>
        match skipString first.rest with
        | .error fault => .error fault
        | .ok more =>
          .ok ⟨(), more.rest, Nat.le_succ_of_le (Nat.le_trans more.rest_le first.rest_le)⟩
    else
      match skipString rest with
      | .error fault => .error fault
      | .ok more =>
        .ok ⟨(), more.rest, Nat.le_succ_of_le more.rest_le⟩
termination_by s.length
decreasing_by
  · exact Nat.lt_succ_of_le first.rest_le
  · exact Nat.lt_succ_self _

/-- Passes over at least one digit. -/
def skipDigits : Reader Unit := do
  if (← digits).isEmpty then fail (.atNext .invalidNumber)

/-- Passes over a number, after its sign. -/
def skipMagnitude : Reader Unit := do
  match ← peek with
  | some '0' =>
    advance
    if (← peek).any Char.isDigit then fail (.atNext .invalidNumber)
  | _ => skipDigits
  if (← peek) = some '.' then
    advance
    skipDigits
  if (← peek) = some 'e' ∨ (← peek) = some 'E' then
    advance
    if (← peek) = some '+' ∨ (← peek) = some '-' then advance
    skipDigits

/-- Passes over a value that is neither an array nor an object. -/
def skipScalar : Reader Unit := do
  match ← peekPastBlanks with
  | none => fail (.atNext .endInValue)
  | some 'n' => word ['n', 'u', 'l', 'l']
  | some 't' => word ['t', 'r', 'u', 'e']
  | some 'f' => word ['f', 'a', 'l', 's', 'e']
  | some '"' =>
    advance
    skipString
  | some '-' =>
    advance
    skipMagnitude
  | some c => if c.isDigit then skipMagnitude else fail (.atNext .expectedValue)

/-- Passes over a key and the colon after it. -/
def skipKey : Reader Unit := do
  match ← peekPastBlanks with
  | none => fail (.atNext .endInObject)
  | some '"' =>
    advance
    skipString
    colon
  | some _ => fail (.atNext .keyNotString)

/-- What holds the value that is being passed over. -/
inductive Frame where
  | array
  | object

mutual

/-- Passes over a value and the rest of all that holds it, innermost first. -/
def skipWithin (frames : List Frame) (s : List Char) : Except Fault (Taken s Unit) :=
  match pastBlanks s with
  | ⟨[], _⟩ => .error (.atNext .endInValue [])
  | ⟨c :: rest, h⟩ =>
    if c = '[' then
      match pastBlanks rest with
      | ⟨[], _⟩ => .error (.atNext .endInArray [])
      | ⟨d :: after, h'⟩ =>
        if d = ']' then
          (skipRest frames after).map
            (Taken.widen (Nat.le_of_lt (Nat.lt_trans h' h)))
        else (skipWithin (.array :: frames) rest).map (Taken.widen (Nat.le_of_lt h))
    else if c = '\x7b' then
      match pastBlanks rest with
      | ⟨[], _⟩ => .error (.atNext .endInObject [])
      | ⟨d :: after, h'⟩ =>
        if d = '\x7d' then
          (skipRest frames after).map
            (Taken.widen (Nat.le_of_lt (Nat.lt_trans h' h)))
        else
          match skipKey rest with
          | .error fault => .error fault
          | .ok name =>
            (skipWithin (.object :: frames) name.rest).map
              (Taken.widen (Nat.le_trans name.rest_le (Nat.le_of_lt h)))
    else
      match skipScalar s with
      | .error fault => .error fault
      | .ok scalar => (skipRest frames scalar.rest).map (Taken.widen scalar.rest_le)
termination_by (s.length, 1)
decreasing_by
  · exact Prod.Lex.left _ _ (Nat.lt_trans h' h)
  · exact Prod.Lex.left _ _ h
  · exact Prod.Lex.left _ _ (Nat.lt_trans h' h)
  · exact Prod.Lex.left _ _ (Nat.lt_of_le_of_lt name.rest_le h)
  · rcases Nat.lt_or_eq_of_le scalar.rest_le with shorter | same
    · exact Prod.Lex.left _ _ shorter
    · rw [same]
      exact Prod.Lex.right _ Nat.zero_lt_one

/-- Passes over what follows a value in all that holds it, innermost first. -/
def skipRest (frames : List Frame) (s : List Char) : Except Fault (Taken s Unit) :=
  match frames with
  | [] => .ok ⟨(), s, Nat.le_refl _⟩
  | .array :: outer =>
    match pastBlanks s with
    | ⟨[], _⟩ => .error (.atNext .endInArray [])
    | ⟨c :: rest, h⟩ =>
      if c = ']' then (skipRest outer rest).map (Taken.widen (Nat.le_of_lt h))
      else if c = ',' then
        (skipWithin (.array :: outer) rest).map (Taken.widen (Nat.le_of_lt h))
      else .error (.atNext .expectedCommaOrBracket (c :: rest))
  | .object :: outer =>
    match pastBlanks s with
    | ⟨[], _⟩ => .error (.atNext .endInObject [])
    | ⟨c :: rest, h⟩ =>
      if c = '\x7d' then (skipRest outer rest).map (Taken.widen (Nat.le_of_lt h))
      else if c = ',' then
        match skipKey rest with
        | .error fault => .error fault
        | .ok name =>
          (skipWithin (.object :: outer) name.rest).map
            (Taken.widen (Nat.le_trans name.rest_le (Nat.le_of_lt h)))
      else .error (.atNext .expectedCommaOrBrace (c :: rest))
termination_by (s.length, 0)
decreasing_by
  · exact Prod.Lex.left _ _ h
  · exact Prod.Lex.left _ _ h
  · exact Prod.Lex.left _ _ h
  · exact Prod.Lex.left _ _ (Nat.lt_of_le_of_lt name.rest_le h)

end

/-- Passes over a value. -/
def skipValue : Reader Unit :=
  skipWithin []

end Reader

end EventSchema
