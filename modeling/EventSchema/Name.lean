/-!
# Names of types and fields

A name is a row of segments joined by points; every segment starts with a
letter or an underscore and goes on with letters, digits and underscores.  A
type's full name puts its namespace in front, unless the name is dotted itself.
-/

namespace EventSchema

namespace Name

/-- Whether a segment may start with the character. -/
def isStart (c : Char) : Bool :=
  c.isAlpha || c = '_'

/-- Whether a segment may go on with the character. -/
def isPart (c : Char) : Bool :=
  c.isAlphanum || c = '_'

/-- Whether the characters form one segment. -/
def isSegmentChars : List Char → Bool
  | [] => false
  | c :: rest => isStart c && rest.all isPart

/-- The pieces between points. -/
def pieces : List Char → List (List Char)
  | [] => [[]]
  | c :: rest =>
    if c = '.' then [] :: pieces rest
    else
      match pieces rest with
      | piece :: others => (c :: piece) :: others
      | [] => [[c]]

/-- Whether a name is a single legal segment. -/
def isSegment (name : String) : Bool :=
  isSegmentChars name.toList

/-- Whether every segment of a name is legal. -/
def isValid (name : String) : Bool :=
  (pieces name.toList).all isSegmentChars

/-- Whether a name has a point in it, and so carries its own namespace. -/
def isDotted (name : String) : Bool :=
  name.toList.contains '.'

/-- What stands before and after the last point. -/
def splitLastChars : List Char → Option (List Char × List Char)
  | [] => none
  | c :: rest =>
    match splitLastChars rest with
    | some (before, after) => some (c :: before, after)
    | none => if c = '.' then some ([], rest) else none

/-- The namespace that a dotted name carries, and its last segment. -/
def splitLast (name : String) : Option (String × String) :=
  (splitLastChars name.toList).map fun (space, last) => (String.ofList space, String.ofList last)

/-- The full name of a type: the namespace, a point and the name, or just the name if it is
dotted or there is no namespace. -/
def full (name : String) (space : Option String) : String :=
  match space with
  | some space => if space.isEmpty || isDotted name then name else space ++ "." ++ name
  | none => name

end Name

end EventSchema
