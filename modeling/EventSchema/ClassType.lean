import EventSchema.Blank

/-!
# Classes of property values

The classes that a property may be declared with, and the type strings that
denote them.  A class name followed by a pair of brackets denotes an array.
-/

namespace EventSchema

/-- The classes that have an unboxed and a boxed form. -/
inductive BasicClass where
  | boolean
  | byte
  | short
  | char
  | int
  | long
  | float
  | double
  deriving DecidableEq

namespace BasicClass

/-- The name of the unboxed form. -/
def name : BasicClass → String
  | boolean => "boolean"
  | byte => "byte"
  | short => "short"
  | char => "char"
  | int => "int"
  | long => "long"
  | float => "float"
  | double => "double"

/-- The name of the boxed form. -/
def boxedName : BasicClass → String
  | boolean => "Boolean"
  | byte => "Byte"
  | short => "Short"
  | char => "Character"
  | int => "Integer"
  | long => "Long"
  | float => "Float"
  | double => "Double"

/-- Every basic class. -/
def all : List BasicClass :=
  [boolean, byte, short, char, int, long, float, double]

end BasicClass

/-- A class of values. -/
inductive ClassType where
  /-- An unboxed value, never null. -/
  | basic (kind : BasicClass)
  /-- The boxed form of a basic class, which may be null. -/
  | boxed (kind : BasicClass)
  | string
  | charSequence
  | array (component : ClassType)
  /-- A class of maps, by name. -/
  | map (name : String)
  /-- Any other class, by name. -/
  | other (name : String)
  deriving DecidableEq

/-- The mark that follows a type name to denote an array of the type. -/
def arrayMarker : String := "[]"

/-- The characters of a name, last one first, up to the array marker that they start with. -/
def dropMarker? : List Char → Option (List Char)
  | ']' :: '[' :: rest => some rest
  | _ => none

/-- A type name without the array marker at its end, and whether there was one. -/
def stripArrayMarker (name : String) : String × Bool :=
  match dropMarker? name.toList.reverse with
  | some rest => (String.ofList rest.reverse, true)
  | none => (name, false)

namespace ClassType

/-- The boxed form of a class; only unboxed basic classes differ from theirs. -/
def toBoxed : ClassType → ClassType
  | basic kind => boxed kind
  | type => type

/-- Whether values of the class may be null. -/
def isNullable : ClassType → Bool
  | basic _ => false
  | _ => true

/-- Whether values of the class are text. -/
def isStringLike : ClassType → Bool
  | string => true
  | charSequence => true
  | _ => false

/-- The name of a class. -/
def text : ClassType → String
  | basic kind => kind.name
  | boxed kind => kind.boxedName
  | string => "String"
  | charSequence => "CharSequence"
  | array component => component.text ++ arrayMarker
  | map name => name
  | other name => name

/-- The names of the classes of maps. -/
def mapNames : List String := ["Map", "HashMap", "LinkedHashMap", "TreeMap"]

/-- The class of a name without array markers.  A name that is not known denotes a class only if
it is qualified by a point. -/
def ofPlainName? (name : String) : Option ClassType :=
  match BasicClass.all.find? fun kind => kind.name = name with
  | some kind => some (basic kind)
  | none =>
    match BasicClass.all.find? fun kind => kind.boxedName = name with
    | some kind => some (boxed kind)
    | none =>
      if name = "String" then some string
      else if name = "CharSequence" then some charSequence
      else if name ∈ mapNames then some (map name)
      else if name.toList.contains '.' then some (other name)
      else none

/-- The class of a name given last character first; each array marker adds one level. -/
def ofReversed? : List Char → Option ClassType
  | ']' :: '[' :: rest => (ofReversed? rest).map array
  | plain => ofPlainName? (String.ofList plain.reverse)

/-- The class of a name. -/
def ofName? (name : String) : Option ClassType :=
  ofReversed? name.toList.reverse

end ClassType

end EventSchema
