import EventSchema.Quoted
import EventSchema.Settings

/-!
# Commands

What the program can be asked to do, and how a command is shown when it is
only to be looked at.
-/

namespace EventSchema

/-- A request for the schemas of documents. -/
structure SchemaRequest where
  /-- Paths of documents, or patterns of such paths. -/
  inputs : List String := []
  /-- Nullable classes become unions with null. -/
  nullable : Bool := false
  /-- Strings are not marked as native. -/
  plainStrings : Bool := false
  /-- The file for the schemas, instead of the standard output. -/
  out : Option String := none
  /-- The request is only shown. -/
  noOp : Bool := false
  deriving DecidableEq

/-- What the program is asked to do. -/
inductive Command where
  | schema (request : SchemaRequest)
  /-- Writes the schema in a file in its canonical form. -/
  | check (file : String)
  deriving DecidableEq

/-- The settings of documents that have none of their own. -/
def SchemaRequest.settings (request : SchemaRequest) : Settings where
  preferNonNull := !request.nullable
  nativeString := !request.plainStrings

/-! ## Showing a request -/

/-- Lines that stand between an opening and a closing one, and are indented for that. -/
def enclosed (opening closing : String) (lines : List String) : List String :=
  opening :: lines.map ("    " ++ ·) ++ [closing]

/-- A path as it is shown between quotes: unlike in other texts the apostrophe is escaped. -/
def shownPath (path : String) : String :=
  "\"" ++ String.join (path.toList.map fun c => if c = '\'' then "\\'" else shownChar c) ++ "\""

namespace SchemaRequest

/-- The members of a request, line by line. -/
def shownMembers (request : SchemaRequest) : List String :=
  enclosed "input_settings: InputSettings \x7b" "\x7d,"
      (enclosed "input: [" "]," (request.inputs.map fun input => shown input ++ ",")) ++
    ["nullable: " ++ toString request.nullable ++ ",",
      "plain_strings: " ++ toString request.plainStrings ++ ","] ++
    (match request.out with
      | none => ["out: None,"]
      | some path => enclosed "out: Some(" ")," [shownPath path ++ ","]) ++
    ["no_op: " ++ toString request.noOp ++ ","]

/-- The whole request, line by line. -/
def shownLines (request : SchemaRequest) : List String :=
  enclosed "CommandLineInterface \x7b" "\x7d"
    (enclosed "cmd: Schema(" "),"
      (enclosed "SchemaOut \x7b" "\x7d," request.shownMembers))

end SchemaRequest

end EventSchema
