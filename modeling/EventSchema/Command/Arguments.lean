import EventSchema.Command.Basic

/-!
# Reading arguments

The first argument names the command, the others belong to it.  An option may
be given a value in the same argument or in the ones that follow; after a
divider no argument is an option.  A value that stands in arguments of its own
is looked at when the next option follows or the arguments end.
-/

namespace EventSchema

/-- Why arguments make no command. -/
inductive UsageError where
  | missingCommand
  | unknownCommand
  | missingArgument
  | unknownArgument
  | missingValue
  | unexpectedValue
  | repeatedArgument
  /-- Help was asked for instead. -/
  | help
  /-- The version was asked for instead. -/
  | version
  deriving DecidableEq

/-- An argument by its form. -/
inductive Argument where
  | divider
  | long (name : String) (value : Option String)
  /-- One letter, and the characters after it in the same argument. -/
  | short (letter : Char) (rest : List Char)
  | word (text : String)

namespace Argument

/-- The form of an argument that starts with two hyphens and goes on with the given characters:
an equals sign ends the name. -/
def ofLongName (chars : List Char) : Argument :=
  let name := String.ofList (chars.takeWhile (· ≠ '='))
  match chars.dropWhile (· ≠ '=') with
  | [] => long name none
  | _ :: value => long name (some (String.ofList value))

/-- The form of an argument.  A single hyphen is a word. -/
def ofText (text : String) : Argument :=
  match text.toList with
  | ['-', '-'] => divider
  | '-' :: '-' :: chars => ofLongName chars
  | '-' :: letter :: rest => short letter rest
  | _ => word text

/-- The value that stands in the same argument as its letter, possibly after an equals sign. -/
def valueAfterLetter : List Char → Option String
  | [] => none
  | '=' :: value => some (String.ofList value)
  | value => some (String.ofList value)

end Argument

/-! ## Options of the schema command -/

/-- An option with values. -/
inductive ValueOption where
  | input
  | out
  deriving DecidableEq

/-- An option without values. -/
inductive Switch where
  | nullable
  | plainStrings
  | noOp
  deriving DecidableEq

/-- An option of the schema command. -/
inductive SchemaOption where
  | withValue (option : ValueOption)
  | switch (switch : Switch)
  | help
  deriving DecidableEq

namespace SchemaOption

/-- The option of a long name. -/
def ofName? : String → Option SchemaOption
  | "input" => some (withValue .input)
  | "out" => some (withValue .out)
  | "nullable" => some (switch .nullable)
  | "plain-strings" => some (switch .plainStrings)
  | "no-op" => some (switch .noOp)
  | "help" => some help
  | _ => none

/-- The option of a letter. -/
def ofLetter? : Char → Option SchemaOption
  | 'i' => some (withValue .input)
  | 'o' => some (withValue .out)
  | 'h' => some help
  | _ => none

end SchemaOption

namespace SchemaRequest

/-- Gives a request the values of an option.  Inputs add up; the output is given once. -/
def give (request : SchemaRequest) :
    ValueOption → List String → Except UsageError SchemaRequest
  | _, [] => .error .missingValue
  | .input, values => .ok { request with inputs := request.inputs ++ values }
  | .out, value :: _ =>
    if request.out.isSome then .error .repeatedArgument
    else if value.isEmpty then .error .missingValue
    else .ok { request with out := some value }

/-- Sets a switch, which is given once. -/
def set (request : SchemaRequest) : Switch → Except UsageError SchemaRequest
  | .nullable =>
    if request.nullable then .error .repeatedArgument
    else .ok { request with nullable := true }
  | .plainStrings =>
    if request.plainStrings then .error .repeatedArgument
    else .ok { request with plainStrings := true }
  | .noOp =>
    if request.noOp then .error .repeatedArgument else .ok { request with noOp := true }

end SchemaRequest

/-- A request that is being read, with the last option and its values if these stand in arguments
of their own. -/
structure SchemaDraft where
  request : SchemaRequest := {}
  pending : Option (ValueOption × List String) := none

namespace SchemaDraft

/-- The request with the values that were still to be looked at. -/
def settle (draft : SchemaDraft) : Except UsageError SchemaRequest :=
  match draft.pending with
  | none => .ok draft.request
  | some (option, values) => draft.request.give option values

/-- Meets an option, with the value in the same argument if there is one. -/
def meet (draft : SchemaDraft) :
    SchemaOption → Option String → Except UsageError SchemaDraft
  | .withValue option, none => do
    return { request := ← draft.settle, pending := some (option, []) }
  | .withValue option, some value => do
    return { request := ← (← draft.settle).give option [value] }
  | .switch switch, none => do
    return { request := ← (← draft.settle).set switch }
  | .help, none => do
    let _ ← draft.settle
    .error .help
  | _, some _ => .error .unexpectedValue

/-- Meets a word: a value of the last option, if that takes one more. -/
def meetWord (draft : SchemaDraft) (word : String) : Except UsageError SchemaDraft :=
  match draft.pending with
  | some (.input, values) => .ok { draft with pending := some (.input, values ++ [word]) }
  | some (.out, []) => .ok { draft with pending := some (.out, [word]) }
  | _ => .error .unknownArgument

/-- The request when all arguments were met. -/
def finish (draft : SchemaDraft) : Except UsageError SchemaRequest := do
  let request ← draft.settle
  if request.inputs.isEmpty then .error .missingArgument else return request

end SchemaDraft

/-- Reads the arguments of the schema command, which takes no words but values of options. -/
def SchemaRequest.parse (draft : SchemaDraft) : List String → Except UsageError SchemaRequest
  | [] => draft.finish
  | text :: rest =>
    match Argument.ofText text with
    | .divider => if rest.isEmpty then draft.finish else .error .unknownArgument
    | .long name value =>
      match SchemaOption.ofName? name with
      | none => .error .unknownArgument
      | some option => do SchemaRequest.parse (← draft.meet option value) rest
    | .short letter chars =>
      match SchemaOption.ofLetter? letter with
      | none => .error .unknownArgument
      | some (.withValue option) => do
        SchemaRequest.parse
          (← draft.meet (.withValue option) (Argument.valueAfterLetter chars)) rest
      | some option => do SchemaRequest.parse (← draft.meet option none) rest
    | .word word => do SchemaRequest.parse (← draft.meetWord word) rest

/-! ## The check command -/

namespace Command

/-- The file to check, if it was given. -/
def checkedFile : Option String → Except UsageError String
  | none => .error .missingArgument
  | some file => if file.isEmpty then .error .missingValue else .ok file

/-- Reads the arguments of the check command, which takes one word. -/
def parseCheck (file : Option String) : List String → Except UsageError String
  | [] => checkedFile file
  | text :: rest =>
    match Argument.ofText text with
    | .divider =>
      match file, rest with
      | some file, [] => checkedFile (some file)
      | none, [] => .error .missingArgument
      | none, [word] => checkedFile (some word)
      | _, _ => .error .unknownArgument
    | .word word => if file.isSome then .error .unknownArgument else parseCheck (some word) rest
    | .long "help" (some _) => .error .unexpectedValue
    | .long "help" none | .short 'h' _ =>
      if file = some "" then .error .missingValue else .error .help
    | _ => .error .unknownArgument

/-! ## The command -/

/-- The names that the first argument can be. -/
def names : List String := ["schema", "check", "help"]

/-- Why arguments that do not start with the name of a command make none. -/
def withoutName (text : String) (rest : List String) : UsageError :=
  match Argument.ofText text, rest with
  | .divider, [] => .missingCommand
  | .divider, word :: _ => if word ∈ names then .unknownArgument else .unknownCommand
  | .long "help" none, _ | .short 'h' _, _ => .help
  | .long "version" none, _ | .short 'V' _, _ => .version
  | .long "help" (some _), _ | .long "version" (some _), _ => .unexpectedValue
  | .word _, _ => .unknownCommand
  | _, _ => .unknownArgument

/-- What asking for help, possibly on one of the commands, comes to. -/
def helpOn : List String → UsageError
  | [] => .help
  | [name] => if name ∈ names then .help else .unknownCommand
  | _ => .unknownCommand

/-- The command that arguments make. -/
def parse : List String → Except UsageError Command
  | [] => .error .missingCommand
  | "schema" :: rest => do return schema (← SchemaRequest.parse {} rest)
  | "check" :: rest => do return check (← parseCheck none rest)
  | "help" :: rest => .error (helpOn rest)
  | text :: rest => .error (withoutName text rest)

end Command

end EventSchema
