import EventSchema.Command.Basic
import EventSchema.Command.Report
import EventSchema.Pattern

/-!
# Running commands

What a command prints, and what it leaves in the file system.
-/

namespace EventSchema

/-- What comes of a command. -/
structure Outcome where
  failure : Option String := none
  stdout : String := ""
  stderr : String := ""
  system : FileSystem

/-- The exit code of the program. -/
def Outcome.exitCode (outcome : Outcome) : Nat :=
  if outcome.failure.isSome then 1 else 0

/-! ## Inputs -/

/-- Why the inputs of a request denote no paths. -/
inductive InputError where
  | malformed (error : PatternError)
  | noMatch (pattern : String)
  deriving DecidableEq

/-- The wording of an input error. -/
def InputError.message : InputError → String
  | malformed error => error.message
  | noMatch pattern => "glob pattern matched no files: " ++ pattern

/-- The paths that an input denotes: the matches of a pattern, of which there must be some, or the
input itself. -/
def pathsOfInput (system : FileSystem) (input : String) : Except InputError (List String) :=
  if Pattern.isPattern input then
    match Pattern.paths system input with
    | .error error => .error (.malformed error)
    | .ok [] => .error (.noMatch input)
    | .ok paths => .ok paths
  else .ok [input]

/-- The paths that inputs denote, in order. -/
def pathsOfInputs (system : FileSystem) (inputs : List String) :
    Except InputError (List String) := do
  return (← inputs.mapM (pathsOfInput system)).flatten

/-! ## Commands -/

/-- Prints a report, or writes it to a file in a directory that is made if it is not there, and
fails if one of the files reported on did. -/
def Report.deliver (report : Report) (system : FileSystem) (out : Option String) : Outcome :=
  let stderr := report.failureText
  match out with
  | none => { failure := report.failure, stdout := report.text ++ "\n", stderr, system }
  | some path =>
    match system.makeParent path with
    | .error error => { failure := some error.message, stderr, system }
    | .ok system =>
      match system.writeText path report.text with
      | .error error =>
        let causes : Causes := ["failed to write " ++ path, error.message]
        { failure := some causes.text, stderr, system }
      | .ok system => { failure := report.failure, stderr, system }

/-- Prints the schemas of documents. -/
def SchemaRequest.run (request : SchemaRequest) (system : FileSystem) : Outcome :=
  if request.noOp then
    { stderr := "\n".intercalate request.shownLines ++ "\n", system }
  else
    match pathsOfInputs system request.inputs with
    | .error error => { failure := some error.message, system }
    | .ok paths =>
      (Report.ofPaths system request.settings paths).deliver system request.out

/-- The canonical form of the schema in a file. -/
def canonicalText (system : FileSystem) (file : String) : Except Causes String := do
  let source ← (system.readText file).mapError fun error =>
    ["failed to read " ++ file, error.message]
  let schema ← (Schema.parse source).mapError fun error =>
    ("invalid Avro schema in " ++ file) :: error.causes
  schema.text.mapError fun error => [error.message]

namespace Command

/-- Prints the canonical form of the schema in a file. -/
def runCheck (system : FileSystem) (file : String) : Outcome :=
  match canonicalText system file with
  | .ok text => { stdout := text ++ "\n", system }
  | .error causes => { failure := some causes.text, system }

/-- Runs a command. -/
def run (command : Command) (system : FileSystem) : Outcome :=
  match command with
  | schema request => request.run system
  | check file => runCheck system file

end Command

end EventSchema
