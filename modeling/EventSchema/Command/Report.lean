import EventSchema.Document
import EventSchema.FileSystem
import EventSchema.Json.Text
import EventSchema.Schema.ToJson

/-!
# Reports on documents

Each file is read, declared and written out on its own, starting from an empty
registry.  A report collects the schemas of the files that succeed and the
errors of the others.
-/

namespace EventSchema

/-! ## Causes of errors -/

/-- What led to an error, from the outermost message to the innermost; messages that hold the
text of their cause repeat it. -/
abbrev Causes := List String

/-- A row of causes in one line. -/
def Causes.text (causes : Causes) : String :=
  ": ".intercalate causes

/-- The causes of a schema read error. -/
def SchemaReadError.causes (error : SchemaReadError) : Causes :=
  error.message ::
    match error with
    | .malformed inner => [inner.message]
    | _ => []

/-- The causes of a synthesis error. -/
def SynthesisError.causes (error : SynthesisError) : Causes :=
  error.message ::
    match error with
    | .unreadableOverride _ inner => inner.causes
    | _ => []

/-- Why a file has no schemas to report. -/
inductive FileError where
  | unreadable (path : String) (error : SystemError)
  | malformed (error : TextError)
  | undeclarable (path : String) (error : SynthesisError)
  | unwritable (error : SchemaWriteError)
  deriving DecidableEq

/-- The causes of a file error. -/
def FileError.causes : FileError → Causes
  | unreadable path error => ["failed to read source file " ++ path, error.message]
  | malformed error => [documentMessage error, error.message]
  | undeclarable path error => ("declaring types of " ++ path) :: error.causes
  | unwritable error => [error.message]

/-! ## Schemas of a file -/

/-- The schemas of types in JSON, by the names of the types. -/
def writtenTypes : List EventType → Except SchemaWriteError (Entries Json)
  | [] => .ok []
  | type :: rest =>
    match type.schema? with
    | none => writtenTypes rest
    | some schema => do
      let json ← schema.toJson
      return (type.name, json) :: (← writtenTypes rest)

/-- The schemas of the types that the document in a file declares. -/
def schemasOfFile (system : FileSystem) (settings : Settings) (path : String) :
    Except FileError (Entries Json) := do
  let text ← (system.readText path).mapError (.unreadable path)
  let document ← (Declarations.parse text).mapError .malformed
  let types ← (Registry.declareAll {} settings document).1.mapError (.undeclarable path)
  (writtenTypes types).mapError .unwritable

/-! ## Reports -/

/-- What came of the files that were looked at. -/
structure Report where
  /-- The schemas of the files that have some, by path. -/
  output : Entries Json := []
  /-- The files without, in order. -/
  failures : List (String × FileError) := []

namespace Report

/-- Adds what came of a file.  A path that is given twice keeps its first place. -/
def add (report : Report) (path : String) : Except FileError (Entries Json) → Report
  | .ok schemas => { report with output := Entries.set path (.obj schemas) report.output }
  | .error error => { report with failures := report.failures ++ [(path, error)] }

/-- The report on files. -/
def ofPaths (system : FileSystem) (settings : Settings) (paths : List String) : Report :=
  paths.foldl (fun report path => report.add path (schemasOfFile system settings path)) {}

/-- The schemas as they are printed. -/
def text (report : Report) : String :=
  Json.indented 0 (.obj report.output)

/-- The line about a file without schemas. -/
def failureLine (path : String) (error : FileError) : String :=
  "✗ " ++ path ++ ": " ++ error.causes.text ++ "\n"

/-- The lines about the files without schemas. -/
def failureText (report : Report) : String :=
  String.join (report.failures.map fun (path, error) => failureLine path error)

/-- The failure of the whole run, if a file has no schemas. -/
def failure (report : Report) : Option String :=
  if report.failures.isEmpty then none
  else some (toString report.failures.length ++ " declaration file(s) failed")

end Report

end EventSchema
