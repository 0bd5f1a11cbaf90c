import EventSchema.Command.Arguments
import EventSchema.Command.Run

/-!
# The program

Looks at the files that a command names, runs the command on them, prints what
it says and writes the files that it changed.  Directories are not listed, so a
pattern stands for those of the named files that match it.
-/

namespace EventSchema

/-- How the program is called. -/
def usage : String :=
  "Usage: eventschema schema --input <PATH>... [--nullable] [--plain-strings]\n" ++
    "                          [--out <FILE>] [--no-op]\n" ++
    "       eventschema check <FILE>"

/-- The name and version of the program. -/
def versionText : String :=
  "eventschema 0.1.0"

/-- What is wrong with arguments. -/
def UsageError.message : UsageError → String
  | missingCommand => "a command is missing"
  | unknownCommand => "there is no such command"
  | missingArgument => "a required argument is missing"
  | unknownArgument => "there is an unexpected argument"
  | missingValue => "an option or argument has no value"
  | unexpectedValue => "a value is given to an option that takes none"
  | repeatedArgument => "an option is given more than once"
  | help => usage
  | version => versionText

/-- The paths that a command names. -/
def Command.paths : Command → List String
  | schema request => request.inputs ++ request.out.toList
  | check file => [file]

/-- What stands at a path: a file, a directory, of which no entries are known, or nothing that can
be read. -/
def readNode (path : String) : IO (Option FileTree) := do
  try
    return some (.file (← IO.FS.readBinFile path))
  catch error =>
    match error with
    | .inappropriateType _ 21 _ => return some .empty
    | _ => return none

/-- Adds what stands at a path and on the way to it. -/
def FileSystem.withPath (system : FileSystem) (path : String) : IO FileSystem := do
  let mut root := system.root
  let mut place := system.start path
  let mut reached := if path.startsWith "/" then "/" else ""
  for piece in namedPieces path do
    reached := reached ++ piece
    if piece = ".." then
      place := place.dropLast
    else
      place := place ++ [piece]
      if (root.find? place).isNone then
        match ← readNode reached with
        | some node => root := root.put place node
        | none => break
    reached := reached ++ "/"
  return { system with root }

/-- The part of the file system that paths lead to. -/
def fileSystemOf (paths : List String) : IO FileSystem := do
  let workingDir := namedPieces (toString (← IO.currentDir))
  paths.foldlM FileSystem.withPath (FileSystem.ofFiles workingDir [])

/-- Writes a file, in a directory that is made if it is not there. -/
def writeOut (path : String) (content : ByteArray) : IO Unit := do
  IO.FS.createDirAll ("/" ++ "/".intercalate (namedPieces path).dropLast)
  IO.FS.writeBinFile ("/" ++ path) content

/-- Runs a command on the files that it names. -/
def execute (command : Command) : IO UInt32 := do
  let system ← fileSystemOf command.paths
  let outcome := command.run system
  IO.eprint outcome.stderr
  IO.print outcome.stdout
  for (path, content) in FileTree.changes system.root outcome.system.root do
    writeOut path content
  match outcome.failure with
  | none => pure ()
  | some failure => IO.eprintln ("error: " ++ failure)
  return UInt32.ofNat outcome.exitCode

end EventSchema

/-- Runs the command that the arguments make, or says why they make none. -/
def main (args : List String) : IO UInt32 := do
  match EventSchema.Command.parse args with
  | .ok command => EventSchema.execute command
  | .error .help => IO.println EventSchema.usage; return 0
  | .error .version => IO.println EventSchema.versionText; return 0
  | .error error =>
    IO.eprintln ("error: " ++ error.message ++ "\n" ++ EventSchema.usage)
    return 2
