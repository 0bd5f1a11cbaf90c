import EventSchema.FileTree

/-!
# Paths in a file system

A file system is a file tree with a working directory.  A path is followed
piece by piece, from the working directory or from the root; every piece but
the last has to lead to a directory.
-/

namespace EventSchema

/-- A file tree and the place of the working directory in it. -/
structure FileSystem where
  root : FileTree
  workingDir : List String

/-- Why a file operation fails. -/
inductive SystemError where
  | notFound
  | notADirectory
  | isADirectory
  | fileExists
  | notUtf8
  /-- A path holds the character that ends paths. -/
  | nulInPath
  deriving DecidableEq

/-- The wording of a system error. -/
def SystemError.message : SystemError → String
  | notFound => "No such file or directory (os error 2)"
  | notADirectory => "Not a directory (os error 20)"
  | isADirectory => "Is a directory (os error 21)"
  | fileExists => "File exists (os error 17)"
  | notUtf8 => "stream did not contain valid UTF-8"
  | nulInPath => "file name contained an unexpected NUL byte"

/-! ## Paths -/

/-- The pieces of a path between slashes. -/
def pathPieces (path : String) : List String :=
  (path.toList.splitOn '/').map String.ofList

/-- The pieces of a path that name something. -/
def namedPieces (path : String) : List String :=
  (pathPieces path).filter fun piece => piece ≠ "" ∧ piece ≠ "."

/-- Paths hold no character of code point zero. -/
def checkPath (path : String) : Except SystemError Unit :=
  if path.toList.contains (Char.ofNat 0) then .error .nulInPath else .ok ()

namespace FileTree

/-- One piece of a path further from a place. -/
def step (tree : FileTree) (place : List String) (piece : String) :
    Except SystemError (List String) :=
  if !tree.isDirAt place then .error .notADirectory
  else if piece = "" || piece = "." then .ok place
  else if piece = ".." then .ok place.dropLast
  else if (tree.find? (place ++ [piece])).isSome then .ok (place ++ [piece])
  else .error .notFound

/-- The place that pieces lead to from another one. -/
def walk (tree : FileTree) (place : List String) (pieces : List String) :
    Except SystemError (List String) :=
  pieces.foldlM tree.step place

/-- Makes the last of the directories that the pieces lead to. -/
def makeDir (tree : FileTree) (place : List String) (pieces : List String) :
    Except SystemError FileTree :=
  match tree.walk place pieces with
  | .ok _ => .error .fileExists
  | .error .notFound => do
    let outer ← tree.walk place pieces.dropLast
    match pieces.getLast? with
    | some piece => .ok (tree.put (outer ++ [piece]) empty)
    | none => .error .notFound
  | .error error => .error error

/-- Makes all directories that the pieces, last one first, lead to. -/
def makeDirs (tree : FileTree) (place : List String) : List String → Except SystemError FileTree
  | [] => .ok tree
  | piece :: outer =>
    let pieces := (piece :: outer).reverse
    let settle (tree : FileTree) (error : SystemError) : Except SystemError FileTree :=
      match tree.walk place pieces with
      | .ok found => if tree.isDirAt found then .ok tree else .error error
      | .error _ => .error error
    match tree.makeDir place pieces with
    | .ok tree => .ok tree
    | .error .notFound => do
      let tree ← makeDirs tree place outer
      match tree.makeDir place pieces with
      | .ok tree => .ok tree
      | .error error => settle tree error
    | .error error => settle tree error

end FileTree

namespace FileSystem

/-- The file system of files in the working directory. -/
def ofFiles (workingDir : List String) (files : List (String × ByteArray)) : FileSystem where
  root := files.foldl
    (fun tree (path, content) => tree.put (workingDir ++ namedPieces path) (.file content))
    (FileTree.empty.put workingDir .empty)
  workingDir

/-- Where a path starts. -/
def start (system : FileSystem) (path : String) : List String :=
  if path.startsWith "/" then [] else system.workingDir

/-- The place that a path leads to. -/
def resolve (system : FileSystem) (path : String) : Except SystemError (List String) := do
  checkPath path
  if path.isEmpty then .error .notFound
  else system.root.walk (system.start path) (pathPieces path)

/-- The text in a file. -/
def readText (system : FileSystem) (path : String) : Except SystemError String := do
  match system.root.find? (← system.resolve path) with
  | some (.file content) =>
    match String.fromUTF8? content with
    | some text => .ok text
    | none => .error .notUtf8
  | _ => .error .isADirectory

/-- Makes the directory that a path lies in, and those that it lies in itself. -/
def makeParent (system : FileSystem) (path : String) : Except SystemError FileSystem := do
  let pieces := (namedPieces path).dropLast
  checkPath ("/".intercalate pieces)
  let root ← system.root.makeDirs (system.start path) pieces.reverse
  return { system with root }

/-- Writes a text to a file, which need not exist before.  A path that ends in a slash does not
name a file. -/
def writeText (system : FileSystem) (path text : String) : Except SystemError FileSystem := do
  checkPath path
  let pieces := pathPieces path
  let named := (pieces.reverse.dropWhile (· = "")).reverse
  match named.getLast? with
  | none => .error (if path.isEmpty then .notFound else .isADirectory)
  | some piece =>
    let place ← system.root.walk (system.start path) named.dropLast
    if !system.root.isDirAt place then .error .notADirectory
    else if named ≠ pieces || piece = "." || piece = ".." then .error .isADirectory
    else if system.root.isDirAt (place ++ [piece]) then .error .isADirectory
    else
      return { system with root := system.root.put (place ++ [piece]) (.file text.toUTF8) }

/-- The files of the working directory that are new or other than before, sorted by path. -/
def changes (before after : FileSystem) : List (String × ByteArray) :=
  FileTree.changes ((before.root.find? before.workingDir).getD .empty)
    ((after.root.find? after.workingDir).getD .empty)

end FileSystem

end EventSchema
