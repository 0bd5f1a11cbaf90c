/-!
# File trees

A tree of named files and directories.  A place in a tree is the row of names
that leads to it from the root.
-/

namespace EventSchema

/-- A file or a directory; the entries of a directory are sorted by name. -/
inductive FileTree where
  | file (content : ByteArray)
  | dir (entries : List (String × FileTree))

namespace FileTree

/-- A tree without files. -/
def empty : FileTree :=
  .dir []

/-- The entries of a directory. -/
def entries : FileTree → List (String × FileTree)
  | file _ => []
  | dir entries => entries

/-- Whether a node is a directory. -/
def isDir : FileTree → Bool
  | file _ => false
  | dir _ => true

/-- The node at a place. -/
def find? (tree : FileTree) : List String → Option FileTree
  | [] => some tree
  | name :: names => (tree.entries.lookup name).bind fun node => node.find? names

/-- Whether there is a directory at a place. -/
def isDirAt (tree : FileTree) (place : List String) : Bool :=
  (tree.find? place).any isDir

/-- Replaces the entry of a name, or puts a new one where it belongs. -/
def setEntry (name : String) (node : FileTree) :
    List (String × FileTree) → List (String × FileTree)
  | [] => [(name, node)]
  | (other, old) :: rest =>
    if other = name then (name, node) :: rest
    else if name < other then (name, node) :: (other, old) :: rest
    else (other, old) :: setEntry name node rest

/-- Puts a node at a place, with directories on the way. -/
def put (tree : FileTree) (place : List String) (node : FileTree) : FileTree :=
  match place with
  | [] => node
  | name :: names =>
    let old := (tree.entries.lookup name).getD empty
    dir (setEntry name (old.put names node) tree.entries)

mutual

/-- The files of a tree with their places. -/
def files : FileTree → List (List String × ByteArray)
  | file content => [([], content)]
  | dir entries => filesOf entries
termination_by structural tree => tree

/-- The files of the entries of a directory. -/
def filesOf : List (String × FileTree) → List (List String × ByteArray)
  | [] => []
  | (name, node) :: rest =>
    node.files.map (fun (names, content) => (name :: names, content)) ++ filesOf rest
termination_by structural entries => entries

end

/-- The files that a tree has beyond another one, or with another content, sorted by path. -/
def changes (before after : FileTree) : List (String × ByteArray) :=
  let changed := after.files.filter fun (place, content) =>
    match before.find? place with
    | some (.file old) => old.toList ≠ content.toList
    | _ => true
  (changed.map fun (place, content) => ("/".intercalate place, content)).mergeSort
    fun first second => decide ¬second.1 < first.1

end FileTree

end EventSchema
