import EventSchema.FileSystem

/-!
# Path patterns

A pattern stands for the paths that match it: a question mark for any
character, a star for any characters of one name, brackets for one of several
characters, and a double star for any directories.  Everything else stands for
itself.
-/

namespace EventSchema

/-- A part of a pattern. -/
inductive PatternToken where
  | char (c : Char)
  | anyChar
  | anyChars
  | anyDirs
  /-- One of the characters in the ranges, or none of them. -/
  | oneOf (ranges : List (Char × Char)) (except : Bool)
  deriving DecidableEq

/-- What is wrong with a pattern. -/
inductive PatternFlaw where
  | wildcards
  | recursiveWildcards
  | invalidRange
  deriving DecidableEq

/-- A flaw and the number of characters before it. -/
structure PatternError where
  flaw : PatternFlaw
  place : Nat
  deriving DecidableEq

/-- The wording of a pattern error. -/
def PatternError.message (error : PatternError) : String :=
  "Pattern syntax error near position " ++ toString error.place ++ ": " ++
    match error.flaw with
    | .wildcards => "wildcards are either regular `*` or recursive `**`"
    | .recursiveWildcards => "recursive wildcards must form a single path component"
    | .invalidRange => "invalid range pattern"

namespace Pattern

/-- Whether a text is a pattern rather than the path of one file. -/
def isPattern (text : String) : Bool :=
  text.toList.any fun c => c = '*' || c = '?' || c = '[' || c = '\x7b'

/-- The ranges that the characters between brackets denote. -/
def rangesOf : List Char → List (Char × Char)
  | first :: '-' :: last :: rest => (first, last) :: rangesOf rest
  | c :: rest => (c, c) :: rangesOf rest
  | [] => []

/-- Splits before the first closing bracket, which is dropped. -/
def splitBracket : List Char → Option (List Char × List Char)
  | [] => none
  | c :: rest =>
    if c = ']' then some ([], rest)
    else (splitBracket rest).map fun (inner, after) => (c :: inner, after)

/-- The token of a bracketed part, after its opening bracket, and what follows it.  The first
character between the brackets may be a closing bracket itself. -/
def bracketed : List Char → Option (PatternToken × List Char)
  | '!' :: first :: rest =>
    (splitBracket rest).map fun (inner, after) => (.oneOf (rangesOf (first :: inner)) true, after)
  | '!' :: [] => none
  | first :: rest =>
    (splitBracket rest).map fun (inner, after) => (.oneOf (rangesOf (first :: inner)) false, after)
  | [] => none

theorem length_splitBracket {chars inner after : List Char}
    (h : splitBracket chars = some (inner, after)) : after.length < chars.length := by
  induction chars generalizing inner after with
  | nil => simp [splitBracket] at h
  | cons c rest ih =>
    by_cases hc : c = ']'
    · simp only [splitBracket, if_pos hc, Option.some.injEq, Prod.mk.injEq] at h
      simp [h.2]
    · simp only [splitBracket, if_neg hc, Option.map_eq_some_iff, Prod.mk.injEq] at h
      obtain ⟨⟨inner', after'⟩, hsplit, -, rfl⟩ := h
      exact Nat.lt_succ_of_lt (ih hsplit)

theorem length_bracketed {chars after : List Char} {token : PatternToken}
    (h : bracketed chars = some (token, after)) : after.length < chars.length := by
  unfold bracketed at h
  split at h
  · obtain ⟨⟨inner, after'⟩, hsplit, heq⟩ := Option.map_eq_some_iff.1 h
    obtain ⟨-, rfl⟩ := Prod.mk.inj heq
    exact Nat.lt_add_right 2 (length_splitBracket hsplit)
  · cases h
  · obtain ⟨⟨inner, after'⟩, hsplit, heq⟩ := Option.map_eq_some_iff.1 h
    obtain ⟨-, rfl⟩ := Prod.mk.inj heq
    exact Nat.lt_add_right 1 (length_splitBracket hsplit)
  · cases h

/-- The tokens of a pattern from one character on, given the character before it and the number
of characters before it. -/
def tokensFrom (place : Nat) (previous : Option Char) :
    List Char → Except PatternError (List PatternToken)
  | [] => .ok []
  | '?' :: rest => (tokensFrom (place + 1) (some '?') rest).map (.anyChar :: ·)
  | '*' :: '*' :: '*' :: _ => .error ⟨.wildcards, place + 2⟩
  | '*' :: '*' :: rest =>
    if previous.any (· ≠ '/') then .error ⟨.recursiveWildcards, place - 1⟩
    else
      match rest with
      | [] => .ok [.anyDirs]
      | '/' :: more => (tokensFrom (place + 3) (some '/') more).map (.anyDirs :: ·)
      | _ => .error ⟨.recursiveWildcards, place + 2⟩
  | '*' :: rest => (tokensFrom (place + 1) (some '*') rest).map (.anyChars :: ·)
  | '[' :: rest =>
    match h : bracketed rest with
    | some (token, after) =>
      (tokensFrom (place + 1 + rest.length - after.length) (some ']') after).map (token :: ·)
    | none => .error ⟨.invalidRange, place⟩
  | c :: rest => (tokensFrom (place + 1) (some c) rest).map (.char c :: ·)
termination_by chars => chars.length
decreasing_by all_goals first
  | exact Nat.lt_succ_of_lt (length_bracketed h)
  | (simp only [List.length_cons]; omega)

/-- The tokens of a pattern. -/
def tokens (text : String) : Except PatternError (List PatternToken) :=
  tokensFrom 0 none text.toList

/-- A list and all that is left of it after dropping some of its front. -/
def suffixes : List Char → List (List Char)
  | [] => [[]]
  | c :: rest => (c :: rest) :: suffixes rest

/-- Whether a name matches a pattern. -/
def matchesChars : List PatternToken → List Char → Bool
  | [], name => name.isEmpty
  | .anyChars :: tokens, name => (suffixes name).any (matchesChars tokens)
  | .anyDirs :: tokens, name => (suffixes name).any (matchesChars tokens)
  | .anyChar :: tokens, name =>
    match name with
    | [] => false
    | _ :: rest => matchesChars tokens rest
  | .char c :: tokens, name =>
    match name with
    | [] => false
    | d :: rest => c = d && matchesChars tokens rest
  | .oneOf ranges except :: tokens, name =>
    match name with
    | [] => false
    | d :: rest =>
      (ranges.any (fun (first, last) => first ≤ d && d ≤ last) != except)
        && matchesChars tokens rest

/-- What one piece of a pattern, between slashes, stands for. -/
inductive Piece where
  /-- A name as it is. -/
  | name (text : String)
  /-- Any directories, also none. -/
  | anyDirs
  | wildcard (tokens : List PatternToken)

/-- The characters of tokens that stand for themselves. -/
def plainChars : List PatternToken → Option (List Char)
  | [] => some []
  | .char c :: tokens => (plainChars tokens).map (c :: ·)
  | _ => none

/-- The piece that tokens form. -/
def pieceOf (tokens : List PatternToken) : Piece :=
  match plainChars tokens with
  | some chars => .name (String.ofList chars)
  | none => if tokens = [.anyDirs] then .anyDirs else .wildcard tokens

/-- Whether a name matches a piece. -/
def Piece.matchesName (piece : Piece) (found : String) : Bool :=
  match piece with
  | name text => text = found
  | anyDirs => false
  | wildcard tokens => matchesChars tokens found.toList

/-- Whether a piece was written with a point in front, so that it may also stand for the special
entries of a directory. -/
def Piece.startsWithPoint : Piece → Bool
  | wildcard (.char '.' :: _) => true
  | _ => false

/-- The pieces of a pattern: an absolute one loses its first slash, and a slash at the end leaves
no piece behind it. -/
def piecesOf (text : String) : Except PatternError (List Piece) := do
  let relative := if text.startsWith "/" then text.toList.drop 1 else text.toList
  let split := relative.splitOn '/'
  let split := if split.getLast? = some [] then split.dropLast else split
  split.mapM fun piece => do return pieceOf (← tokensFrom 0 none piece)

/-- A path found while expanding a pattern. -/
structure Found where
  path : String
  place : List String

/-- A path and a further name, with a slash between them. -/
def join (path name : String) : String :=
  if path.endsWith "/" then path ++ name else path ++ "/" ++ name

/-- Whether a path is a way of writing the working directory. -/
def isWorkingDir (path : String) : Bool :=
  match pathPieces path with
  | "." :: pieces => pieces.all fun piece => piece = "" || piece = "."
  | _ => false

/-- The path of a name in a directory; the names in the working directory stand alone. -/
def entryPath (directory : Found) (name : String) : String :=
  if isWorkingDir directory.path then name else join directory.path name

/-- An entry of a directory. -/
def entry (directory : Found) (name : String) : Found :=
  { path := entryPath directory name, place := directory.place ++ [name] }

mutual

/-- Everything below a node, sorted by name and every directory before its entries. -/
def below (directory : Found) : FileTree → List Found
  | .file _ => []
  | .dir entries => belowEntries directory entries
termination_by structural tree => tree

/-- The given entries of a directory and everything below them. -/
def belowEntries (directory : Found) : List (String × FileTree) → List Found
  | [] => []
  | (name, node) :: rest =>
    entry directory name :: below (entry directory name) node ++ belowEntries directory rest
termination_by structural entries => entries

end

/-- The node that was found. -/
def nodeAt (tree : FileTree) (found : Found) : FileTree :=
  (tree.find? found.place).getD .empty

/-- The name of what was found. -/
def lastName (found : Found) : String :=
  found.place.getLast?.getD ""

/-- The special entries that a piece matches, the outer directory before the directory itself. -/
def specialEntries (tree : FileTree) (directory : Found) (piece : Piece) : List Found :=
  if piece.startsWithPoint then
    ["..", "."].filterMap fun name =>
      if piece.matchesName name then
        match tree.step directory.place name with
        | .ok place => some { path := join directory.path name, place }
        | .error _ => none
      else none
  else []

/-- The path that a plain name leads to from a directory, if there is something. -/
def named (tree : FileTree) (directory : Found) (name : String) : List Found :=
  let path := entryPath directory name
  match tree.step directory.place name with
  | .ok place => if path.isEmpty then [] else [{ path, place }]
  | .error _ => []

/-- The paths below a directory that match the pieces of a pattern.  Rows of double stars count as
one; what ends in one stands for directories only. -/
def expand (tree : FileTree) (directoriesOnly : Bool) : List Piece → Found → List Found
  | [], found => if directoriesOnly && !tree.isDirAt found.place then [] else [found]
  | .name text :: pieces, found =>
    (named tree found text).flatMap (expand tree directoriesOnly pieces)
  | [.anyDirs], found =>
    (below found (nodeAt tree found)).filter fun inner => tree.isDirAt inner.place
  | .anyDirs :: .anyDirs :: pieces, found =>
    expand tree directoriesOnly (.anyDirs :: pieces) found
  | .anyDirs :: piece :: pieces, found =>
    ((below found (nodeAt tree found)).filter fun inner =>
      piece.matchesName (lastName inner)).flatMap (expand tree directoriesOnly pieces)
  | .wildcard tokens :: pieces, found =>
    let special := specialEntries tree found (.wildcard tokens)
    let entries := ((nodeAt tree found).entries.map fun (name, _) => entry found name).filter
      fun inner => matchesChars tokens (lastName inner).toList
    (special ++ entries).flatMap (expand tree directoriesOnly pieces)

/-- The paths that match a pattern, in order. -/
def paths (system : FileSystem) (text : String) : Except PatternError (List String) := do
  let _ ← tokens text
  let pieces ← piecesOf text
  let start : Found :=
    { path := if text.startsWith "/" then "/" else ".", place := system.start text }
  return (expand system.root (text.endsWith "/") pieces start).map Found.path

end Pattern

end EventSchema
