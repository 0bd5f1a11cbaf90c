import EventSchema.Declaration
import EventSchema.Json.Form

/-!
# Reading declaration documents

The JSON forms of settings, notes, property types and declared types.  A
document is read from the front of a text; what follows it is not looked at.
-/

namespace EventSchema

namespace Settings

/-- The form of settings.  Both flags are required, and unknown keys are passed over. -/
def form : Reader.Form Settings where
  title := "SchemaSettings"
  slots :=
    [⟨"prefer_non_null", true, fun _ settings => do
        return { settings with preferNonNull := ← Reader.flag }⟩,
      ⟨"native_string", true, fun _ settings => do
        return { settings with nativeString := ← Reader.flag }⟩]
  closed := false
  initial := {}

end Settings

/-! ## Notes -/

/-- The kinds of notes. -/
inductive NoteKind where
  | schemaOverride
  | description
  deriving DecidableEq

namespace NoteKind

/-- The word for a kind. -/
def word : NoteKind → String
  | schemaOverride => "schema_override"
  | description => "description"

/-- The kind of a word. -/
def ofWord? (word : String) : Option NoteKind :=
  [schemaOverride, description].find? fun kind => kind.word = word

/-- The title that a kind has in messages. -/
def title : NoteKind → String
  | schemaOverride => "Annotation::SchemaOverride"
  | description => "Annotation::Description"

/-- The texts that a note of the kind holds, by key. -/
def keys : NoteKind → List String
  | schemaOverride => ["name", "schema"]
  | description => ["text"]

/-- The note that holds the given texts. -/
def note (kind : NoteKind) (texts : Entries String) : Note :=
  let text (key : String) := (texts.get? key).getD ""
  match kind with
  | schemaOverride => .schemaOverride (text "name") (text "schema")
  | description => .description (text "text")

/-- The text that a value is. -/
def textOfJson : Json → Except Mismatch String
  | .str text => .ok text
  | other => .error (.invalidType other.describe "a string")

/-- A count of elements in words. -/
def elementCount (count : Nat) : String :=
  toString count ++ (if count = 1 then " element" else " elements")

/-- The note whose members, beside its kind, are the given ones; members of other keys do
not count. -/
def ofMembers (kind : NoteKind) (found : Entries String) :
    List (String × Json) → Except Mismatch Note
  | [] =>
    match kind.keys.find? fun key => key ∉ found.keys with
    | some key => .error (.missingField key)
    | none => .ok (kind.note found)
  | (key, value) :: rest =>
    if key ∉ kind.keys then kind.ofMembers found rest
    else if key ∈ found.keys then .error (.duplicateField key)
    else do kind.ofMembers (found ++ [(key, ← textOfJson value)]) rest

/-- The note whose elements, after its kind, are the given ones. -/
def ofElements (kind : NoteKind) (found : Entries String) :
    List String → List Json → Except Mismatch Note
  | [], [] => .ok (kind.note found)
  | [], extra =>
    .error (.invalidLength (kind.keys.length + extra.length)
      (elementCount kind.keys.length ++ " in sequence"))
  | _ :: _, [] =>
    .error (.invalidLength found.length
      ("struct variant " ++ kind.title ++ " with " ++ elementCount kind.keys.length))
  | key :: keys, value :: rest => do
    kind.ofElements (found ++ [(key, ← textOfJson value)]) keys rest

/-- The kind of a note as it is written. -/
def reader : Reader NoteKind := do
  let word ← Reader.text "variant identifier"
  match ofWord? word with
  | some kind => pure kind
  | none =>
    Reader.mismatch (.unknownVariant word [schemaOverride.word, description.word])

end NoteKind

namespace Note

/-- The key of the kind in the object form. -/
def kindKey : String := "kind"

/-- Ends a note: what it holds is looked at only now, and what does not fit is noticed
after the whole note. -/
def ofContent (kind : Option NoteKind)
    (content : NoteKind → Except Mismatch Note) : Reader Note :=
  match kind with
  | none => Reader.mismatch (.missingField kindKey)
  | some kind =>
    match content kind with
    | .ok note => pure note
    | .error error => Reader.fail fun rest => ⟨.mismatch error, .afterValue rest, []⟩

/-- Reads what follows a key: the kind, which may be given once, or any value. -/
def member (depth : Nat) (kind : Option NoteKind) (content : List (String × Json))
    (name : String) : Reader (Option NoteKind × List (String × Json)) :=
  if name = kindKey then
    if kind.isSome then Reader.mismatch (.duplicateField kindKey)
    else do
      Reader.colon
      let kind ← Reader.within (.key name) NoteKind.reader
      return (some kind, content)
  else do
    Reader.colon
    let value ← Reader.within (.key name) (Reader.value depth)
    return (kind, content ++ [(name, value)])

/-- The members of the object form from the key of one of them on, and the closing brace. -/
def members (depth : Nat) (kind : Option NoteKind) (content : List (String × Json))
    (s : List Char) : Except Fault (Taken s Note) :=
  match Reader.key s with
  | .error fault => .error (fault.within .unknown)
  | .ok name =>
    match member depth kind content name.value name.rest with
    | .error fault => .error fault
    | .ok item =>
      match Reader.nextMember item.rest with
      | .error fault => .error (fault.within .unknown)
      | .ok ⟨false, rest, h⟩ =>
        (ofContent item.value.1 (fun kind => kind.ofMembers [] item.value.2) rest).map
          (Taken.widen (by have := name.rest_le; have := item.rest_le; omega))
      | .ok ⟨true, rest, h⟩ =>
        (members depth item.value.1 item.value.2 rest).map
          (Taken.widen (by have := name.rest_le; have := item.rest_le; omega))
termination_by s.length
decreasing_by have := name.rest_le; have := item.rest_le; omega

/-- The elements of the array form, the kind first. -/
def elements (depth : Nat) : Reader Note := do
  if ← Reader.firstItem then
    let kind ← Reader.within (.index 0) NoteKind.reader
    let content ←
      if ← Reader.Form.anotherElement 1 then Reader.items depth 1 else pure []
    ofContent (some kind) fun kind => kind.ofElements [] kind.keys content
  else Reader.mismatch (.missingField kindKey)

/-- A note: an object with its kind among the members, or an array with its kind first. -/
def reader (depth : Nat) : Reader Note := do
  match ← Reader.peekPastBlanks with
  | some '[' => Reader.descend depth elements
  | some '\x7b' =>
    Reader.descend depth fun depth => do
      if ← Reader.within .unknown Reader.firstMember then members depth none []
      else Reader.mismatch (.missingField kindKey)
  | _ => Reader.wrongForm "internally tagged enum Annotation"

end Note

/-! ## Declared types -/

namespace TypeSpec

mutual

/-- The written type that a value is: a text, or an object of written types and nulls. -/
def ofJson? : Json → Option TypeSpec
  | .str text => some (string text)
  | .obj members => (ofMembers? members).map fun specs => nested (Entries.ofList specs)
  | _ => none
termination_by structural json => json

/-- The written types of nested properties. -/
def ofMembers? : List (String × Json) → Option (List (String × Option TypeSpec))
  | [] => some []
  | (name, .null) :: rest => (ofMembers? rest).map ((name, none) :: ·)
  | (name, value) :: rest =>
    match ofJson? value with
    | none => none
    | some spec => (ofMembers? rest).map ((name, some spec) :: ·)
termination_by structural members => members

end

/-- A written type.  What does not fit is noticed after the whole value. -/
def reader (depth : Nat) : Reader TypeSpec := do
  let value ← Reader.value depth
  match ofJson? value with
  | some spec => pure spec
  | none =>
    Reader.fail fun rest => ⟨.mismatch (.noVariant "TypeSpec"), .afterValue rest, []⟩

end TypeSpec

/-- The form of a property. -/
def PropertyDecl.form : Reader.Form PropertyDecl where
  title := "PropertyDecl"
  slots :=
    [⟨"name", true, fun _ decl => do return { decl with name := ← Reader.text "a string" }⟩,
      ⟨"type", false, fun depth decl => do
        return { decl with type := ← Reader.optional (TypeSpec.reader depth) }⟩]
  closed := true
  initial := { name := "" }

/-- The form of a declared type. -/
def TypeDecl.form : Reader.Form TypeDecl where
  title := "TypeDecl"
  slots :=
    [⟨"name", true, fun _ decl => do return { decl with name := ← Reader.text "a string" }⟩,
      ⟨"doc", false, fun _ decl => do
        return { decl with doc := ← Reader.optional (Reader.text "a string") }⟩,
      ⟨"properties", true, fun depth decl => do
        return { decl with properties := ← Reader.listOf PropertyDecl.form.reader depth }⟩,
      ⟨"annotations", false, fun depth decl => do
        return { decl with notes := ← Reader.listOf Note.reader depth }⟩]
  closed := true
  initial := { name := "", properties := [] }

/-- The form of a document. -/
def Declarations.form : Reader.Form Declarations where
  title := "Declarations"
  slots :=
    [⟨"namespace", false, fun _ document => do
        return { document with space := ← Reader.optional (Reader.text "a string") }⟩,
      ⟨"settings", false, fun depth document => do
        return { document with settings := ← Reader.optional (Settings.form.reader depth) }⟩,
      ⟨"types", true, fun depth document => do
        return { document with types := ← Reader.listOf TypeDecl.form.reader depth }⟩]
  closed := true
  initial := { types := [] }

/-! ## Whole texts -/

/-- The settings that a text denotes. -/
def Settings.parse (text : String) : Except TextError Settings :=
  Reader.whole (Settings.form.reader Reader.depthLimit) text

/-- The note that a text denotes. -/
def Note.parse (text : String) : Except TextError Note :=
  Reader.whole (Note.reader Reader.depthLimit) text

/-- The document at the front of a text. -/
def Declarations.parse (text : String) : Except TextError Declarations :=
  Reader.front (Declarations.form.reader Reader.depthLimit) text

/-- The wording of an error in a document, with the path to the value that was being read. -/
def documentMessage (error : TextError) : String :=
  "at JSON path " ++ pathText error.path ++ ": " ++ error.message

end EventSchema
