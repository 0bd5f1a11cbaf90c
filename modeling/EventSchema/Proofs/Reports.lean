import EventSchema.Command.Run
import EventSchema.Proofs.Attributes
import EventSchema.Proofs.Printing
import EventSchema.Proofs.Reading
import Mathlib.Data.List.Induction

/-!
# Reports on several files

The schema command reads each file on its own and prints one object of what the
files gave, by path.  The main statement says that the files do not see each
other: the object for two rows of files is that for the first, followed by what
the second adds, each path has the value that it has alone, and files that fail
are only counted.  What is printed is the text of the object and of no other
value.
-/

namespace EventSchema

namespace Entries

variable {α : Type} {entries : Entries α} {key other : String} {value : α}

/-! ## Setting a key -/

theorem get?_set (entries : Entries α) (key other : String) (value : α) :
    (set key value entries).get? other =
      if other = key then some value else entries.get? other := by
  induction entries with
  | nil => rw [set, get?_cons]
  | cons entry rest ih =>
      obtain ⟨k, v⟩ := entry
      rw [set]
      split
      next heq =>
        subst heq
        rw [get?_cons, get?_cons]
        split <;> rfl
      next hne =>
        rw [get?_cons, get?_cons, ih]
        split
        next heq => rw [if_neg (by rw [heq]; exact hne)]
        next => rfl

/-- Setting a key to the value that it has changes nothing. -/
theorem set_of_get? (h : entries.get? key = some value) : set key value entries = entries := by
  induction entries with
  | nil => cases h
  | cons entry rest ih =>
      obtain ⟨k, v⟩ := entry
      rw [get?_cons] at h
      rw [set]
      split
      next heq =>
        rw [if_pos heq.symm] at h
        cases h
        rw [heq]
      next hne =>
        rw [if_neg (Ne.symm hne)] at h
        rw [ih h]

theorem set_of_notMem (h : key ∉ entries.keys) :
    set key value entries = entries ++ [(key, value)] := by
  induction entries with
  | nil => rfl
  | cons entry rest ih =>
      rw [keys_cons, List.mem_cons, not_or] at h
      rw [set, if_neg (Ne.symm h.1), ih h.2, List.cons_append]

/-- What is kept does not depend on a key that is left out. -/
theorem filter_set_of_mem {left : List String} (h : key ∈ left) :
    (set key value entries).filter (fun entry => entry.1 ∉ left) =
      entries.filter fun entry => entry.1 ∉ left := by
  induction entries with
  | nil => simp [set, h]
  | cons entry rest ih =>
      obtain ⟨k, v⟩ := entry
      rw [set]
      split
      next heq => simp [heq, h]
      next => rw [List.filter_cons, ih, List.filter_cons]

/-- Under distinct keys, an entry is what is found under its key. -/
theorem mem_iff_get? (h : entries.keys.Nodup) :
    (key, value) ∈ entries ↔ entries.get? key = some value := by
  induction entries with
  | nil => simp
  | cons entry rest ih =>
      obtain ⟨k, v⟩ := entry
      rw [keys_cons, List.nodup_cons] at h
      rw [List.mem_cons, ih h.2, get?_cons]
      by_cases heq : key = k
      · subst heq
        have hnone : get? rest key = none := get?_eq_none_iff.mpr h.1
        simp [hnone, eq_comm]
      · simp [heq]

end Entries

/-! ## Reports -/

/-- The schemas of the file at a path as they are printed, if it has some. -/
def printedValue? (system : FileSystem) (settings : Settings) (path : String) : Option Json :=
  match schemasOfFile system settings path with
  | .ok schemas => some (.obj schemas)
  | .error _ => none

namespace Report

section Reports

variable {system : FileSystem} {settings : Settings} {paths : List String} {path : String}
  {value : Json}

theorem ofPaths_concat (system : FileSystem) (settings : Settings) (paths : List String)
    (path : String) :
    ofPaths system settings (paths ++ [path]) =
      (ofPaths system settings paths).add path (schemasOfFile system settings path) := by
  rw [ofPaths, List.foldl_append]
  rfl

theorem output_concat_of_some (h : printedValue? system settings path = some value) :
    (ofPaths system settings (paths ++ [path])).output =
      Entries.set path value (ofPaths system settings paths).output := by
  rw [ofPaths_concat]
  rw [printedValue?] at h
  cases hschemas : schemasOfFile system settings path with
  | error error =>
      rw [hschemas] at h
      cases h
  | ok schemas =>
      rw [hschemas] at h
      cases h
      rfl

theorem output_concat_of_none (h : printedValue? system settings path = none) :
    (ofPaths system settings (paths ++ [path])).output =
      (ofPaths system settings paths).output := by
  rw [ofPaths_concat]
  rw [printedValue?] at h
  cases hschemas : schemasOfFile system settings path with
  | error error => rfl
  | ok schemas =>
      rw [hschemas] at h
      cases h

theorem failures_concat (system : FileSystem) (settings : Settings) (paths : List String)
    (path : String) :
    (ofPaths system settings (paths ++ [path])).failures.length =
      (ofPaths system settings paths).failures.length +
        if (printedValue? system settings path).isNone then 1 else 0 := by
  rw [ofPaths_concat, printedValue?]
  cases schemasOfFile system settings path with
  | error error => exact List.length_append
  | ok schemas => rfl

/-- A path of a report has the schemas of its file. -/
theorem get?_output (system : FileSystem) (settings : Settings) (paths : List String)
    (path : String) :
    (ofPaths system settings paths).output.get? path =
      if path ∈ paths then printedValue? system settings path else none := by
  induction paths using List.reverseRecOn with
  | nil => rfl
  | append_singleton paths last ih =>
      cases hlast : printedValue? system settings last with
      | none =>
          rw [output_concat_of_none hlast, ih]
          by_cases heq : path = last
          · subst heq
            simp [hlast]
          · simp [heq]
      | some value =>
          rw [output_concat_of_some hlast, Entries.get?_set, ih]
          by_cases heq : path = last
          · subst heq
            simp [hlast]
          · simp [heq]

theorem nodup_keys_output (system : FileSystem) (settings : Settings) (paths : List String) :
    (ofPaths system settings paths).output.keys.Nodup := by
  induction paths using List.reverseRecOn with
  | nil => exact List.nodup_nil
  | append_singleton paths last ih =>
      cases hlast : printedValue? system settings last with
      | none =>
          rw [output_concat_of_none hlast]
          exact ih
      | some value =>
          rw [output_concat_of_some hlast]
          exact Entries.nodup_keys_set last value ih

theorem mem_output_iff :
    (path, value) ∈ (ofPaths system settings paths).output ↔
      path ∈ paths ∧ printedValue? system settings path = some value := by
  rw [Entries.mem_iff_get? (nodup_keys_output system settings paths), get?_output]
  split
  next hmem => simp [hmem]
  next hmem => simp [hmem]

/-- The paths of a report are those of files with schemas. -/
theorem mem_keys_output_iff :
    path ∈ (ofPaths system settings paths).output.keys ↔
      path ∈ paths ∧ (printedValue? system settings path).isSome := by
  rw [← not_iff_not, ← Entries.get?_eq_none_iff, get?_output]
  split
  next hmem => simp [hmem]
  next hmem => simp [hmem]

/-- A report on more files keeps what it has and appends the paths that are new. -/
theorem output_append (system : FileSystem) (settings : Settings) (first second : List String) :
    (ofPaths system settings (first ++ second)).output =
      (ofPaths system settings first).output ++ (ofPaths system settings second).output.filter
        fun entry => entry.1 ∉ (ofPaths system settings first).output.keys := by
  induction second using List.reverseRecOn with
  | nil => simp [ofPaths]
  | append_singleton second last ih =>
      rw [← List.append_assoc]
      cases hlast : printedValue? system settings last with
      | none => rw [output_concat_of_none hlast, output_concat_of_none hlast, ih]
      | some value =>
          rw [output_concat_of_some hlast, output_concat_of_some hlast]
          by_cases hmem : last ∈ first ++ second
          · -- The file was reported on, and setting its value again changes nothing.
            have hboth : (ofPaths system settings (first ++ second)).output.get? last =
                some value := by
              rw [get?_output, if_pos hmem, hlast]
            rw [Entries.set_of_get? hboth, ih]
            congr 1
            by_cases hfirst : last ∈ first
            · have hkey := mem_keys_output_iff.mpr ⟨hfirst, Option.isSome_of_eq_some hlast⟩
              exact (Entries.filter_set_of_mem hkey).symm
            · have hsecond : (ofPaths system settings second).output.get? last = some value := by
                rw [get?_output, if_pos ((List.mem_append.mp hmem).resolve_left hfirst), hlast]
              rw [Entries.set_of_get? hsecond]
          · obtain ⟨hfirst, hsecond⟩ : last ∉ first ∧ last ∉ second := by
              rwa [List.mem_append, not_or] at hmem
            have hnew : ∀ {paths : List String}, last ∉ paths →
                last ∉ (ofPaths system settings paths).output.keys := by
              intro paths hnot hkey
              exact hnot (mem_keys_output_iff.mp hkey).1
            rw [Entries.set_of_notMem (hnew hmem), Entries.set_of_notMem (hnew hsecond), ih,
              List.filter_append, List.append_assoc]
            congr 2
            simp [hnew hfirst]

/-- Files without schemas have no part in what is printed. -/
theorem output_filter (system : FileSystem) (settings : Settings) (paths : List String) :
    (ofPaths system settings (paths.filter fun path =>
        (printedValue? system settings path).isSome)).output =
      (ofPaths system settings paths).output := by
  induction paths using List.reverseRecOn with
  | nil => rfl
  | append_singleton paths last ih =>
      rw [List.filter_append]
      cases hlast : printedValue? system settings last with
      | none =>
          rw [output_concat_of_none hlast, ← ih]
          simp [hlast]
      | some value =>
          rw [output_concat_of_some hlast, ← ih, ← output_concat_of_some hlast]
          simp [hlast]

/-- Every file without schemas counts, and as often as its path is given. -/
theorem length_failures (system : FileSystem) (settings : Settings) (paths : List String) :
    (ofPaths system settings paths).failures.length =
      paths.countP fun path => (printedValue? system settings path).isNone := by
  induction paths using List.reverseRecOn with
  | nil => rfl
  | append_singleton paths last ih =>
      rw [failures_concat, ih, List.countP_append, List.countP_singleton]

end Reports

end Report

/-! ## Runs of the schema command -/

/-- The settings that the switches of the command stand for. -/
def switched (nullable plainStrings : Bool) : Settings where
  preferNonNull := !nullable
  nativeString := !plainStrings

/-- What comes of printing the schemas of files. -/
def printSchemas (nullable plainStrings : Bool) (system : FileSystem) (paths : List String) :
    Outcome :=
  (Command.schema { inputs := paths, nullable, plainStrings }).run system

/-- The object that is printed for files: their schemas, by path. -/
def printedSchemas (nullable plainStrings : Bool) (system : FileSystem) (paths : List String) :
    Entries Json :=
  (Report.ofPaths system (switched nullable plainStrings) paths).output

/-- The failure of a run in which this many files failed. -/
def failureOf (count : Nat) : Option String :=
  if count = 0 then none else some (toString count ++ " declaration file(s) failed")

section Runs

variable {nullable plainStrings : Bool} {system : FileSystem} {paths xs ys : List String}
  {path : String}

/-- Inputs that are no patterns are the paths. -/
theorem pathsOfInputs_literal (h : ∀ path ∈ paths, Pattern.isPattern path = false) :
    pathsOfInputs system paths = .ok paths := by
  have hpaths : paths.mapM (pathsOfInput system) = .ok (paths.map fun path => [path]) := by
    induction paths with
    | nil => rfl
    | cons path rest ih =>
        obtain ⟨hpath, hrest⟩ := List.forall_mem_cons.mp h
        have hinput : pathsOfInput system path = .ok [path] := by
          rw [pathsOfInput, hpath]
          rfl
        rw [List.mapM_cons, hinput, ih hrest]
        rfl
  rw [pathsOfInputs, hpaths]
  change Except.ok (paths.map fun path => [path]).flatten = _
  rw [← List.flatMap_def]
  simp

theorem printSchemas_literal (h : ∀ path ∈ paths, Pattern.isPattern path = false) :
    printSchemas nullable plainStrings system paths =
      (Report.ofPaths system (switched nullable plainStrings) paths).deliver system none := by
  rw [printSchemas, Command.run, SchemaRequest.run, if_neg Bool.false_ne_true,
    pathsOfInputs_literal h]
  rfl

theorem stdout_printSchemas (h : ∀ path ∈ paths, Pattern.isPattern path = false) :
    (printSchemas nullable plainStrings system paths).stdout =
      Json.indented 0 (.obj (printedSchemas nullable plainStrings system paths)) ++ "\n" := by
  rw [printSchemas_literal h]
  rfl

/-- What is printed is the text of the schemas by path, and of no other value. -/
theorem stdout_printSchemas_iff (h : ∀ path ∈ paths, Pattern.isPattern path = false) {json : Json} :
    (printSchemas nullable plainStrings system paths).stdout = json.indented 0 ++ "\n" ↔
      json = .obj (printedSchemas nullable plainStrings system paths) := by
  rw [stdout_printSchemas h, String.append_left_inj]
  constructor
  · intro htext
    exact (Json.eq_of_indented htext).symm
  · rintro rfl
    rfl

theorem isSome_failureOf (count : Nat) : (failureOf count).isSome = decide (0 < count) := by
  rw [failureOf]
  split
  next hzero => simp [hzero]
  next hne => simp [Nat.pos_of_ne_zero hne]

theorem failure_printSchemas (h : ∀ path ∈ paths, Pattern.isPattern path = false) :
    (printSchemas nullable plainStrings system paths).failure =
      failureOf (paths.countP fun path =>
        (printedValue? system (switched nullable plainStrings) path).isNone) := by
  rw [printSchemas_literal h, ← Report.length_failures, failureOf]
  simp [Report.deliver, Report.failure]

/-- A file fails alone exactly if it has no schemas. -/
theorem isSome_failure_printSchemas (h : Pattern.isPattern path = false) :
    (printSchemas nullable plainStrings system [path]).failure.isSome =
      (printedValue? system (switched nullable plainStrings) path).isNone := by
  rw [failure_printSchemas (List.forall_mem_singleton.mpr h), isSome_failureOf,
    List.countP_singleton]
  cases (printedValue? system (switched nullable plainStrings) path).isNone <;> rfl

theorem printedSchemas_singleton (nullable plainStrings : Bool) (system : FileSystem)
    (path : String) :
    printedSchemas nullable plainStrings system [path] =
      ((printedValue? system (switched nullable plainStrings) path).map (path, ·)).toList := by
  have hconcat : [path] = [] ++ [path] := rfl
  rw [printedSchemas, hconcat]
  cases hvalue : printedValue? system (switched nullable plainStrings) path with
  | none =>
      rw [Report.output_concat_of_none hvalue]
      rfl
  | some value =>
      rw [Report.output_concat_of_some hvalue]
      rfl

/-- A file fails alone exactly if nothing is printed for it. -/
theorem isSome_failure_iff (h : Pattern.isPattern path = false) :
    (printSchemas nullable plainStrings system [path]).failure.isSome ↔
      printedSchemas nullable plainStrings system [path] = [] := by
  rw [isSome_failure_printSchemas h, printedSchemas_singleton]
  cases printedValue? system (switched nullable plainStrings) path <;> simp

/-- What is printed for a file among others is what is printed for it alone. -/
theorem mem_printedSchemas_iff {value : Json} :
    (path, value) ∈ printedSchemas nullable plainStrings system paths ↔
      path ∈ paths ∧ printedSchemas nullable plainStrings system [path] = [(path, value)] := by
  rw [printedSchemas, Report.mem_output_iff, printedSchemas_singleton]
  cases printedValue? system (switched nullable plainStrings) path <;> simp

/-- A run counts the files that fail alone. -/
theorem failure_eq_failureOf (h : ∀ path ∈ paths, Pattern.isPattern path = false) :
    (printSchemas nullable plainStrings system paths).failure =
      failureOf (paths.countP fun path =>
        (printSchemas nullable plainStrings system [path]).failure.isSome) := by
  rw [failure_printSchemas h]
  congr 1
  apply List.countP_congr
  intro path hmem
  rw [isSome_failure_printSchemas (h path hmem)]

/-- Files that fail alone change nothing that is printed. -/
theorem stdout_filter (h : ∀ path ∈ paths, Pattern.isPattern path = false) :
    (printSchemas nullable plainStrings system (paths.filter fun path =>
        !(printSchemas nullable plainStrings system [path]).failure.isSome)).stdout =
      (printSchemas nullable plainStrings system paths).stdout := by
  have hfilter : (paths.filter fun path =>
        !(printSchemas nullable plainStrings system [path]).failure.isSome) =
      paths.filter fun path =>
        (printedValue? system (switched nullable plainStrings) path).isSome := by
    apply List.filter_congr
    intro path hmem
    rw [isSome_failure_printSchemas (h path hmem), Option.not_isNone]
  have hliteral : ∀ path ∈ paths.filter fun path =>
      (printedValue? system (switched nullable plainStrings) path).isSome,
      Pattern.isPattern path = false := by
    intro path hmem
    exact h path (List.mem_of_mem_filter hmem)
  rw [hfilter, stdout_printSchemas hliteral, stdout_printSchemas h, printedSchemas,
    Report.output_filter, printedSchemas]

/-- Files given by literal paths do not see each other.  Each run prints the text of one object, and
of nothing else, and the object for two rows of paths is that for the first, followed by what the
second has under further paths.  A path has the value there that it has alone, and it has one
unless its file fails alone; leaving the failing files out changes nothing that is printed.  The run
fails if one of its parts does, and counts the files of both that fail, each as often as it is
given. -/
theorem printSchemas_append (nullable plainStrings : Bool) (system : FileSystem)
    (hxs : ∀ path ∈ xs, Pattern.isPattern path = false)
    (hys : ∀ path ∈ ys, Pattern.isPattern path = false) :
    let run := printSchemas nullable plainStrings system
    let printed := printedSchemas nullable plainStrings system
    let prints := fun paths json => (run paths).stdout = Json.indented 0 json ++ "\n"
    let failing := fun path => (run [path]).failure.isSome
    (∀ paths ∈ [xs, ys, xs ++ ys], ∀ json, prints paths json ↔ json = .obj (printed paths)) ∧
    printed (xs ++ ys) =
      printed xs ++ (printed ys).filter (fun entry => entry.1 ∉ (printed xs).keys) ∧
    (∀ path ∈ xs ++ ys, (∀ json, prints [path] json ↔ json = .obj (printed [path])) ∧
      (failing path ↔ printed [path] = [])) ∧
    (∀ path value, (path, value) ∈ printed (xs ++ ys) ↔
      path ∈ xs ++ ys ∧ printed [path] = [(path, value)]) ∧
    (run ((xs ++ ys).filter fun path => !failing path)).stdout = (run (xs ++ ys)).stdout ∧
    ((run (xs ++ ys)).failure.isSome ↔ (run xs).failure.isSome ∨ (run ys).failure.isSome) ∧
    (run xs).failure = failureOf (xs.countP failing) ∧
    (run ys).failure = failureOf (ys.countP failing) ∧
    (run (xs ++ ys)).failure = failureOf (xs.countP failing + ys.countP failing) := by
  intro run printed prints failing
  have hboth : ∀ path ∈ xs ++ ys, Pattern.isPattern path = false := by
    intro path hmem
    rcases List.mem_append.mp hmem with hmem | hmem
    · exact hxs path hmem
    · exact hys path hmem
  have hfirst : (run xs).failure = failureOf (xs.countP failing) := failure_eq_failureOf hxs
  have hsecond : (run ys).failure = failureOf (ys.countP failing) := failure_eq_failureOf hys
  have hsum : (run (xs ++ ys)).failure = failureOf (xs.countP failing + ys.countP failing) := by
    rw [← List.countP_append]
    exact failure_eq_failureOf hboth
  refine ⟨?_, Report.output_append system _ xs ys, ?_, ?_, ?_, ?_, hfirst, hsecond, hsum⟩
  · intro paths hmem
    simp only [List.mem_cons, List.not_mem_nil, or_false] at hmem
    rcases hmem with rfl | rfl | rfl
    · exact fun _ => stdout_printSchemas_iff hxs
    · exact fun _ => stdout_printSchemas_iff hys
    · exact fun _ => stdout_printSchemas_iff hboth
  · intro path hmem
    have hpath := hboth path hmem
    exact ⟨fun _ => stdout_printSchemas_iff (List.forall_mem_singleton.mpr hpath),
      isSome_failure_iff hpath⟩
  · intro path value
    exact mem_printedSchemas_iff
  · exact stdout_filter hboth
  · rw [hfirst, hsecond, hsum]
    simp only [isSome_failureOf, decide_eq_true_eq]
    omega

end Runs

/-- A document that declares one type. -/
def bareText : String :=
  "\x7b\"types\":[\x7b\"name\":\"A\",\"properties\":[]\x7d]\x7d"

/-- A file with the document and one with something else. -/
def mixedSystem : FileSystem where
  root := .dir [("a.json", .file bareText.toUTF8), ("c.json", .file "[".toUTF8)]
  workingDir := []

/-- What is printed for the document. -/
def bareJson : Json :=
  .obj [("A", .obj [("type", .str "record"), ("name", .str "A"), ("fields", .arr [])])]

/-- The text of the object that is printed for the two files. -/
def mixedText : String :=
  "\x7b\n  \"a.json\": \x7b\n    \"A\": \x7b\n      \"type\": \"record\",\n" ++
    "      \"name\": \"A\",\n      \"fields\": []\n    \x7d\n  \x7d\n\x7d\n"

/-- A file that is given twice is printed once, and one that fails twice counts twice. -/
theorem printSchemas_append_mixedSystem :
    let run := printSchemas true true mixedSystem (["a.json", "c.json"] ++ ["c.json", "a.json"])
    run.stdout = mixedText ∧ run.failure = some "2 declaration file(s) failed" ∧
      ("a.json", bareJson) ∈
        printedSchemas true true mixedSystem (["a.json", "c.json"] ++ ["c.json", "a.json"]) := by
  intro run
  obtain ⟨hprints, -, -, hvalues, -, -, -, -, hfailure⟩ :=
    @printSchemas_append ["a.json", "c.json"] ["c.json", "a.json"] true true mixedSystem
      (by decide) (by decide)
  refine ⟨?_, ?_, ?_⟩
  · have hstdout := (hprints (["a.json", "c.json"] ++ ["c.json", "a.json"]) (by decide)
      (.obj [("a.json", bareJson)])).mpr (by decide +kernel)
    exact hstdout.trans (by decide +kernel)
  · exact hfailure.trans (by decide +kernel)
  · exact (hvalues _ _).mpr (by decide +kernel)

end EventSchema
