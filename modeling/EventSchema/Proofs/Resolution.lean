import EventSchema.Proofs.Reading

/-!
# What a name denotes

A name is looked up among the full names defined so far, first qualified by the
namespace it stands in and then as it is written; names of primitive types come
before both.  The name that is written for a type is short inside the type's own
namespace.  The main statement says exactly when the written name denotes the
type again.
-/

namespace EventSchema

/-- Within a namespace, a name denotes the named type of this full name, given the full names
defined so far. -/
def Denotes (claimed : List String) (space : Option String) (name fullName : String) : Prop :=
  PrimitiveKind.ofName? name = none ∧ ({ claimed } : Scope).resolve? space name = some fullName

instance (claimed : List String) (space : Option String) (name fullName : String) :
    Decidable (Denotes claimed space name fullName) :=
  inferInstanceAs (Decidable (_ ∧ _))

/-- An undotted full name is hidden where the enclosing namespace has a type of the same last
segment. -/
def Hidden (claimed : List String) (space : Option String) (fullName : String) : Prop :=
  Name.full fullName space ≠ fullName ∧ Name.full fullName space ∈ claimed

instance (claimed : List String) (space : Option String) (fullName : String) :
    Decidable (Hidden claimed space fullName) :=
  inferInstanceAs (Decidable (_ ∧ _))

variable {claimed : List String} {space : Option String} {name fullName : String}

/-- A name denotes its qualified form if that is defined, and otherwise itself. -/
theorem denotes_iff :
    Denotes claimed space name fullName ↔
      PrimitiveKind.ofName? name = none ∧ fullName ∈ claimed ∧
        (fullName = Name.full name space ∨
          fullName = name ∧ Name.full name space ∉ claimed) := by
  refine and_congr_right fun _ => ?_
  rw [Scope.resolve?]
  split_ifs with hqualified hplain
  · rw [Option.some.injEq]
    constructor
    · rintro rfl
      exact ⟨hqualified, .inl rfl⟩
    · rintro ⟨-, heq | ⟨-, hnot⟩⟩
      · exact heq.symm
      · exact absurd hqualified hnot
  · rw [Option.some.injEq]
    constructor
    · rintro rfl
      exact ⟨hplain, .inr ⟨rfl, hqualified⟩⟩
    · rintro ⟨hmem, heq | ⟨heq, -⟩⟩
      · exact absurd (heq ▸ hmem) hqualified
      · exact heq.symm
  · simp only [false_iff, not_and, not_or]
    intro hmem
    constructor
    · rintro rfl
      exact hqualified hmem
    · rintro rfl
      exact absurd hmem hplain

theorem Denotes.mem (h : Denotes claimed space name fullName) : fullName ∈ claimed :=
  (denotes_iff.mp h).2.1

theorem Denotes.unique {other : String} (h : Denotes claimed space name fullName)
    (hother : Denotes claimed space name other) : fullName = other :=
  Option.some.inj (h.2.symm.trans hother.2)

/-- A type that a name denotes is not hidden there. -/
theorem Denotes.not_hidden (h : Denotes claimed space name fullName) :
    ¬ Hidden claimed space fullName := by
  rintro ⟨hne, hmem⟩
  obtain ⟨-, -, heq | ⟨rfl, hnot⟩⟩ := denotes_iff.mp h
  · rcases Name.full_cases name space with hplain | ⟨own, -, -, -, hjoin⟩
    · exact hne (by rw [heq, hplain, hplain])
    · exact hne (Name.full_of_dotted (by rw [heq, hjoin, Name.isDotted_join]) _)
  · exact hnot hmem

/-! ## The name written for a type -/

/-- The name written for a type within a namespace. -/
def referenceText (space : Option String) (fullName : String) : String :=
  match Name.splitLast fullName with
  | some (own, last) => if space = some own then last else fullName
  | none => fullName

theorem reference_eq (space : Option String) (fullName : String) :
    Schema.reference space fullName = .str (referenceText space fullName) := by
  rw [Schema.reference, referenceText]
  cases Name.splitLast fullName with
  | none => rfl
  | some parts => by_cases hspace : space = some parts.1 <;> simp [hspace]

/-- The written name is short in the type's own namespace and the full name elsewhere. -/
theorem referenceText_cases (space : Option String) (fullName : String) :
    (∃ own last, space = some own ∧ fullName = own ++ "." ++ last ∧
        Name.isDotted last = false ∧ referenceText space fullName = last) ∨
      referenceText space fullName = fullName := by
  rw [referenceText]
  split
  next own last hsplit =>
    split_ifs with hspace
    · obtain ⟨hname, hlast⟩ := Name.splitLast_eq_some_iff.mp hsplit
      exact .inl ⟨own, last, hspace, hname, hlast, rfl⟩
    · exact .inr rfl
  next => exact .inr rfl

/-- The name written for a type denotes it exactly if the type is defined, the name is no
primitive's, and the type is not hidden. -/
theorem denotes_referenceText_iff (hspace : space ≠ some "") :
    Denotes claimed space (referenceText space fullName) fullName ↔
      fullName ∈ claimed ∧ PrimitiveKind.ofName? (referenceText space fullName) = none ∧
        ¬ Hidden claimed space fullName := by
  constructor
  · intro h
    exact ⟨h.mem, h.1, h.not_hidden⟩
  · rintro ⟨hmem, hkind, hhidden⟩
    refine denotes_iff.mpr ⟨hkind, hmem, ?_⟩
    rcases referenceText_cases space fullName with ⟨own, last, rfl, rfl, hlast, htext⟩ | htext
    · left
      have hown : own ≠ "" := by
        rintro rfl
        exact hspace rfl
      rw [htext, Name.full_join hlast hown]
    · rw [htext]
      by_cases hfull : Name.full fullName space = fullName
      · exact .inl hfull.symm
      · right
        refine ⟨rfl, ?_⟩
        intro hqualified
        exact hhidden ⟨hfull, hqualified⟩

theorem ofName?_referenceText (h : PrimitiveKind.ofName? (Name.last fullName) = none) :
    PrimitiveKind.ofName? (referenceText space fullName) = none := by
  rcases referenceText_cases space fullName with ⟨own, last, -, rfl, hlast, htext⟩ | htext
  · rw [Name.last_join hlast] at h
    rw [htext, h]
  · rw [htext]
    exact PrimitiveKind.ofName?_of_last h

/-! ## Names in a scope -/

namespace Scope

/-- What a name of a claimed type stands for: its definition, or a reference while it is open. -/
def stored (scope : Scope) (fullName : String) : Schema :=
  (scope.finished.get? fullName).getD (.ref fullName)

theorem schemaOfName_of_denotes {scope : Scope}
    (h : Denotes scope.claimed space name fullName) :
    scope.schemaOfName space name = .ok (scope.stored fullName) := by
  have hresolve : scope.resolve? space name = some fullName := h.2
  rw [schemaOfName, h.1]
  dsimp only
  rw [hresolve]
  dsimp only
  rw [stored]
  cases scope.finished.get? fullName <;> rfl

theorem schemaOfName_name (scope : Scope) (space : Option String) (kind : PrimitiveKind) :
    scope.schemaOfName space kind.name = .ok (.ofKind kind) := by
  rw [schemaOfName, PrimitiveKind.ofName?_name]

/-- A name stands for a primitive type, or for the named type that it denotes. -/
theorem schemaOfName_eq_ok {scope : Scope} {schema : Schema}
    (h : scope.schemaOfName space name = .ok schema) :
    (∃ kind, name = PrimitiveKind.name kind ∧ schema = .ofKind kind) ∨
      ∃ fullName, Denotes scope.claimed space name fullName ∧
        schema = scope.stored fullName := by
  cases hkind : PrimitiveKind.ofName? name with
  | some kind =>
      left
      rw [schemaOfName, hkind] at h
      cases h
      exact ⟨kind, PrimitiveKind.eq_name_of_ofName? hkind, rfl⟩
  | none =>
      right
      cases hresolve : scope.resolve? space name with
      | none =>
          rw [schemaOfName, hkind, hresolve] at h
          cases h
      | some fullName =>
          have hdenotes : Denotes scope.claimed space name fullName := ⟨hkind, hresolve⟩
          rw [schemaOfName_of_denotes hdenotes] at h
          cases h
          exact ⟨fullName, hdenotes, rfl⟩

@[simp] theorem claimed_finish (scope : Scope) (fullName : String) (definition : Schema) :
    (scope.finish fullName definition).claimed = scope.claimed := rfl

theorem finished_finish (scope : Scope) (fullName : String) (definition : Schema) :
    (scope.finish fullName definition).finished = scope.finished ++ [(fullName, definition)] := rfl

theorem get?_finished_finish {scope : Scope} {fullName other : String}
    {definition found : Schema}
    (h : (scope.finish fullName definition).finished.get? other = some found) :
    scope.finished.get? other = some found ∨ other = fullName ∧ found = definition := by
  rw [finished_finish, Entries.get?_append] at h
  cases hearlier : scope.finished.get? other with
  | some earlier =>
      rw [hearlier, Option.some_or] at h
      exact .inl h
  | none =>
      rw [hearlier, Option.none_or, Entries.get?_cons] at h
      split at h
      next heq =>
        cases h
        exact .inr ⟨heq, rfl⟩
      next => cases h

theorem get?_finished_finish_of_ne {scope : Scope} {fullName other : String} {definition : Schema}
    (hne : other ≠ fullName) :
    (scope.finish fullName definition).finished.get? other = scope.finished.get? other := by
  rw [finished_finish, Entries.get?_append, Entries.get?_cons, if_neg hne, Entries.get?_nil,
    Option.or_none]

theorem get?_finished_finish_self {scope : Scope} {definition : Schema}
    (hopen : scope.finished.get? fullName = none) :
    (scope.finish fullName definition).finished.get? fullName = some definition := by
  rw [finished_finish, Entries.get?_append, hopen, Option.none_or, Entries.get?_cons, if_pos rfl]

theorem claim_eq_ok_iff {scope opened : Scope} :
    scope.claim fullName = .ok opened ↔
      PrimitiveKind.ofName? fullName = none ∧ fullName ∉ scope.claimed ∧
        opened = { scope with claimed := scope.claimed ++ [fullName] } := by
  rw [claim, ← Option.not_isSome_iff_eq_none]
  split_ifs with hrefused
  · simp only [false_iff]
    simp only [Bool.or_eq_true, decide_eq_true_eq] at hrefused
    tauto
  · simp only [Bool.or_eq_true, decide_eq_true_eq, not_or] at hrefused
    rw [Except.ok.injEq]
    constructor
    · rintro rfl
      exact ⟨hrefused.1, hrefused.2, rfl⟩
    · rintro ⟨-, -, rfl⟩
      rfl

theorem finished_of_claim {scope opened : Scope} (hclaim : scope.claim fullName = .ok opened) :
    opened.finished = scope.finished := by
  obtain ⟨-, -, rfl⟩ := claim_eq_ok_iff.mp hclaim
  rfl

/-- Claiming and finishing a type leaves the types claimed before as they are. -/
theorem get?_finished_finish_of_claim {scope opened : Scope} {other : String}
    {definition : Schema} (hclaim : scope.claim fullName = .ok opened)
    (hmem : other ∈ scope.claimed) :
    (opened.finish fullName definition).finished.get? other = scope.finished.get? other := by
  have hne := ne_of_mem_of_not_mem hmem (claim_eq_ok_iff.mp hclaim).2.1
  rw [get?_finished_finish_of_ne hne, finished_of_claim hclaim]

end Scope

end EventSchema
