import EventSchema.Schema.Basic
import Mathlib.Data.List.Basic

/-!
# Splitting and joining names

A dotted name is the namespace before its last point, the point and an undotted
last segment; every other name is its own last segment.  This module relates
`splitLast`, `full` and `isValid` through that decomposition.
-/

namespace EventSchema

namespace Name

/-- The last segment of a name. -/
def last (name : String) : String :=
  match splitLast name with
  | some (_, last) => last
  | none => name

/-! ## Points in names -/

theorem isDotted_iff {name : String} : isDotted name = true ↔ '.' ∈ name.toList := by
  simp [isDotted]

theorem isDotted_eq_false_iff {name : String} :
    isDotted name = false ↔ '.' ∉ name.toList := by
  simp [isDotted]

theorem isDotted_join (space last : String) : isDotted (space ++ "." ++ last) = true := by
  simp [isDotted_iff]

theorem splitLastChars_eq_none_iff {cs : List Char} :
    splitLastChars cs = none ↔ '.' ∉ cs := by
  induction cs with
  | nil => simp [splitLastChars]
  | cons c rest ih =>
      rw [splitLastChars]
      split
      next before after hrest =>
        have hmem : '.' ∈ rest := by
          by_contra hnot
          rw [ih.mpr hnot] at hrest
          cases hrest
        simp [hmem]
      next hrest =>
        by_cases hc : c = '.'
        · simp [hc]
        · simp [hc, ih.mp hrest, Ne.symm hc]

theorem splitLastChars_join {before after : List Char} (hafter : '.' ∉ after) :
    splitLastChars (before ++ '.' :: after) = some (before, after) := by
  induction before with
  | nil => simp [splitLastChars, splitLastChars_eq_none_iff.mpr hafter]
  | cons c before ih => simp [splitLastChars, ih]

theorem splitLastChars_eq_some {cs before after : List Char}
    (h : splitLastChars cs = some (before, after)) :
    cs = before ++ '.' :: after ∧ '.' ∉ after := by
  induction cs generalizing before with
  | nil => cases h
  | cons c rest ih =>
      rw [splitLastChars] at h
      split at h
      next start last hrest =>
        cases h
        obtain ⟨rfl, hafter⟩ := ih hrest
        exact ⟨rfl, hafter⟩
      next hrest =>
        split at h
        next hc =>
          cases h
          exact ⟨by simp [hc], splitLastChars_eq_none_iff.mp hrest⟩
        next => cases h

theorem splitLast_eq_none_iff {name : String} :
    splitLast name = none ↔ isDotted name = false := by
  rw [splitLast, Option.map_eq_none_iff, splitLastChars_eq_none_iff, isDotted_eq_false_iff]

theorem splitLast_join {space last : String} (hlast : isDotted last = false) :
    splitLast (space ++ "." ++ last) = some (space, last) := by
  have hpoint : (space ++ "." ++ last).toList = space.toList ++ '.' :: last.toList := by simp
  rw [splitLast, hpoint, splitLastChars_join (isDotted_eq_false_iff.mp hlast)]
  simp

theorem splitLast_eq_some_iff {name space last : String} :
    splitLast name = some (space, last) ↔
      name = space ++ "." ++ last ∧ isDotted last = false := by
  constructor
  · intro h
    obtain ⟨⟨before, after⟩, hchars, hparts⟩ := Option.map_eq_some_iff.mp h
    cases hparts
    obtain ⟨hname, hafter⟩ := splitLastChars_eq_some hchars
    refine ⟨?_, by simpa [isDotted_eq_false_iff] using hafter⟩
    rw [← String.toList_inj, hname]
    simp
  · rintro ⟨rfl, hlast⟩
    exact splitLast_join hlast

theorem last_of_undotted {name : String} (h : isDotted name = false) : last name = name := by
  rw [last, splitLast_eq_none_iff.mpr h]

theorem last_join {space name : String} (h : isDotted name = false) :
    last (space ++ "." ++ name) = name := by
  rw [last, splitLast_join h]

/-! ## Full names -/

theorem full_of_dotted {name : String} (h : isDotted name = true) (space : Option String) :
    full name space = name := by
  cases space <;> simp [full, h]

theorem full_join {name space : String} (hname : isDotted name = false) (hspace : space ≠ "") :
    full name (some space) = space ++ "." ++ name := by
  simp [full, hname, hspace]

/-- A full name is the name itself, or a nonempty namespace in front of an undotted name. -/
theorem full_cases (name : String) (space : Option String) :
    full name space = name ∨
      ∃ own, space = some own ∧ own ≠ "" ∧ isDotted name = false ∧
        full name space = own ++ "." ++ name := by
  cases space with
  | none => exact .inl rfl
  | some own =>
      by_cases hdotted : isDotted name = true
      · exact .inl (full_of_dotted hdotted _)
      · by_cases hempty : own = ""
        · exact .inl (by simp [full, hempty])
        · have hname : isDotted name = false := by simpa using hdotted
          exact .inr ⟨own, rfl, hempty, hname, full_join hname hempty⟩

theorem last_full {name : String} (hname : isDotted name = false) (space : Option String) :
    last (full name space) = name := by
  rcases full_cases name space with heq | ⟨own, -, -, -, heq⟩
  · rw [heq, last_of_undotted hname]
  · rw [heq, last_join hname]

theorem full_ne_empty {name : String} (hname : name ≠ "") (space : Option String) :
    full name space ≠ "" := by
  rcases full_cases name space with heq | ⟨own, -, -, -, heq⟩
  · rw [heq]
    exact hname
  · intro hempty
    have hdotted := isDotted_join own name
    rw [← heq, hempty] at hdotted
    exact absurd hdotted (by decide)

/-! ## Legal names -/

theorem pieces_ne_nil (cs : List Char) : pieces cs ≠ [] := by
  induction cs with
  | nil => simp [pieces]
  | cons c rest ih =>
      rw [pieces]
      split
      · simp
      · split <;> simp

theorem pieces_join (before after : List Char) :
    pieces (before ++ '.' :: after) = pieces before ++ pieces after := by
  induction before with
  | nil => simp [pieces]
  | cons c before ih =>
      by_cases hc : c = '.'
      · simp [pieces, hc, ih]
      · obtain ⟨piece, others, hpieces⟩ := List.exists_cons_of_ne_nil (pieces_ne_nil before)
        simp [pieces, hc, ih, hpieces]

theorem pieces_of_undotted {cs : List Char} (h : '.' ∉ cs) : pieces cs = [cs] := by
  induction cs with
  | nil => rfl
  | cons c rest ih =>
      rw [List.mem_cons, not_or] at h
      simp [pieces, ih h.2, Ne.symm h.1]

theorem isDotted_of_isSegment {name : String} (h : isSegment name = true) :
    isDotted name = false := by
  rw [isDotted_eq_false_iff]
  intro hmem
  rw [isSegment] at h
  cases hchars : name.toList with
  | nil => simp [hchars] at hmem
  | cons c rest =>
      simp only [hchars, isSegmentChars, Bool.and_eq_true, List.all_eq_true] at h
      rw [hchars, List.mem_cons] at hmem
      rcases hmem with hc | hrest
      · exact absurd h.1 (by rw [← hc]; decide)
      · exact absurd (h.2 _ hrest) (by decide)

theorem isValid_of_isSegment {name : String} (h : isSegment name = true) :
    isValid name = true := by
  have hundotted := isDotted_eq_false_iff.mp (isDotted_of_isSegment h)
  rw [isSegment] at h
  rw [isValid, pieces_of_undotted hundotted, List.all_cons, h, List.all_nil, Bool.and_self]

theorem ne_empty_of_isValid {name : String} (h : isValid name = true) : name ≠ "" := by
  rintro rfl
  exact absurd h (by decide)

/-- Both parts of a valid dotted name are valid. -/
theorem isValid_of_splitLast {name space last : String} (h : isValid name = true)
    (hsplit : splitLast name = some (space, last)) :
    isValid space = true ∧ isValid last = true := by
  obtain ⟨rfl, -⟩ := splitLast_eq_some_iff.mp hsplit
  have hpoint : (space ++ "." ++ last).toList = space.toList ++ '.' :: last.toList := by simp
  rw [isValid, hpoint, pieces_join, List.all_append, Bool.and_eq_true] at h
  exact h

end Name

namespace PrimitiveKind

theorem eq_name_of_ofName? {name : String} {kind : PrimitiveKind}
    (h : ofName? name = some kind) : name = kind.name := by
  have hfound := List.find?_some h
  simpa using (decide_eq_true_eq.mp hfound).symm

@[simp] theorem ofName?_name (kind : PrimitiveKind) : ofName? kind.name = some kind := by
  cases kind <;> decide

/-- No primitive type has a dotted name. -/
theorem ofName?_of_dotted {name : String} (h : Name.isDotted name = true) :
    ofName? name = none := by
  cases hkind : ofName? name with
  | none => rfl
  | some kind =>
      have hundotted : Name.isDotted kind.name = false := by cases kind <;> decide
      rw [eq_name_of_ofName? hkind, hundotted] at h
      cases h

/-- A name whose last segment is no primitive's is no primitive's. -/
theorem ofName?_of_last {name : String} (h : ofName? (Name.last name) = none) :
    ofName? name = none := by
  by_cases hdotted : Name.isDotted name = true
  · exact ofName?_of_dotted hdotted
  · rwa [Name.last_of_undotted (by simpa using hdotted)] at h

end PrimitiveKind

end EventSchema
