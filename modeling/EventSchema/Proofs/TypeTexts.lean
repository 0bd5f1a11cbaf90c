import EventSchema.Proofs.TypeStrings

/-!
# Texts of types

The text of a type is the type string without the blanks around it, whichever
type the string denotes.  The main statement adds the way back: the text of a
class that type strings know, at any depth of arrays, is read as this class.
-/

namespace EventSchema

/-! ## Names of classes -/

namespace ClassType

variable {name : String} {type : ClassType}

theorem text_of_ofPlainName? (h : ofPlainName? name = some type) : type.text = name := by
  rw [ofPlainName?] at h
  split at h
  next kind hkind =>
    cases h
    have hname := List.find?_some hkind
    exact of_decide_eq_true hname
  next =>
    split at h
    next kind hkind =>
      cases h
      have hname := List.find?_some hkind
      exact of_decide_eq_true hname
    next =>
      split_ifs at h with hstring hsequence hmap hdotted
      · cases h
        exact hstring.symm
      · cases h
        exact hsequence.symm
      · cases h
        rfl
      · cases h
        rfl

theorem text_of_ofReversed? {cs : List Char} (h : ofReversed? cs = some type) :
    type.text = String.ofList cs.reverse := by
  fun_induction ofReversed? cs generalizing type with
  | case1 rest ih =>
      obtain ⟨component, hcomponent, rfl⟩ := Option.map_eq_some_iff.mp h
      rw [text, ih hcomponent, ← String.toList_inj]
      simp [arrayMarker]
  | case2 cs hplain => exact text_of_ofPlainName? h

/-- The class of a name has the name as its text. -/
theorem text_of_ofName? (h : ofName? name = some type) : type.text = name := by
  rw [text_of_ofReversed? h, List.reverse_reverse, String.ofList_toList]

theorem ofPlainName?_of_dotted (h : Name.isDotted name = true) :
    ofPlainName? name = some (other name) := by
  have hwords : ∀ word ∈ words, Name.isDotted word = false := by decide
  have hword : name ∉ words := by
    intro hmem
    rw [hwords name hmem] at h
    cases h
  rw [ofPlainName?_of_notMem_words hword, if_pos h]

/-- A class that type strings know.  A class of maps has one of the known names, and any other class
a name with a point, with neither blanks around it nor an array marker at its end. -/
def Readable : ClassType → Prop
  | map name => name ∈ mapNames
  | other name =>
    Name.isDotted name = true ∧ trimBlanks name = name ∧ stripArrayMarker name = (name, false)
  | array component => component.Readable
  | _ => True

/-- The text of a class that type strings know is the name of this class. -/
theorem ofName?_text (h : type.Readable) : ofName? type.text = some type := by
  induction type with
  | basic kind => cases kind <;> decide
  | boxed kind => cases kind <;> decide
  | string => decide
  | charSequence => decide
  | array component ih => rw [text, ofName?_marked, ih h, Option.map_some]
  | map name =>
      have hnames : ∀ known ∈ mapNames, ofName? known = some (map known) := by decide
      exact hnames name h
  | other name =>
      obtain ⟨hdotted, -, hunmarked⟩ := h
      rw [text, ofName?_of_unmarked hunmarked, ofPlainName?_of_dotted hdotted]

theorem trimBlanks_text (h : type.Readable) : trimBlanks type.text = type.text := by
  induction type with
  | basic kind => cases kind <;> decide
  | boxed kind => cases kind <;> decide
  | string => decide
  | charSequence => decide
  | array component ih => exact trimBlanks_marked (ih h)
  | map name =>
      have hnames : ∀ known ∈ mapNames, trimBlanks known = known := by decide
      exact hnames name h
  | other name => exact h.2.1

end ClassType

namespace PropertyType

/-- The text of the type that a type string denotes is the string without the blanks around it, and
the text of a class that type strings know denotes this class. -/
theorem text_ofName_and_ofName_text :
    (∀ name, (ofName name).text = trimBlanks name) ∧
      ∀ type : ClassType, type.Readable → ofName type.text = value type := by
  constructor
  · intro name
    rw [ofName]
    split
    next hnull => rw [text, hnull]
    next =>
      split
      next type htype => rw [text, ClassType.text_of_ofName? htype]
      next => rw [text]
  · intro type htype
    have hclass := ClassType.ofName?_text htype
    have hnull : type.text ≠ "null" := by
      intro hnull
      have hnone : ClassType.ofName? "null" = Option.none := by decide
      rw [hnull, hnone] at hclass
      cases hclass
    rw [ofName, ClassType.trimBlanks_text htype, if_neg hnull, hclass]

/-- The class of arrays of arrays of identifiers. -/
def identifierGrid : ClassType :=
  .array (.array (.other "java.util.UUID"))

theorem ofName_text_identifierGrid :
    (ofName " java.util.UUID[][] ").text = "java.util.UUID[][]" ∧ identifierGrid.Readable ∧
      ofName identifierGrid.text = value identifierGrid := by
  have hreadable : identifierGrid.Readable := ⟨by decide, by decide, by decide⟩
  obtain ⟨htext, hclass⟩ := text_ofName_and_ofName_text
  refine ⟨?_, hreadable, hclass identifierGrid hreadable⟩
  rw [htext]
  decide

end PropertyType

end EventSchema
