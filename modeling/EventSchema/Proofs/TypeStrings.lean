import EventSchema.PropertyType
import EventSchema.Proofs.Name
import Mathlib.Data.List.TakeWhile

/-!
# Type strings that name types

A type string is trimmed, looked up among the classes, and otherwise names an
event type, with an array marker for an array of it.  A legal name has neither
blanks nor brackets, so that the string is read as it stands; this module says
which legal names the classes take.
-/

namespace EventSchema

/-! ## Characters of legal names -/

namespace Name

theorem eq_point_or_mem_pieces {cs : List Char} {c : Char} (hmem : c ∈ cs) :
    c = '.' ∨ ∃ piece ∈ pieces cs, c ∈ piece := by
  induction cs with
  | nil => cases hmem
  | cons first rest ih =>
      obtain ⟨piece, others, hpieces⟩ := List.exists_cons_of_ne_nil (pieces_ne_nil rest)
      by_cases hpoint : first = '.'
      · rw [pieces, if_pos hpoint]
        rcases List.mem_cons.mp hmem with rfl | hrest
        · exact .inl hpoint
        · rcases ih hrest with hsame | ⟨found, hfound, hin⟩
          · exact .inl hsame
          · exact .inr ⟨found, List.mem_cons_of_mem _ hfound, hin⟩
      · rw [pieces, if_neg hpoint, hpieces]
        rcases List.mem_cons.mp hmem with rfl | hrest
        · exact .inr ⟨_, List.mem_cons_self, List.mem_cons_self⟩
        · rcases ih hrest with hsame | ⟨found, hfound, hin⟩
          · exact .inl hsame
          · rw [hpieces] at hfound
            rcases List.mem_cons.mp hfound with rfl | hothers
            · exact .inr ⟨_, List.mem_cons_self, List.mem_cons_of_mem _ hin⟩
            · exact .inr ⟨found, List.mem_cons_of_mem _ hothers, hin⟩

theorem isPart_of_isSegmentChars {cs : List Char} (h : isSegmentChars cs = true) {c : Char}
    (hmem : c ∈ cs) : isPart c = true := by
  cases cs with
  | nil => cases hmem
  | cons first rest =>
      simp only [isSegmentChars, isStart, Bool.and_eq_true, Bool.or_eq_true,
        List.all_eq_true] at h
      rcases List.mem_cons.mp hmem with rfl | hrest
      · rw [isPart, Char.isAlphanum]
        rcases h.1 with halpha | hunderscore
        · rw [halpha, Bool.true_or, Bool.true_or]
        · rw [hunderscore, Bool.or_true]
      · exact h.2 c hrest

/-- A legal name consists of letters, digits, underscores and points. -/
theorem eq_point_or_isPart {name : String} (h : isValid name = true) {c : Char}
    (hmem : c ∈ name.toList) : c = '.' ∨ isPart c = true := by
  rcases eq_point_or_mem_pieces hmem with hpoint | ⟨piece, hpiece, hin⟩
  · exact .inl hpoint
  · rw [isValid, List.all_eq_true] at h
    exact .inr (isPart_of_isSegmentChars (h piece hpiece) hin)

/-- The code points of letters, digits and underscores. -/
theorem code_of_isPart {c : Char} (h : isPart c = true) : 48 ≤ c.toNat ∧ c.toNat ≤ 122 := by
  rw [isPart, Char.isAlphanum, Bool.or_eq_true, Bool.or_eq_true] at h
  rcases h with (halpha | hdigit) | hunderscore
  · rcases Bool.or_eq_true_iff.mp halpha with hupper | hlower
    · have hbounds : 'A'.toNat ≤ c.toNat ∧ c.toNat ≤ 'Z'.toNat := of_decide_eq_true hupper
      exact ⟨Nat.le_trans (by decide) hbounds.1, Nat.le_trans hbounds.2 (by decide)⟩
    · obtain ⟨hlow, hhigh⟩ := Bool.and_eq_true_iff.mp hlower
      have hleast : 'a'.toNat ≤ c.toNat := of_decide_eq_true hlow
      exact ⟨Nat.le_trans (by decide) hleast, of_decide_eq_true hhigh⟩
  · obtain ⟨hlow, hhigh⟩ := Bool.and_eq_true_iff.mp hdigit
    have hmost : c.toNat ≤ '9'.toNat := of_decide_eq_true hhigh
    exact ⟨of_decide_eq_true hlow, Nat.le_trans hmost (by decide)⟩
  · rw [of_decide_eq_true hunderscore]
    decide

/-- No letter, digit or underscore is blank: their code points lie between the blanks of ASCII and
the others. -/
theorem isBlank_of_isPart {c : Char} (h : isPart c = true) : isBlank c = false := by
  obtain ⟨hleast, hmost⟩ := code_of_isPart h
  simp only [isBlank, blankRanges, List.any_cons, List.any_nil, Bool.or_false, Bool.or_eq_false_iff,
    Bool.and_eq_false_iff, decide_eq_false_iff_not]
  omega

theorem isBlank_of_isValid {name : String} (h : isValid name = true) {c : Char}
    (hmem : c ∈ name.toList) : isBlank c = false := by
  rcases eq_point_or_isPart h hmem with rfl | hpart
  · decide
  · exact isBlank_of_isPart hpart

theorem bracket_notMem_of_isValid {name : String} (h : isValid name = true) :
    ']' ∉ name.toList := by
  intro hmem
  rcases eq_point_or_isPart h hmem with hpoint | hpart
  · exact absurd hpoint (by decide)
  · exact absurd hpart (by decide)

end Name

/-! ## Trimming and array markers -/

section Texts

variable {name text : String}

theorem dropWhile_eq_self_iff_head? {p : Char → Bool} {cs : List Char} :
    cs.dropWhile p = cs ↔ ∀ c, cs.head? = some c → p c = false := by
  rw [List.dropWhile_eq_self_iff]
  cases cs <;> simp

/-- A text is trimmed exactly if it neither starts nor ends with a blank. -/
theorem trimBlanks_eq_self_iff :
    trimBlanks text = text ↔ (∀ c, text.toList.head? = some c → isBlank c = false) ∧
      ∀ c, text.toList.getLast? = some c → isBlank c = false := by
  rw [← dropWhile_eq_self_iff_head?, ← List.head?_reverse, ← dropWhile_eq_self_iff_head?,
    trimBlanks, ← String.toList_inj, String.toList_ofList]
  constructor
  · intro h
    have hfront := (List.dropWhile_sublist isBlank (l := text.toList)).length_le
    have hback := (List.dropWhile_sublist isBlank
      (l := (text.toList.dropWhile isBlank).reverse)).length_le
    have hlength := congrArg List.length h
    rw [List.length_reverse] at hlength hback
    have hsame : text.toList.dropWhile isBlank = text.toList :=
      (List.dropWhile_sublist isBlank).eq_of_length (by omega)
    rw [hsame] at h
    exact ⟨hsame, List.reverse_eq_iff.mp h⟩
  · rintro ⟨hfront, hback⟩
    rw [hfront, hback, List.reverse_reverse]

theorem trimBlanks_eq_self (h : ∀ c ∈ text.toList, isBlank c = false) :
    trimBlanks text = text := by
  rw [trimBlanks_eq_self_iff]
  constructor
  · intro c hc
    exact h c (List.mem_of_head? hc)
  · intro c hc
    exact h c (List.mem_of_getLast? hc)

/-- A trimmed text stays trimmed when an array marker follows it. -/
theorem trimBlanks_marked (h : trimBlanks name = name) :
    trimBlanks (name ++ arrayMarker) = name ++ arrayMarker := by
  have hfront := (trimBlanks_eq_self_iff.mp h).1
  rw [trimBlanks_eq_self_iff, String.toList_append]
  constructor
  · intro c hc
    rw [List.head?_append] at hc
    cases hhead : name.toList.head? with
    | some first =>
        rw [hhead, Option.some_or] at hc
        exact hfront c (hhead.trans hc)
    | none =>
        rw [hhead, Option.none_or] at hc
        have hbracket : c = '[' := by simpa [arrayMarker, eq_comm] using hc
        rw [hbracket]
        decide
  · intro c hc
    have hbracket : c = ']' := by simpa [arrayMarker, eq_comm] using hc
    rw [hbracket]
    decide

theorem toList_marked (name : String) :
    (name ++ arrayMarker).toList.reverse = ']' :: '[' :: name.toList.reverse := by
  simp [arrayMarker]

theorem stripArrayMarker_marked (name : String) :
    stripArrayMarker (name ++ arrayMarker) = (name, true) := by
  rw [stripArrayMarker, toList_marked, dropMarker?]
  simp

theorem dropMarker?_of_notMem {cs : List Char} (h : ']' ∉ cs) : dropMarker? cs = none := by
  rw [dropMarker?.eq_def]
  split
  · simp at h
  · rfl

theorem stripArrayMarker_of_notMem (h : ']' ∉ name.toList) :
    stripArrayMarker name = (name, false) := by
  rw [stripArrayMarker, dropMarker?_of_notMem (by simpa using h)]

theorem eq_of_dropMarker? {cs rest : List Char} (h : dropMarker? cs = some rest) :
    cs = ']' :: '[' :: rest := by
  rw [dropMarker?.eq_def] at h
  split at h
  · cases h
    rfl
  · cases h

/-- A name keeps the array markers that are not at its end. -/
theorem stripArrayMarker_of_not_suffix (h : ¬ arrayMarker.toList <:+ name.toList) :
    stripArrayMarker name = (name, false) := by
  rw [stripArrayMarker]
  split
  next rest hrest =>
    have hname : name.toList = rest.reverse ++ arrayMarker.toList := by
      rw [← List.reverse_inj, eq_of_dropMarker? hrest]
      simp [arrayMarker]
    exact absurd ⟨rest.reverse, hname.symm⟩ h
  next => rfl

end Texts

/-! ## Names of classes -/

namespace ClassType

variable {name : String}

/-- The names that denote a class without a point in them. -/
def words : List String :=
  BasicClass.all.map BasicClass.name ++ BasicClass.all.map BasicClass.boxedName ++
    ["String", "CharSequence"] ++ mapNames

/-- A name that is no word denotes a class exactly if it has a point. -/
theorem ofPlainName?_of_notMem_words (h : name ∉ words) :
    ofPlainName? name = if Name.isDotted name then some (other name) else none := by
  simp only [words, List.mem_append, not_or] at h
  obtain ⟨⟨⟨hbasic, hboxed⟩, htext⟩, hmap⟩ := h
  have hnoBasic : (BasicClass.all.find? fun kind => kind.name = name) = none := by
    simpa using hbasic
  have hnoBoxed : (BasicClass.all.find? fun kind => kind.boxedName = name) = none := by
    simpa using hboxed
  obtain ⟨hstring, hsequence⟩ : name ≠ "String" ∧ name ≠ "CharSequence" := by simpa using htext
  rw [ofPlainName?, hnoBasic]
  dsimp only
  rw [hnoBoxed]
  dsimp only
  rw [if_neg hstring, if_neg hsequence, if_neg hmap, Name.isDotted]

/-- The classes take the words, and every name with a point. -/
theorem ofPlainName?_eq_none_iff :
    ofPlainName? name = none ↔ name ∉ words ∧ Name.isDotted name = false := by
  have hwords : ∀ word ∈ words, ofPlainName? word ≠ none := by decide
  constructor
  · intro h
    have hword : name ∉ words := by
      intro hmem
      exact hwords name hmem h
    rw [ofPlainName?_of_notMem_words hword] at h
    refine ⟨hword, ?_⟩
    by_contra hdotted
    simp [hdotted] at h
  · rintro ⟨hword, hdotted⟩
    rw [ofPlainName?_of_notMem_words hword, hdotted, if_neg Bool.false_ne_true]

theorem ofName?_marked (name : String) :
    ofName? (name ++ arrayMarker) = (ofName? name).map array := by
  rw [ofName?, toList_marked]
  rfl

theorem ofName?_of_unmarked (h : stripArrayMarker name = (name, false)) :
    ofName? name = ofPlainName? name := by
  rw [ofName?, ofReversed?.eq_def]
  split
  next rest hreverse =>
    rw [stripArrayMarker, hreverse] at h
    cases h
  next => rw [List.reverse_reverse, String.ofList_toList]

theorem ofName?_of_notMem (h : ']' ∉ name.toList) : ofName? name = ofPlainName? name :=
  ofName?_of_unmarked (stripArrayMarker_of_notMem h)

end ClassType

/-! ## Reading a legal name -/

namespace PropertyType

/-- A name that no class has: none of the words, and without a point. -/
def Free (name : String) : Prop :=
  name ∉ ClassType.words ∧ Name.isDotted name = false

instance (name : String) : Decidable (Free name) :=
  inferInstanceAs (Decidable (_ ∧ _))

section Names

variable {name : String}

theorem ofName?_eq_none_iff (hname : Name.isValid name = true) :
    ClassType.ofName? name = Option.none ↔ Free name := by
  rw [ClassType.ofName?_of_notMem (Name.bracket_notMem_of_isValid hname),
    ClassType.ofPlainName?_eq_none_iff, Free]

/-- A text without blanks that a class has is read as the class. -/
theorem ofName_of_class {text : String} {type : ClassType}
    (hblank : ∀ c ∈ text.toList, isBlank c = false) (hnull : text ≠ "null")
    (hclass : ClassType.ofName? text = some type) : ofName text = value type := by
  rw [ofName, trimBlanks_eq_self hblank, if_neg hnull, hclass]

/-- A text without blanks that no class has is read as the name of an event type. -/
theorem ofName_of_none {text : String} (hblank : ∀ c ∈ text.toList, isBlank c = false)
    (hnull : text ≠ "null") (hclass : ClassType.ofName? text = Option.none) :
    ofName text = named text := by
  rw [ofName, trimBlanks_eq_self hblank, if_neg hnull, hclass]

theorem isBlank_marked (hname : Name.isValid name = true) :
    ∀ c ∈ (name ++ arrayMarker).toList, isBlank c = false := by
  intro c hmem
  rw [String.toList_append, List.mem_append] at hmem
  rcases hmem with hin | hmarker
  · exact Name.isBlank_of_isValid hname hin
  · have hbracket : c = '[' ∨ c = ']' := by simpa [arrayMarker] using hmarker
    rcases hbracket with rfl | rfl <;> decide

theorem marked_ne_null (name : String) : name ++ arrayMarker ≠ "null" := by
  intro heq
  have hchars := congrArg (fun text => text.toList.reverse) heq
  simp only [toList_marked] at hchars
  cases hchars

end Names

end PropertyType

end EventSchema
