import EventSchema.Proofs.Closing
import EventSchema.Proofs.Marks

/-!
# References and the records around them

A mention of a type whose record is still open becomes a reference, and a
mention of a finished type becomes a copy of its definition.  A definition that
refers to a record around it therefore carries the reference along to wherever
the type is mentioned again.  The main statement is that every reference of a
schema lies inside the record that it refers to exactly if every mention of such
a type does.
-/

namespace EventSchema

open Mark (definedNames)

/-- The records around a place. -/
def Mark.within : Mark → List String
  | .defines within _ => within
  | .mentions within _ _ => within

/-! ## Definitions that refer outside -/

/-- `Escapes marks fullName outside`: at one of these places, the definition of a type mentions a
record around the definition, or a finished type whose own definition does. -/
inductive Escapes : List Mark → String → String → Prop
  | mention {first later outer inner space name target fullName outside}
      (hfirst : fullName ∉ outer) (hdenotes : Denotes (definedNames first) space name target)
      (hopen : target ∈ outer ++ fullName :: inner → outside = target)
      (hfinished : target ∉ outer ++ fullName :: inner → Escapes first target outside)
      (houtside : outside ∉ fullName :: inner) :
      Escapes (first ++ .mentions (outer ++ fullName :: inner) space name :: later) fullName outside

/-- What the mention of a type below records leaves open, after these places: the type itself if
its record is open, else what its definition refers to. -/
def LeavesBehind (before : List Mark) (within : List String) (target outside : String) : Prop :=
  (target ∈ within → outside = target) ∧ (target ∉ within → Escapes before target outside)

/-- What the mentions among places leave open outside the records that are within these places
only. -/
def Leaves (before : List Mark) (within : List String) (marks : List Mark)
    (outside : String) : Prop :=
  ∃ first later inner space name target,
    marks = first ++ .mentions (within ++ inner) space name :: later ∧
      Denotes (definedNames (before ++ first)) space name target ∧
        LeavesBehind (before ++ first) (within ++ inner) target outside ∧ outside ∉ inner

/-- At one of these places, the definition of a type mentions a record that is open there, or a
finished type that leaves one open: the type itself, or a record around its definition. -/
def Opens (marks : List Mark) (fullName outside : String) : Prop :=
  ∃ first later outer inner space name target,
    marks = first ++ .mentions (outer ++ fullName :: inner) space name :: later ∧
      fullName ∉ outer ∧ Denotes (definedNames first) space name target ∧
        LeavesBehind first (outer ++ fullName :: inner) target outside ∧ outside ∉ inner

theorem append_cons_inj_of_notMem {α : Type} {first second before after : List α} {x : α}
    (hfirst : x ∉ first) (hbefore : x ∉ before) (h : first ++ x :: second = before ++ x :: after) :
    first = before ∧ second = after := by
  rcases append_eq_append_cons_iff.mp h with ⟨rest, rfl, -⟩ | ⟨rest, rfl, hrest⟩
  · simp at hfirst
  · cases rest with
    | nil =>
        cases hrest
        simp
    | cons y rest =>
        cases hrest
        simp at hbefore

section Places

variable {before marks more : List Mark} {within : List String} {fullName outside : String}

/-- What a definition refers to outside is what it leaves open other than its own type. -/
theorem escapes_iff_opens :
    Escapes marks fullName outside ↔ outside ≠ fullName ∧ Opens marks fullName outside := by
  constructor
  · intro h
    cases h with
    | mention hfirst hdenotes hopen hfinished houtside =>
        rw [List.mem_cons, not_or] at houtside
        exact ⟨houtside.1, _, _, _, _, _, _, _, rfl, hfirst, hdenotes, ⟨hopen, hfinished⟩,
          houtside.2⟩
  · rintro ⟨hne, first, later, outer, inner, space, name, target, rfl, hfirst, hdenotes, hleaves,
      hinner⟩
    refine .mention hfirst hdenotes hleaves.1 hleaves.2 ?_
    rw [List.mem_cons, not_or]
    exact ⟨hne, hinner⟩

/-- Places outside a definition add nothing to it. -/
theorem opens_append (h : ∀ mark ∈ more, fullName ∉ mark.within) :
    Opens (marks ++ more) fullName outside ↔ Opens marks fullName outside := by
  constructor
  · rintro ⟨first, later, outer, inner, space, name, target, hmarks, hrest⟩
    rcases append_eq_append_cons_iff.mp hmarks with ⟨rest, hfirst, -⟩ | ⟨rest, -, hmore⟩
    · exact ⟨first, rest, outer, inner, space, name, target, hfirst, hrest⟩
    · exact absurd (by simp [Mark.within]) (h (.mentions (outer ++ fullName :: inner) space name)
        (by simp [hmore]))
  · rintro ⟨first, later, outer, inner, space, name, target, rfl, hrest⟩
    exact ⟨first, later ++ more, outer, inner, space, name, target, by simp, hrest⟩

theorem escapes_append (h : ∀ mark ∈ more, fullName ∉ mark.within) :
    Escapes (marks ++ more) fullName outside ↔ Escapes marks fullName outside := by
  rw [escapes_iff_opens, escapes_iff_opens, opens_append h]

theorem not_opens (h : ∀ mark ∈ marks, fullName ∉ mark.within) :
    ¬ Opens marks fullName outside := by
  rintro ⟨first, later, outer, inner, space, name, target, rfl, -⟩
  exact absurd (by simp [Mark.within]) (h (.mentions (outer ++ fullName :: inner) space name)
    (by simp))

theorem not_escapes (h : ∀ mark ∈ marks, fullName ∉ mark.within) :
    ¬ Escapes marks fullName outside := by
  rw [escapes_iff_opens]
  rintro ⟨-, hopens⟩
  exact not_opens h hopens

theorem leaves_append :
    Leaves before within (marks ++ more) outside ↔
      Leaves before within marks outside ∨ Leaves (before ++ marks) within more outside := by
  constructor
  · rintro ⟨first, later, inner, space, name, target, hmarks, hrest⟩
    rcases append_eq_append_cons_iff.mp hmarks with ⟨rest, hfirst, -⟩ | ⟨rest, rfl, hmore⟩
    · exact .inl ⟨first, rest, inner, space, name, target, hfirst, hrest⟩
    · rw [← List.append_assoc] at hrest
      exact .inr ⟨rest, later, inner, space, name, target, hmore, hrest⟩
  · rintro (⟨first, later, inner, space, name, target, rfl, hrest⟩ |
      ⟨first, later, inner, space, name, target, rfl, hrest⟩)
    · exact ⟨first, later ++ more, inner, space, name, target, by simp, hrest⟩
    · rw [List.append_assoc] at hrest
      exact ⟨marks ++ first, later, inner, space, name, target, by simp, hrest⟩

theorem not_leaves_nil : ¬ Leaves before within [] outside := by
  rintro ⟨first, later, inner, space, name, target, hmarks, -⟩
  simp at hmarks

theorem not_leaves_defines {definition : Definition} {around : List String} :
    ¬ Leaves before within [.defines around definition] outside := by
  rintro ⟨first, later, inner, space, name, target, hmarks, -⟩
  rw [List.singleton_eq_append_iff] at hmarks
  simp at hmarks

theorem leaves_mentions {space : Option String} {name : String} :
    Leaves before within [.mentions within space name] outside ↔
      ∃ target, Denotes (definedNames before) space name target ∧
        LeavesBehind before within target outside := by
  constructor
  · rintro ⟨first, later, inner, around, found, target, hmarks, hdenotes, hleaves, -⟩
    rw [List.singleton_eq_append_iff] at hmarks
    rcases hmarks with ⟨rfl, hmark⟩ | ⟨-, hmark⟩
    · simp only [List.cons.injEq, Mark.mentions.injEq] at hmark
      obtain ⟨⟨hwithin, rfl, rfl⟩, -⟩ := hmark
      have hinner : inner = [] := by simpa using hwithin
      subst hinner
      rw [List.append_nil] at hdenotes hleaves
      rw [List.append_nil] at hleaves
      exact ⟨target, hdenotes, hleaves⟩
    · cases hmark
  · rintro ⟨target, hdenotes, hleaves⟩
    refine ⟨[], [], [], space, name, target, by simp, ?_, ?_, List.not_mem_nil⟩
    · rwa [List.append_nil]
    · rwa [List.append_nil, List.append_nil]

/-- Below a record, what is left open around it is what is left open below it, other than the
record. -/
theorem leaves_below (h : ∀ mark ∈ marks, within ++ [fullName] <+: mark.within) :
    Leaves before within marks outside ↔
      outside ≠ fullName ∧ Leaves before (within ++ [fullName]) marks outside := by
  constructor
  · rintro ⟨first, later, inner, space, name, target, rfl, hdenotes, hleaves, hinner⟩
    obtain ⟨deeper, hdeeper⟩ := h (.mentions (within ++ inner) space name) (by simp)
    rw [Mark.within, List.append_assoc, List.append_right_inj, List.singleton_append] at hdeeper
    subst hdeeper
    rw [List.mem_cons, not_or] at hinner
    have hwithin : within ++ fullName :: deeper = within ++ [fullName] ++ deeper := by simp
    rw [hwithin] at hleaves
    exact ⟨hinner.1, first, later, deeper, space, name, target, by rw [hwithin], hdenotes,
      hleaves, hinner.2⟩
  · rintro ⟨hne, first, later, deeper, space, name, target, hmarks, hdenotes, hleaves, hdeeper⟩
    have hwithin : within ++ [fullName] ++ deeper = within ++ fullName :: deeper := by simp
    rw [hwithin] at hmarks hleaves
    exact ⟨first, later, fullName :: deeper, space, name, target, hmarks, hdenotes, hleaves,
      by simp [hne, hdeeper]⟩

/-- The definition of a record leaves open what its fields leave open. -/
theorem opens_record (hbefore : ∀ mark ∈ before, fullName ∉ mark.within)
    (hwithin : fullName ∉ within) (hmarks : ∀ mark ∈ marks, within ++ [fullName] <+: mark.within) :
    Opens (before ++ marks) fullName outside ↔
      Leaves before (within ++ [fullName]) marks outside := by
  have hsplit : ∀ inner, within ++ [fullName] ++ inner = within ++ fullName :: inner := by simp
  constructor
  · rintro ⟨first, later, outer, inner, space, name, target, hplaces, hfirst, hdenotes, hleaves,
      hinner⟩
    rcases append_eq_append_cons_iff.mp hplaces with ⟨rest, hin, -⟩ | ⟨rest, rfl, hin⟩
    · exact absurd (by simp [Mark.within])
        (hbefore (.mentions (outer ++ fullName :: inner) space name) (by simp [hin]))
    · obtain ⟨deeper, hdeeper⟩ :=
        hmarks (.mentions (outer ++ fullName :: inner) space name) (by simp [hin])
      rw [Mark.within, hsplit] at hdeeper
      obtain ⟨rfl, rfl⟩ := append_cons_inj_of_notMem hwithin hfirst hdeeper
      rw [← hsplit] at hin hleaves
      exact ⟨rest, later, deeper, space, name, target, hin, hdenotes, hleaves, hinner⟩
  · rintro ⟨first, later, inner, space, name, target, hin, hdenotes, hleaves, hinner⟩
    rw [hsplit] at hin hleaves
    exact ⟨before ++ first, later, within, inner, space, name, target, by simp [hin], hwithin,
      hdenotes, hleaves, hinner⟩

/-- The definition of a record refers outside where its fields leave something open. -/
theorem escapes_record (hbefore : ∀ mark ∈ before, fullName ∉ mark.within)
    (hwithin : fullName ∉ within) (hmarks : ∀ mark ∈ marks, within ++ [fullName] <+: mark.within) :
    Escapes (before ++ marks) fullName outside ↔
      outside ≠ fullName ∧ Leaves before (within ++ [fullName]) marks outside := by
  rw [escapes_iff_opens, opens_record hbefore hwithin hmarks]

/-! ## What is left open is defined -/

theorem Escapes.mem (h : Escapes marks fullName outside) : outside ∈ definedNames marks := by
  induction h with
  | @mention first later outer inner space name target found _ _ hdenotes hopen _ _ ih =>
      rw [Mark.definedNames_append]
      apply List.mem_append_left
      by_cases hwithin : target ∈ outer ++ found :: inner
      · rw [hopen hwithin]
        exact hdenotes.mem
      · exact ih hwithin

theorem Leaves.mem (h : Leaves before within marks outside) :
    outside ∈ definedNames (before ++ marks) := by
  obtain ⟨first, later, inner, space, name, target, rfl, hdenotes, ⟨hopen, hfinished⟩, -⟩ := h
  rw [← List.append_assoc, Mark.definedNames_append]
  apply List.mem_append_left
  by_cases hwithin : target ∈ within ++ inner
  · rw [hopen hwithin]
    exact hdenotes.mem
  · exact (hfinished hwithin).mem

end Places

namespace Schema

/-! ## Following a reading -/

/-- The scope of a reading after these places, below these open records: a finished type leaves
open what its definition refers to outside. -/
structure Tracks (before : List Mark) (within : List String) (scope : Scope) : Prop where
  claimed : scope.claimed = definedNames before
  opened : ∀ {fullName}, fullName ∈ within ↔
    fullName ∈ scope.claimed ∧ scope.finished.get? fullName = none
  bounded : ∀ mark ∈ before, ∀ fullName ∈ mark.within, fullName ∈ scope.claimed
  finished : ∀ {fullName definition}, scope.finished.get? fullName = some definition →
    fullName ∈ scope.claimed ∧
      ∀ outside, LeavesOpen definition outside ↔ Escapes before fullName outside

section Steps

variable {before marks : List Mark} {within : List String} {scope opened : Scope}
  {space : Option String} {name fullName : String} {definition : Definition}

theorem tracks_empty : Tracks [] [] {} := by
  constructor
  · rfl
  · simp
  · intro mark hmem
    cases hmem
  · intro fullName definition h
    cases h

theorem Tracks.notMem_within (h : Tracks before within scope) {found : Schema}
    (hfound : scope.finished.get? fullName = some found) : fullName ∉ within := by
  intro hmem
  rw [(h.opened.mp hmem).2] at hfound
  cases hfound

theorem Tracks.notMem_of_fresh (h : Tracks before within scope)
    (hfresh : fullName ∉ scope.claimed) :
    fullName ∉ within ∧ ∀ mark ∈ before, fullName ∉ mark.within := by
  constructor
  · intro hmem
    exact hfresh (h.opened.mp hmem).1
  · intro mark hmark hmem
    exact hfresh (h.bounded mark hmark fullName hmem)

theorem Tracks.mentions (h : Tracks before within scope) :
    Tracks (before ++ [.mentions within space name]) within scope := by
  refine ⟨by simp [h.claimed], h.opened, ?_, ?_⟩
  · intro mark hmark found hfound
    rcases List.mem_append.mp hmark with hmark | hmark
    · exact h.bounded mark hmark found hfound
    · rw [List.mem_singleton.mp hmark] at hfound
      exact (h.opened.mp hfound).1
  · intro found schema hfound
    obtain ⟨hclaimed, hleaves⟩ := h.finished hfound
    refine ⟨hclaimed, ?_⟩
    intro outside
    rw [hleaves outside, escapes_append]
    intro mark hmark
    rw [List.mem_singleton.mp hmark]
    exact h.notMem_within hfound

theorem Tracks.defines (h : Tracks before within scope)
    (hclaim : scope.claim definition.fullName = .ok opened) :
    Tracks (before ++ [.defines within definition]) (within ++ [definition.fullName]) opened := by
  obtain ⟨-, hfresh, rfl⟩ := Scope.claim_eq_ok_iff.mp hclaim
  have hnone : scope.finished.get? definition.fullName = none := by
    cases hfound : scope.finished.get? definition.fullName with
    | none => rfl
    | some found => exact absurd (h.finished hfound).1 hfresh
  refine ⟨by simp [h.claimed], ?_, ?_, ?_⟩
  · intro found
    rw [List.mem_append, List.mem_append, List.mem_singleton, h.opened]
    constructor
    · rintro (⟨hclaimed, hopen⟩ | rfl)
      · exact ⟨.inl hclaimed, hopen⟩
      · exact ⟨.inr rfl, hnone⟩
    · rintro ⟨hclaimed | rfl, hopen⟩
      · exact .inl ⟨hclaimed, hopen⟩
      · exact .inr rfl
  · intro mark hmark found hfound
    rw [List.mem_append]
    rcases List.mem_append.mp hmark with hmark | hmark
    · exact .inl (h.bounded mark hmark found hfound)
    · rw [List.mem_singleton.mp hmark] at hfound
      exact .inl (h.opened.mp hfound).1
  · intro found schema hfound
    obtain ⟨hclaimed, hleaves⟩ := h.finished hfound
    refine ⟨List.mem_append_left _ hclaimed, ?_⟩
    intro outside
    rw [hleaves outside, escapes_append]
    intro mark hmark
    rw [List.mem_singleton.mp hmark]
    exact h.notMem_within hfound

theorem Tracks.finish (h : Tracks marks (within ++ [fullName]) scope) (hwithin : fullName ∉ within)
    {schema : Schema}
    (hleaves : ∀ outside, LeavesOpen schema outside ↔ Escapes marks fullName outside) :
    Tracks marks within (scope.finish fullName schema) := by
  refine ⟨h.claimed, ?_, h.bounded, ?_⟩
  · intro found
    have hfound := @Tracks.opened _ _ _ h found
    rw [Scope.finished_finish, Entries.get?_append, Option.or_eq_none_iff, Entries.get?_cons,
      Scope.claimed_finish, ← and_assoc, ← hfound, List.mem_append, List.mem_singleton]
    by_cases heq : found = fullName
    · simp [heq, hwithin]
    · simp [heq]
  · intro found other hother
    rcases Scope.get?_finished_finish hother with hearlier | ⟨rfl, rfl⟩
    · exact h.finished hearlier
    · exact ⟨(h.opened.mp (by simp)).1, hleaves⟩

/-- A definition without fields leaves nothing open. -/
theorem Tracks.leaf (h : Tracks before within scope)
    (hclaim : scope.claim definition.fullName = .ok opened) {schema : Schema}
    (hschema : ∀ outside, ¬ LeavesOpen schema outside) :
    Tracks (before ++ [.defines within definition]) within
      (opened.finish definition.fullName schema) := by
  have hfresh := (Scope.claim_eq_ok_iff.mp hclaim).2.1
  obtain ⟨hwithin, hbefore⟩ := h.notMem_of_fresh hfresh
  apply (h.defines hclaim).finish hwithin
  intro outside
  apply iff_of_false (hschema outside)
  apply not_escapes
  intro mark hmark
  rcases List.mem_append.mp hmark with hmark | hmark
  · exact hbefore mark hmark
  · rw [List.mem_singleton.mp hmark]
    exact hwithin

/-- A name that is read leaves open what its mention leaves open. -/
theorem Tracks.leavesOpen_name (h : Tracks before within scope) {schema : Schema}
    (hname : scope.schemaOfName space name = .ok schema) (outside : String) :
    LeavesOpen schema outside ↔ Leaves before within [.mentions within space name] outside := by
  rw [leaves_mentions, ← h.claimed]
  rcases Scope.schemaOfName_eq_ok hname with ⟨kind, rfl, rfl⟩ | ⟨target, hdenotes, rfl⟩
  · refine iff_of_false not_leavesOpen_primitive ?_
    rintro ⟨target, ⟨hkind, -⟩, -⟩
    rw [PrimitiveKind.ofName?_name] at hkind
    cases hkind
  · have hunique : (∃ other, Denotes scope.claimed space name other ∧
        LeavesBehind before within other outside) ↔ LeavesBehind before within target outside := by
      constructor
      · rintro ⟨other, hother, hleaves⟩
        rwa [hdenotes.unique hother]
      · intro hleaves
        exact ⟨target, hdenotes, hleaves⟩
    rw [hunique, Scope.stored, LeavesBehind]
    cases hfound : scope.finished.get? target with
    | some found =>
        have hwithin := h.notMem_within hfound
        rw [Option.getD_some, (h.finished hfound).2 outside]
        simp [hwithin]
    | none =>
        have hwithin : target ∈ within := h.opened.mpr ⟨hdenotes.mem, hfound⟩
        rw [Option.getD_none, leavesOpen_ref]
        simp [hwithin]

end Steps

mutual

/-- The step of the argument: a reading follows the marks of its value, which lie below the open
records, and leaves open what the mentions among them leave open. -/
theorem Reads.tracks {scope scope' : Scope} {space : Option String} {value : Json}
    {schema : Schema} {before : List Mark} {within : List String} :
    Reads scope space value schema scope' → Tracks before within scope →
      Tracks (before ++ value.marks within space) within scope' ∧
        (∀ mark ∈ value.marks within space, within <+: mark.within) ∧
          ∀ outside, LeavesOpen schema outside ↔
            Leaves before within (value.marks within space) outside
  | .name h, htracks => by
      rw [Json.marks]
      exact ⟨htracks.mentions, by simp [Mark.within], htracks.leavesOpen_name h⟩
  | .union h, htracks => by
      rw [Json.marks]
      obtain ⟨htracks', hwithin, hleaves⟩ := h.tracks htracks
      refine ⟨htracks', hwithin, ?_⟩
      intro outside
      rw [leavesOpen_union]
      exact hleaves outside
  | @Reads.primitive _ _ _ kind htype, htracks => by
      rw [Json.marks_of_word htype (name_notMem_typeWords kind)]
      refine ⟨htracks.mentions, by simp [Mark.within], ?_⟩
      intro outside
      rw [← htracks.leavesOpen_name (Scope.schemaOfName_name scope space kind), ofKind]
      simp
  | .array htype hvalue h, htracks => by
      rw [Json.marks_of_array htype hvalue]
      obtain ⟨htracks', hwithin, hleaves⟩ := h.tracks htracks
      refine ⟨htracks', hwithin, ?_⟩
      intro outside
      rw [leavesOpen_array]
      exact hleaves outside
  | .map htype hvalue h, htracks => by
      rw [Json.marks_of_map htype hvalue]
      obtain ⟨htracks', hwithin, hleaves⟩ := h.tracks htracks
      refine ⟨htracks', hwithin, ?_⟩
      intro outside
      rw [leavesOpen_map]
      exact hleaves outside
  | @Reads.record _ _ members head isError items fields _ _ htype hhead hclaim hvalue h,
      htracks => by
      have hfullName := hhead.fullName_definition
      rw [← hfullName] at hclaim
      obtain ⟨hnew, hbefore⟩ :=
        htracks.notMem_of_fresh (Scope.claim_eq_ok_iff.mp hclaim).2.1
      obtain ⟨htracks', hwithin, hleaves⟩ := h.tracks (htracks.defines hclaim)
      have hdefines : ∀ mark ∈ before ++ [.defines within (.ofMembers space members)],
          (Definition.ofMembers space members).fullName ∉ mark.within := by
        intro mark hmark
        rcases List.mem_append.mp hmark with hmark | hmark
        · exact hbefore mark hmark
        · rw [List.mem_singleton.mp hmark]
          exact hnew
      rw [Json.marks_of_record htype hvalue, hhead.innerSpace_definition, ← hfullName,
        ← List.singleton_append, ← List.append_assoc]
      have hrecord : ∀ outside, LeavesOpen (closeRecord head isError fields) outside ↔
          outside ≠ (Definition.ofMembers space members).fullName ∧
            Leaves (before ++ [.defines within (.ofMembers space members)])
              (within ++ [(Definition.ofMembers space members).fullName])
              (Json.marksOfFieldItems (within ++ [(Definition.ofMembers space members).fullName])
                (innerSpace head.name head.space) items) outside := by
        intro outside
        rw [leavesOpen_closeRecord, hleaves outside, hfullName]
      refine ⟨htracks'.finish hnew ?_, ?_, ?_⟩
      · intro outside
        rw [hrecord outside, escapes_record hdefines hnew hwithin]
      · intro mark hmark
        rcases List.mem_append.mp hmark with hmark | hmark
        · rw [List.mem_singleton.mp hmark]
          exact List.prefix_refl within
        · exact (List.prefix_append _ _).trans (hwithin mark hmark)
      · intro outside
        rw [hrecord outside, leaves_append, leaves_below hwithin]
        simp [not_leaves_defines]
  | .enum htype hhead hclaim _ _ _, htracks => by
      rw [← hhead.fullName_definition] at hclaim ⊢
      rw [Json.marks_of_enum htype]
      refine ⟨htracks.leaf hclaim ?_, by simp [Mark.within], ?_⟩
      · intro outside
        exact not_leavesOpen_enum
      · intro outside
        exact iff_of_false not_leavesOpen_enum not_leaves_defines
  | .fixed htype hhead hclaim _ _, htracks => by
      rw [← hhead.fullName_definition] at hclaim ⊢
      rw [Json.marks_of_fixed htype]
      refine ⟨htracks.leaf hclaim ?_, by simp [Mark.within], ?_⟩
      · intro outside
        exact not_leavesOpen_fixed
      · intro outside
        exact iff_of_false not_leavesOpen_fixed not_leaves_defines
  | .named htype _ hword h, htracks => by
      rw [Json.marks_of_word htype hword]
      exact ⟨htracks.mentions, by simp [Mark.within], htracks.leavesOpen_name h⟩

theorem ReadsMembers.tracks {scope scope' : Scope} {space : Option String} {seen : List String}
    {items : List Json} {schemas : List Schema} {before : List Mark} {within : List String} :
    ReadsMembers scope space seen items schemas scope' → Tracks before within scope →
      Tracks (before ++ Json.marksOfItems within space items) within scope' ∧
        (∀ mark ∈ Json.marksOfItems within space items, within <+: mark.within) ∧
          ∀ outside, (∃ member ∈ schemas, LeavesOpen member outside) ↔
            Leaves before within (Json.marksOfItems within space items) outside
  | .nil, htracks => by
      rw [Json.marksOfItems, List.append_nil]
      refine ⟨htracks, by simp, ?_⟩
      intro outside
      simp [not_leaves_nil]
  | .cons h _ _ hrest, htracks => by
      obtain ⟨hbetween, hwithin, hleaves⟩ := h.tracks htracks
      obtain ⟨htracks', hwithinRest, hleavesRest⟩ := hrest.tracks hbetween
      rw [Json.marksOfItems, ← List.append_assoc]
      refine ⟨htracks', List.forall_mem_append.mpr ⟨hwithin, hwithinRest⟩, ?_⟩
      intro outside
      rw [List.exists_mem_cons_iff, hleaves outside, hleavesRest outside, leaves_append]

theorem ReadsFields.tracks {scope scope' : Scope} {space : Option String} {seen : List String}
    {items : List Json} {fields : List Field} {before : List Mark} {within : List String} :
    ReadsFields scope space seen items fields scope' → Tracks before within scope →
      Tracks (before ++ Json.marksOfFieldItems within space items) within scope' ∧
        (∀ mark ∈ Json.marksOfFieldItems within space items, within <+: mark.within) ∧
          ∀ outside, (∃ field ∈ fields, LeavesOpen (FieldOf.schema field) outside) ↔
            Leaves before within (Json.marksOfFieldItems within space items) outside
  | .nil, htracks => by
      rw [Json.marksOfFieldItems, List.append_nil]
      refine ⟨htracks, by simp, ?_⟩
      intro outside
      simp [not_leaves_nil]
  | .cons _ hvalue h _ hrest, htracks => by
      obtain ⟨hbetween, hwithin, hleaves⟩ := h.tracks htracks
      obtain ⟨htracks', hwithinRest, hleavesRest⟩ := hrest.tracks hbetween
      rw [Json.marksOfFieldItems, Json.marksOfField, Json.marksOfMember_of_get? hvalue,
        ← List.append_assoc]
      refine ⟨htracks', List.forall_mem_append.mpr ⟨hwithin, hwithinRest⟩, ?_⟩
      intro outside
      rw [List.exists_mem_cons_iff, hleaves outside, hleavesRest outside, leaves_append]

end

/-- Every reference of a schema lies inside the record that it refers to exactly if each mention
of a finished type lies inside the records that its definition refers to. -/
theorem references_enclosed_iff {value : Json} {schema : Schema}
    (h : ofJson value = .ok schema) :
    (∀ path name, Occurs path (ref name) schema → name ∈ path) ↔
      ∀ before within space name after target,
        value.marks [] none = before ++ .mentions within space name :: after →
          Denotes (definedNames before) space name target →
            target ∈ within ∨ ∀ outside, Escapes before target outside → outside ∈ within := by
  obtain ⟨scope, hreads⟩ := ofJson_eq_ok_iff.mp h
  obtain ⟨-, -, hleaves⟩ := hreads.tracks tracks_empty
  have hopen : (∀ path name, Occurs path (ref name) schema → name ∈ path) ↔
      ∀ outside, ¬ Leaves [] [] (value.marks [] none) outside := by
    constructor
    · intro henclosed outside hin
      obtain ⟨path, hoccurs, hpath⟩ := (hleaves outside).mpr hin
      exact hpath (henclosed path outside hoccurs)
    · intro hnone path name hoccurs
      by_contra hpath
      exact hnone name ((hleaves name).mp ⟨path, hoccurs, hpath⟩)
  rw [hopen]
  constructor
  · intro hnone before within space name after target hmarks hdenotes
    by_cases hwithin : target ∈ within
    · exact .inl hwithin
    · right
      intro outside hescapes
      by_contra houtside
      have hbehind : LeavesBehind before within target outside := by
        constructor
        · intro hmem
          exact absurd hmem hwithin
        · intro _
          exact hescapes
      exact hnone outside ⟨before, after, within, space, name, target, hmarks, hdenotes,
        hbehind, houtside⟩
  · rintro hmentions outside ⟨before, after, within, space, name, target, hmarks, hdenotes,
      ⟨hsame, hescapes⟩, houtside⟩
    rcases hmentions before within space name after target hmarks hdenotes with hwithin | hall
    · exact houtside (hsame hwithin ▸ hwithin)
    · by_cases hwithin : target ∈ within
      · exact houtside (hsame hwithin ▸ hwithin)
      · exact houtside (hall outside (hescapes hwithin))

/-- A record that mentions itself. -/
def listRecord : Json :=
  .obj [("type", .str "record"), ("name", .str "List"),
    ("fields", .arr [.obj [("name", .str "rest"), ("type", .arr [.str "null", .str "List"])]])]

theorem references_enclosed_listRecord :
    ∃ schema, ofJson listRecord = .ok schema ∧
      ∀ path name, Occurs path (ref name) schema → name ∈ path := by
  have h : ofJson listRecord = .ok _ := rfl
  refine ⟨_, h, (references_enclosed_iff h).mpr ?_⟩
  intro before within space name after target hmarks hdenotes
  left
  have hlist : listRecord.marks [] none = [.defines [] ⟨"List", none, none⟩,
      .mentions ["List"] none "null", .mentions ["List"] none "List"] := by decide
  rw [hlist] at hmarks
  have hwithin : within = ["List"] := by
    have hmem : Mark.mentions within space name ∈ [Mark.defines [] ⟨"List", none, none⟩,
        .mentions ["List"] none "null", .mentions ["List"] none "List"] := by
      rw [hmarks]
      simp
    simp at hmem
    tauto
  have hbefore : ∀ found ∈ definedNames before, found = "List" := by
    have hnames := congrArg definedNames hmarks
    rw [Mark.definedNames_append] at hnames
    intro found hfound
    have hin : found ∈ ["List"] := by
      change found ∈ definedNames [.defines [] ⟨"List", none, none⟩,
        .mentions ["List"] none "null", .mentions ["List"] none "List"]
      rw [hnames]
      exact List.mem_append_left _ hfound
    exact List.mem_singleton.mp hin
  rw [hwithin, hbefore target hdenotes.mem]
  exact List.mem_singleton_self _

/-- A record whose second field uses a type that is defined inside a record of the first one, and
that mentions this record. -/
def nestedRecord : Json :=
  .obj [("type", .str "record"), ("name", .str "C"), ("fields", .arr [
    .obj [("name", .str "h1"), ("type", .obj [("type", .str "record"), ("name", .str "A"),
      ("fields", .arr [.obj [("name", .str "f"), ("type", .obj [("type", .str "record"),
        ("name", .str "B"), ("fields", .arr [.obj [("name", .str "g"),
          ("type", .str "A")]])])]])])],
    .obj [("name", .str "h2"), ("type", .str "B")]])]

/-- The type of the second field refers to the record around its definition. -/
theorem exists_reference_outside :
    ∃ schema, ofJson nestedRecord = .ok schema ∧
      ∃ path name, Occurs path (ref name) schema ∧ name ∉ path := by
  refine ⟨_, rfl, ?_⟩
  suffices hopen : LeavesOpen _ "A" by
    obtain ⟨path, hoccurs, hpath⟩ := hopen
    exact ⟨path, "A", hoccurs, hpath⟩
  rw [leavesOpen_closeRecord]
  refine ⟨by decide, _, List.mem_cons_of_mem _ List.mem_cons_self, ?_⟩
  rw [leavesOpen_closeRecord]
  refine ⟨by decide, _, List.mem_cons_self, ?_⟩
  rw [leavesOpen_ref]
  decide

end Schema

end EventSchema
