import EventSchema.Schema.Basic

/-!
# Equality of schemas

Equality of schemas is decidable.  A second, coarser equality disregards the
order of extra attributes and of the members of JSON objects inside them.
-/

namespace EventSchema

/-- Everything of a field but its schema. -/
def FieldOf.label {σ : Type} (field : FieldOf σ) : FieldOf Unit :=
  { field with schema := () }

theorem FieldOf.ext_label {σ : Type} {first second : FieldOf σ}
    (hlabel : first.label = second.label) (hschema : first.schema = second.schema) :
    first = second := by
  cases first
  cases second
  simp only [label, FieldOf.mk.injEq] at hlabel hschema ⊢
  exact ⟨hlabel.1, hschema, hlabel.2.2⟩

namespace Schema

mutual

/-- Decides equality of two schemas. -/
def beq : Schema → Schema → Bool
  | primitive k p, primitive k' p' => k == k' && decide (p = p')
  | array s p, array s' p' => s.beq s' && decide (p = p')
  | map s p, map s' p' => s.beq s' && decide (p = p')
  | union ss, union ss' => beqList ss ss'
  | record h e fs, record h' e' fs' => decide (h = h') && e == e' && beqFields fs fs'
  | enum h ss d, enum h' ss' d' => decide (h = h') && ss == ss' && d == d'
  | fixed h n, fixed h' n' => decide (h = h') && n == n'
  | ref n, ref n' => n == n'
  | _, _ => false
termination_by structural s => s

/-- `beq` member by member. -/
def beqList : List Schema → List Schema → Bool
  | [], [] => true
  | s :: ss, s' :: ss' => s.beq s' && beqList ss ss'
  | _, _ => false
termination_by structural ss => ss

/-- `beq` on the schemas of two fields, equality on all else. -/
def beqField : FieldOf Schema → FieldOf Schema → Bool
  | ⟨n, s, v, d, o, a, p⟩, f =>
    s.beq f.schema && decide ((⟨n, (), v, d, o, a, p⟩ : FieldOf Unit) = f.label)
termination_by structural f => f

/-- `beqField` field by field. -/
def beqFields : List (FieldOf Schema) → List (FieldOf Schema) → Bool
  | [], [] => true
  | f :: fs, f' :: fs' => beqField f f' && beqFields fs fs'
  | _, _ => false
termination_by structural fs => fs

end

mutual

theorem eq_of_beq : ∀ {s t : Schema}, s.beq t = true → s = t
  | primitive _ _, t, h => by cases t <;> simp_all [beq]
  | array s _, t, h => by
    cases t with
    | array t _ =>
      simp only [beq, Bool.and_eq_true, decide_eq_true_eq] at h
      rw [eq_of_beq h.1, h.2]
    | _ => simp [beq] at h
  | map s _, t, h => by
    cases t with
    | map t _ =>
      simp only [beq, Bool.and_eq_true, decide_eq_true_eq] at h
      rw [eq_of_beq h.1, h.2]
    | _ => simp [beq] at h
  | union ss, t, h => by
    cases t with
    | union ts => rw [show ss = ts from eq_of_beqList (by simpa [beq] using h)]
    | _ => simp [beq] at h
  | record _ _ fs, t, h => by
    cases t with
    | record _ _ gs =>
      simp only [beq, Bool.and_eq_true, decide_eq_true_eq, beq_iff_eq] at h
      rw [h.1.1, h.1.2, eq_of_beqFields h.2]
    | _ => simp [beq] at h
  | enum _ _ _, t, h => by cases t <;> simp_all [beq]
  | fixed _ _, t, h => by cases t <;> simp_all [beq]
  | ref _, t, h => by cases t <;> simp_all [beq]

theorem eq_of_beqList : ∀ {ss ts : List Schema}, beqList ss ts = true → ss = ts
  | [], ts, h => by cases ts <;> simp_all [beqList]
  | s :: ss, ts, h => by
    cases ts with
    | nil => simp [beqList] at h
    | cons t ts =>
      simp only [beqList, Bool.and_eq_true] at h
      rw [eq_of_beq h.1, eq_of_beqList h.2]

theorem eq_of_beqField : ∀ {f g : FieldOf Schema}, beqField f g = true → f = g
  | ⟨_, _, _, _, _, _, _⟩, g, h => by
    simp only [beqField, Bool.and_eq_true, decide_eq_true_eq] at h
    exact FieldOf.ext_label h.2 (eq_of_beq h.1)

theorem eq_of_beqFields : ∀ {fs gs : List (FieldOf Schema)}, beqFields fs gs = true → fs = gs
  | [], gs, h => by cases gs <;> simp_all [beqFields]
  | f :: fs, gs, h => by
    cases gs with
    | nil => simp [beqFields] at h
    | cons g gs =>
      simp only [beqFields, Bool.and_eq_true] at h
      rw [eq_of_beqField h.1, eq_of_beqFields h.2]

end

mutual

theorem beq_self : ∀ s : Schema, s.beq s = true
  | primitive _ _ => by simp [beq]
  | array s _ => by simp [beq, beq_self s]
  | map s _ => by simp [beq, beq_self s]
  | union ss => by simp [beq, beqList_self ss]
  | record _ _ fs => by simp [beq, beqFields_self fs]
  | enum _ _ _ => by simp [beq]
  | fixed _ _ => by simp [beq]
  | ref _ => by simp [beq]

theorem beqList_self : ∀ ss : List Schema, beqList ss ss = true
  | [] => rfl
  | s :: ss => by simp [beqList, beq_self s, beqList_self ss]

theorem beqField_self : ∀ f : FieldOf Schema, beqField f f = true
  | ⟨_, s, _, _, _, _, _⟩ => by simp [beqField, FieldOf.label, beq_self s]

theorem beqFields_self : ∀ fs : List (FieldOf Schema), beqFields fs fs = true
  | [] => rfl
  | f :: fs => by simp [beqFields, beqField_self f, beqFields_self fs]

end

instance : DecidableEq Schema := fun s t =>
  decidable_of_iff (s.beq t = true) ⟨eq_of_beq, fun h => h ▸ beq_self s⟩

end Schema

/-- Whether two optional values are both absent or both the same. -/
def sameOption : Option Json → Option Json → Bool
  | none, none => true
  | some first, some second => first.sameAs second
  | _, _ => false

namespace TypeHead

/-- Equality up to the order of extra attributes. -/
def sameAs (first second : TypeHead) : Bool :=
  decide ({ first with props := .empty } = { second with props := .empty })
    && first.props.sameAs second.props

end TypeHead

namespace Schema

mutual

/-- Equality up to the order of extra attributes and object members. -/
def sameAs : Schema → Schema → Bool
  | primitive k p, primitive k' p' => k == k' && p.sameAs p'
  | array s p, array s' p' => s.sameAs s' && p.sameAs p'
  | map s p, map s' p' => s.sameAs s' && p.sameAs p'
  | union ss, union ss' => sameList ss ss'
  | record h e fs, record h' e' fs' => h.sameAs h' && e == e' && sameFields fs fs'
  | enum h ss d, enum h' ss' d' => h.sameAs h' && ss == ss' && d == d'
  | fixed h n, fixed h' n' => h.sameAs h' && n == n'
  | ref n, ref n' => n == n'
  | _, _ => false
termination_by structural s => s

/-- `sameAs` member by member. -/
def sameList : List Schema → List Schema → Bool
  | [], [] => true
  | s :: ss, s' :: ss' => s.sameAs s' && sameList ss ss'
  | _, _ => false
termination_by structural ss => ss

/-- `sameAs` on the schemas of two fields, and on what they carry. -/
def sameField : FieldOf Schema → FieldOf Schema → Bool
  | ⟨n, s, v, d, o, a, p⟩, f =>
    n == f.name && s.sameAs f.schema && sameOption v f.defaultValue && d == f.doc
      && decide (o = f.order) && a == f.aliases && p.sameAs f.props
termination_by structural f => f

/-- `sameField` field by field. -/
def sameFields : List (FieldOf Schema) → List (FieldOf Schema) → Bool
  | [], [] => true
  | f :: fs, f' :: fs' => sameField f f' && sameFields fs fs'
  | _, _ => false
termination_by structural fs => fs

end

end Schema

end EventSchema
