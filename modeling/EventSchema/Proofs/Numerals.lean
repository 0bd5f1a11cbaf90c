import EventSchema.Json.Text
import EventSchema.Proofs.Rounding

/-!
# Numerals

A number that is not whole is written as a numeral: digits, followed by digits
after a point, by a power of ten, or by both.  A numeral can be taken apart in
one way only, and the decimal that it denotes rounds to one binary64 number
only, so different numbers have different texts.
-/

namespace EventSchema

/-! ## Where a row of characters ends -/

/-- A text that ends a row of characters of a kind: it does not start with one. -/
def Ends (p : Char → Bool) (s : List Char) : Prop :=
  ∀ c ∈ s.head?, p c = false

section Ends

variable {p : Char → Bool} {first second s t : List Char}

theorem takeWhile_append_of_ends (hfirst : ∀ c ∈ first, p c = true) (hs : Ends p s) :
    (first ++ s).takeWhile p = first := by
  rw [List.takeWhile_append_of_pos hfirst]
  cases s with
  | nil => simp
  | cons c rest => simp [hs c rfl]

/-- A row of characters of a kind is found again in front of a text that ends it. -/
theorem append_inj_of_ends (hfirst : ∀ c ∈ first, p c = true) (hsecond : ∀ c ∈ second, p c = true)
    (hs : Ends p s) (ht : Ends p t) (h : first ++ s = second ++ t) :
    first = second ∧ s = t := by
  have hrow : first = second := by
    rw [← takeWhile_append_of_ends hfirst hs, h, takeWhile_append_of_ends hsecond ht]
  subst hrow
  exact ⟨rfl, List.append_cancel_left h⟩

end Ends

/-- Whether a character can stand in the text of a number. -/
def isNumeral (c : Char) : Bool :=
  c.isDigit || c = '-' || c = '+' || c = '.' || c = 'e'

/-! ## Taking numerals apart -/

/-- The parts of the text of a number that is not whole. -/
structure Numeral where
  whole : List Char
  fraction : List Char
  power : Option Int
  whole_ne_nil : whole ≠ []
  isDigit_whole : ∀ c ∈ whole, c.isDigit = true
  isDigit_fraction : ∀ c ∈ fraction, c.isDigit = true
  marked : fraction = [] → power.isSome

namespace Numeral

/-- The digits after a point, which is left out with them. -/
def pointed (fraction : List Char) : List Char :=
  if fraction = [] then [] else '.' :: fraction

/-- A power of ten, if there is one. -/
def scaled : Option Int → List Char
  | none => []
  | some power => 'e' :: (if power < 0 then '-' else '+') :: Nat.toDigits 10 power.natAbs

/-- The text that a numeral is the parts of. -/
def chars (x : Numeral) : List Char :=
  x.whole ++ (pointed x.fraction ++ scaled x.power)

/-- The number that a numeral denotes. -/
def value (x : Numeral) : ℚ :=
  Nat.ofDigitChars 10 (x.whole ++ x.fraction) 0 * 10 ^ (x.power.getD 0 - x.fraction.length)

theorem value_eq {x : Numeral} {digits : ℕ} {exponent : ℤ}
    (hdigits : Nat.ofDigitChars 10 (x.whole ++ x.fraction) 0 = digits)
    (hexponent : x.power.getD 0 - x.fraction.length = exponent) :
    x.value = digits * 10 ^ exponent := by
  rw [value, hdigits, hexponent]

theorem toList_pointed (fraction : List Char) :
    (if (String.ofList fraction).isEmpty = true then ""
      else "." ++ String.ofList fraction).toList = pointed fraction := by
  by_cases hnil : fraction = []
  · simp [pointed, hnil]
  · simp [pointed, hnil]

theorem ends_scaled (power : Option Int) : Ends Char.isDigit (scaled power) := by
  cases power with
  | none => simp [Ends, scaled]
  | some power => simp [Ends, scaled]

theorem ends_pointed (fraction : List Char) (power : Option Int) :
    Ends Char.isDigit (pointed fraction ++ scaled power) := by
  rw [pointed]
  split_ifs
  · exact ends_scaled power
  · simp [Ends]

theorem toDigits_inj {m n : ℕ} (h : Nat.toDigits 10 m = Nat.toDigits 10 n) : m = n := by
  rw [← Nat.ofDigitChars_ten_toDigits (n := m), h, Nat.ofDigitChars_ten_toDigits]

theorem scaled_inj {first second : Option Int} (h : scaled first = scaled second) :
    first = second := by
  cases first with
  | none =>
      cases second with
      | none => rfl
      | some power => cases h
  | some power =>
      cases second with
      | none => cases h
      | some other =>
          rw [scaled, scaled, List.cons.injEq, List.cons.injEq] at h
          obtain ⟨-, hsign, hdigits⟩ := h
          have hmagnitude := toDigits_inj hdigits
          have hsame : power < 0 ↔ other < 0 := by
            split_ifs at hsign with hpower hother hother
            · exact iff_of_true hpower hother
            · exact absurd hsign (by decide)
            · exact absurd hsign (by decide)
            · exact iff_of_false hpower hother
          congr 1
          omega

theorem pointed_inj {first second : List Char} {power other : Option Int}
    (hfirst : ∀ c ∈ first, c.isDigit = true) (hsecond : ∀ c ∈ second, c.isDigit = true)
    (h : pointed first ++ scaled power = pointed second ++ scaled other) :
    first = second ∧ scaled power = scaled other := by
  have hmark : ∀ (power : Option Int) (s : List Char), scaled power ≠ '.' :: s := by
    intro power s
    cases power with
    | none => simp [scaled]
    | some power => simp [scaled]
  rw [pointed, pointed] at h
  split_ifs at h with hnil hnil' hnil'
  · exact ⟨hnil.trans hnil'.symm, h⟩
  · exact absurd h (hmark _ _)
  · exact absurd h.symm (hmark _ _)
  · rw [List.cons_append, List.cons_append, List.cons.injEq] at h
    exact append_inj_of_ends hfirst hsecond (ends_scaled power) (ends_scaled other) h.2

/-- A numeral is known from its text. -/
theorem eq_of_chars {x y : Numeral} (h : x.chars = y.chars) : x = y := by
  obtain ⟨hwhole, hrest⟩ := append_inj_of_ends x.isDigit_whole y.isDigit_whole
    (ends_pointed x.fraction x.power) (ends_pointed y.fraction y.power) h
  obtain ⟨hfraction, hscaled⟩ := pointed_inj x.isDigit_fraction y.isDigit_fraction hrest
  have hpower := scaled_inj hscaled
  cases x
  cases y
  cases hwhole
  cases hfraction
  cases hpower
  rfl

theorem isNumeral_of_isDigit {c : Char} (h : c.isDigit = true) : isNumeral c = true := by
  simp [isNumeral, h]

theorem isNumeral_of_mem_chars {x : Numeral} {c : Char} (h : c ∈ x.chars) : isNumeral c = true := by
  rw [chars, List.mem_append, List.mem_append] at h
  rcases h with hwhole | hpointed | hscaled
  · exact isNumeral_of_isDigit (x.isDigit_whole c hwhole)
  · rw [pointed] at hpointed
    split_ifs at hpointed with hnil
    · cases hpointed
    · rcases List.mem_cons.mp hpointed with rfl | hfraction
      · rfl
      · exact isNumeral_of_isDigit (x.isDigit_fraction c hfraction)
  · cases hpower : x.power with
    | none =>
        rw [hpower] at hscaled
        cases hscaled
    | some power =>
        rw [hpower, scaled, List.mem_cons, List.mem_cons] at hscaled
        rcases hscaled with rfl | rfl | hdigit
        · rfl
        · split_ifs <;> rfl
        · exact isNumeral_of_isDigit
            (Nat.isDigit_of_mem_toDigits (by norm_num) (by norm_num) hdigit)

/-- A point or a power of ten tells a numeral from the text of a whole number. -/
theorem mark_mem_chars (x : Numeral) : '.' ∈ x.chars ∨ 'e' ∈ x.chars := by
  rw [chars]
  by_cases hnil : x.fraction = []
  · obtain ⟨power, hpower⟩ := Option.isSome_iff_exists.mp (x.marked hnil)
    right
    simp [hpower, scaled]
  · left
    simp [pointed, hnil]

end Numeral

/-! ## The text of a decimal -/

theorem toList_pushn (s : String) (c : Char) (n : ℕ) :
    (s.pushn c n).toList = s.toList ++ List.replicate n c := by
  rw [String.pushn_eq_repeat_push]
  induction n with
  | zero => simp [Nat.repeat]
  | succ n ih =>
      rw [Nat.repeat, String.toList_push, ih, List.append_assoc, List.replicate_succ']

namespace Decimal

/-- The digits of a decimal. -/
def digitChars (x : Decimal) : List Char :=
  Nat.toDigits 10 x.digits

/-- A text is that of a numeral for a decimal. -/
def IsText (x : Decimal) (s : List Char) : Prop :=
  ∃ numeral : Numeral, numeral.chars = s ∧ numeral.value = x.value

section Layouts

variable {x : Decimal} {zeros point : ℕ}

theorem isDigit_of_mem_toDigits {n : ℕ} : ∀ c ∈ Nat.toDigits 10 n, c.isDigit = true :=
  fun _ h => Nat.isDigit_of_mem_toDigits (by norm_num) (by norm_num) h

theorem isDigit_of_mem_zeros : ∀ c ∈ List.replicate zeros '0', c.isDigit = true := by
  intro c h
  rw [List.eq_of_mem_replicate h]
  rfl

theorem isDigit_of_mem_digitChars : ∀ c ∈ x.digitChars, c.isDigit = true :=
  isDigit_of_mem_toDigits

theorem digitChars_ne_nil (x : Decimal) : x.digitChars ≠ [] :=
  Nat.toDigits_ne_nil

theorem ofDigitChars_digitChars (x : Decimal) : Nat.ofDigitChars 10 x.digitChars 0 = x.digits :=
  Nat.ofDigitChars_ten_toDigits

theorem toString_digits (x : Decimal) : toString x.digits = String.ofList x.digitChars :=
  Nat.toString_eq_ofList_toDigits

/-- The digits taken apart are the digits before and after a point. -/
theorem isText_of_split {power : Option ℤ} (hpos : 0 < point)
    (hmarked : x.digitChars.drop point = [] → power.isSome)
    (hpower : power.getD 0 - (x.digitChars.drop point).length = x.exponent) :
    x.IsText (x.digitChars.take point ++
      (Numeral.pointed (x.digitChars.drop point) ++ Numeral.scaled power)) := by
  have hwhole : x.digitChars.take point ≠ [] := by
    rw [Ne, List.take_eq_nil_iff, not_or]
    exact ⟨hpos.ne', x.digitChars_ne_nil⟩
  refine ⟨⟨x.digitChars.take point, x.digitChars.drop point, power, hwhole,
    fun c h => isDigit_of_mem_digitChars c (List.mem_of_mem_take h),
    fun c h => isDigit_of_mem_digitChars c (List.mem_of_mem_drop h), hmarked⟩, rfl, ?_⟩
  apply Numeral.value_eq
  · rw [List.take_append_drop, ofDigitChars_digitChars]
  · exact hpower

/-- All digits stand before the point, and zeros fill the places up to it. -/
theorem isText_whole (hzeros : x.exponent = zeros) :
    x.IsText (x.digitChars ++ List.replicate zeros '0' ++ ['.', '0']) := by
  refine ⟨⟨x.digitChars ++ List.replicate zeros '0', ['0'], none, by simp [digitChars_ne_nil],
    List.forall_mem_append.mpr ⟨isDigit_of_mem_digitChars, isDigit_of_mem_zeros⟩, by simp,
    by simp⟩, by simp [Numeral.chars, Numeral.pointed, Numeral.scaled], ?_⟩
  have hdigits : Nat.ofDigitChars 10 (x.digitChars ++ List.replicate zeros '0' ++ ['0']) 0 =
      10 * (10 ^ zeros * x.digits) := by
    rw [Nat.ofDigitChars_append, Nat.ofDigitChars_append, ofDigitChars_digitChars,
      Nat.ofDigitChars_replicate_zero]
    rfl
  rw [Numeral.value_eq hdigits rfl, value, hzeros, zpow_natCast]
  norm_num
  ring

/-- All digits stand after the point, and zeros fill the places down to it. -/
theorem isText_small (hzeros : x.digitChars.length + x.exponent = -(zeros : ℤ)) :
    x.IsText ('0' :: '.' :: (List.replicate zeros '0' ++ x.digitChars)) := by
  refine ⟨⟨['0'], List.replicate zeros '0' ++ x.digitChars, none, by simp, by simp,
    List.forall_mem_append.mpr ⟨isDigit_of_mem_zeros, isDigit_of_mem_digitChars⟩,
    by simp [digitChars_ne_nil]⟩,
    by simp [Numeral.chars, Numeral.pointed, Numeral.scaled, digitChars_ne_nil], ?_⟩
  apply Numeral.value_eq
  · change Nat.ofDigitChars 10 (List.replicate (zeros + 1) '0' ++ x.digitChars) 0 = x.digits
    rw [Nat.ofDigitChars_append, Nat.ofDigitChars_replicate_zero, Nat.mul_zero,
      ofDigitChars_digitChars]
  · rw [Option.getD_none, List.length_append, List.length_replicate]
    omega

end Layouts

section Texts

variable {layout : NumberLayout} {x : Decimal}

/-- The text of a decimal is a numeral for it in every layout. -/
theorem isText_text (layout : NumberLayout) (x : Decimal) : x.IsText (x.text layout).toList := by
  rw [text, toString_digits, String.length_ofList, String.toList_ofList]
  dsimp only
  split
  next hwhole =>
    obtain ⟨zeros, hzeros⟩ := Int.eq_ofNat_of_zero_le hwhole.1
    have htext := isText_whole hzeros
    simpa [toList_pushn, hzeros] using htext
  next =>
    split
    next hinside =>
      obtain ⟨point, hpoint⟩ := Int.eq_ofNat_of_zero_le hinside.1.le
      have hdrop : x.digitChars.drop point ≠ [] := by
        apply List.ne_nil_of_length_pos
        rw [List.length_drop]
        omega
      have htext := @isText_of_split x point none (by omega) (fun hnil => absurd hnil hdrop) (by
        rw [Option.getD_none, List.length_drop]
        omega)
      rw [Numeral.pointed, if_neg hdrop] at htext
      simpa [Numeral.scaled, hpoint] using htext
    next =>
      split
      next hsmall =>
        obtain ⟨zeros, hzeros⟩ := Int.eq_ofNat_of_zero_le (neg_nonneg.mpr hsmall.2)
        have htext := @isText_small x zeros (by omega)
        rw [hzeros]
        simpa [toList_pushn] using htext
      next =>
        have hpos : 0 < x.digitChars.length := List.length_pos_of_ne_nil x.digitChars_ne_nil
        set power := (x.digitChars.length : ℤ) + x.exponent - 1 with hpower
        have htext := @isText_of_split x 1 (some power) one_pos (fun _ => rfl) (by
          rw [Option.getD_some, List.length_drop]
          omega)
        have hsign : (if power < 0 then "-" else "+").toList =
            [if power < 0 then '-' else '+'] := by
          split_ifs <;> rfl
        simp only [String.toList_append, String.toList_ofList, Numeral.toList_pointed, hsign,
          Nat.toString_eq_repr, Nat.toList_repr, List.append_assoc]
        exact htext

theorem value_eq_of_text {y : Decimal} (h : x.text layout = y.text layout) : x.value = y.value := by
  obtain ⟨numeral, hchars, hvalue⟩ := isText_text layout x
  obtain ⟨numeral', hchars', hvalue'⟩ := isText_text layout y
  have hsame : numeral = numeral' := Numeral.eq_of_chars (by rw [hchars, h, hchars'])
  rw [← hvalue, hsame, hvalue']

/-- The text of a decimal starts with a digit. -/
theorem text_ne_minus (layout : NumberLayout) (x : Decimal) (s : List Char) :
    (x.text layout).toList ≠ '-' :: s := by
  obtain ⟨numeral, hchars, -⟩ := isText_text layout x
  obtain ⟨c, rest, hwhole⟩ := List.exists_cons_of_ne_nil numeral.whole_ne_nil
  have hdigit : c.isDigit = true := numeral.isDigit_whole c (by simp [hwhole])
  intro h
  rw [← hchars, Numeral.chars, hwhole, List.cons_append, List.cons.injEq] at h
  rw [h.1] at hdigit
  exact absurd hdigit (by decide)

end Texts

end Decimal

/-! ## The text of a number -/

/-- Different binary64 numbers have different texts. -/
theorem Double.eq_of_text {x y : Double} (h : x.text = y.text) : x = y := by
  have hlist := congrArg String.toList h
  rw [text, text, String.toList_append, String.toList_append] at hlist
  -- The sign is seen from the text, since a decimal starts with a digit.
  have hsame : x.isNegative = y.isNegative ∧ x.shortest.text .plain = y.shortest.text .plain := by
    cases hx : x.isNegative with
    | false =>
        cases hy : y.isNegative with
        | false =>
            rw [hx, hy] at hlist
            exact ⟨rfl, String.toList_inj.mp hlist⟩
        | true =>
            rw [hx, hy] at hlist
            exact absurd hlist (Decimal.text_ne_minus _ _ _)
    | true =>
        cases hy : y.isNegative with
        | false =>
            rw [hx, hy] at hlist
            exact absurd hlist.symm (Decimal.text_ne_minus _ _ _)
        | true =>
            rw [hx, hy] at hlist
            exact ⟨rfl, String.toList_inj.mp (List.append_cancel_left hlist)⟩
  -- Both numbers are the one that the decimal rounds to.
  have hvalue := Decimal.value_eq_of_text hsame.2
  refine eq_of_unsignedBits hsame.1 (Near.unsignedBits_eq x.near_shortest ?_)
  rw [hvalue]
  exact y.near_shortest

namespace Number

variable {x y : Number} {c : Char}

theorem isDigit_or_minus_of_mem_text {value : ℤ} (h : c ∈ (integer value).text.toList) :
    c.isDigit = true ∨ c = '-' := by
  rw [text, Int.toString_eq_repr, Int.repr_eq_if] at h
  split_ifs at h
  · rw [Nat.toList_repr] at h
    exact .inl (Decimal.isDigit_of_mem_toDigits c h)
  · rw [String.toList_append, Nat.toList_repr] at h
    rcases List.mem_append.mp h with hminus | hdigit
    · exact .inr (List.mem_singleton.mp hminus)
    · exact .inl (Decimal.isDigit_of_mem_toDigits c hdigit)

theorem toDigits_ne_minus (n : ℕ) (s : List Char) : Nat.toDigits 10 n ≠ '-' :: s := by
  intro h
  have hdigit : Char.isDigit '-' = true := Decimal.isDigit_of_mem_toDigits _ (by rw [h]; simp)
  exact absurd hdigit (by decide)

theorem eq_of_text_integer {value other : ℤ} (h : (integer value).text = (integer other).text) :
    value = other := by
  have hlist := congrArg String.toList h
  rw [text, text, Int.toString_eq_repr, Int.toString_eq_repr, Int.repr_eq_if,
    Int.repr_eq_if] at hlist
  split_ifs at hlist with hvalue hother hother
  · rw [Nat.toList_repr, Nat.toList_repr] at hlist
    have hmagnitude := Numeral.toDigits_inj hlist
    omega
  · rw [String.toList_append, Nat.toList_repr, Nat.toList_repr] at hlist
    exact absurd hlist (toDigits_ne_minus _ _)
  · rw [String.toList_append, Nat.toList_repr, Nat.toList_repr] at hlist
    exact absurd hlist.symm (toDigits_ne_minus _ _)
  · rw [String.toList_append, String.toList_append, Nat.toList_repr, Nat.toList_repr] at hlist
    have hmagnitude := Numeral.toDigits_inj (List.append_cancel_left hlist)
    omega

theorem text_integer_ne_text_double (value : ℤ) (other : Double) :
    (integer value).text ≠ (double other).text := by
  obtain ⟨numeral, hchars, -⟩ := Decimal.isText_text .plain other.shortest
  intro h
  have hmem : ∀ c ∈ numeral.chars, c ∈ (integer value).text.toList := by
    intro c hc
    rw [h, text, Double.text, String.toList_append, ← hchars]
    exact List.mem_append_right _ hc
  rcases numeral.mark_mem_chars with hpoint | hpower
  · exact absurd (isDigit_or_minus_of_mem_text (hmem _ hpoint)) (by decide)
  · exact absurd (isDigit_or_minus_of_mem_text (hmem _ hpower)) (by decide)

/-- Different numbers have different texts. -/
theorem eq_of_text (h : x.text = y.text) : x = y := by
  cases x with
  | integer value =>
      cases y with
      | integer other => rw [eq_of_text_integer h]
      | double other => exact absurd h (text_integer_ne_text_double value other)
  | double value =>
      cases y with
      | integer other => exact absurd h.symm (text_integer_ne_text_double other value)
      | double other => rw [Double.eq_of_text h]

theorem isNumeral_of_mem_text (h : c ∈ x.text.toList) : isNumeral c = true := by
  cases x with
  | integer value =>
      rcases isDigit_or_minus_of_mem_text h with hdigit | rfl
      · exact Numeral.isNumeral_of_isDigit hdigit
      · rfl
  | double value =>
      obtain ⟨numeral, hchars, -⟩ := Decimal.isText_text .plain value.shortest
      rw [text, Double.text, String.toList_append, ← hchars, List.mem_append] at h
      rcases h with hsign | hc
      · split_ifs at hsign
        · rw [List.mem_singleton.mp hsign]
          rfl
        · cases hsign
      · exact Numeral.isNumeral_of_mem_chars hc

theorem toList_text_ne_nil (x : Number) : x.text.toList ≠ [] := by
  cases x with
  | integer value =>
      rw [text, Int.toString_eq_repr, Int.repr_eq_if]
      split_ifs
      · rw [Nat.toList_repr]
        exact Nat.toDigits_ne_nil
      · simp
  | double value =>
      obtain ⟨numeral, hchars, -⟩ := Decimal.isText_text .plain value.shortest
      rw [text, Double.text, String.toList_append, ← hchars]
      simp [Numeral.chars, numeral.whole_ne_nil]

end Number

end EventSchema
