import EventSchema.Json.Shortest
import Mathlib.Algebra.Order.Field.Power
import Mathlib.Algebra.Order.Field.Rat
import Mathlib.Data.Nat.Cast.Order.Field
import Mathlib.Tactic.Linarith
import Mathlib.Tactic.NormNum
import Mathlib.Tactic.Positivity
import Mathlib.Tactic.Ring

/-!
# Decimals that round to a binary64 number

Every binary64 number has an interval of decimals that round to it, which ends
halfway to the numbers next to it and holds its ends if the number is even.  The
intervals of different numbers lie apart, and the decimal by which a number is
written lies in its own: seventeen digits are enough for that.
-/

namespace EventSchema

/-- The number that a decimal denotes. -/
def Decimal.value (x : Decimal) : ℚ :=
  x.digits * 10 ^ x.exponent

namespace Double

/-! ## Intervals -/

/-- A quarter of the distance to the next number. -/
def quarter (x : Double) : ℚ :=
  2 ^ (x.scale - 2)

/-- How many quarters the interval of a number reaches below it: one if the number below is half as
far away as the one above. -/
def below (x : Double) : ℕ :=
  if x.significand = Nat.pow 2 52 ∧ x.scale > -1074 then 1 else 2

/-- The numbers that round to the magnitude of a binary64 number, ties going to the even one. -/
structure Near (x : Double) (value : ℚ) : Prop where
  low : (4 * x.significand - x.below : ℚ) * x.quarter ≤ value
  high : value ≤ (4 * x.significand + 2) * x.quarter
  inside : x.significand % 2 = 1 →
    (4 * x.significand - x.below : ℚ) * x.quarter < value ∧
      value < (4 * x.significand + 2) * x.quarter

/-- All bits but the sign. -/
def unsignedBits (x : Double) : ℕ :=
  x.bits.toNat % 2 ^ 63

section Order

variable {x y : Double} {first second : ℚ}

theorem quarter_pos (x : Double) : 0 < x.quarter := by
  rw [quarter]
  positivity

theorem below_le (x : Double) : (x.below : ℚ) ≤ 2 := by
  rw [below]
  split_ifs <;> norm_num

/-- The fields that the bits of a number consist of, and what they stand for. -/
theorem exists_fields (x : Double) : ∃ stored fraction : ℕ, fraction < 2 ^ 52 ∧
    x.unsignedBits = stored * 2 ^ 52 + fraction ∧
    x.significand = (if stored = 0 then fraction else fraction + 2 ^ 52) ∧
    x.scale = if stored = 0 then -1074 else (stored : ℤ) - 1075 := by
  refine ⟨x.bits.toNat / 2 ^ 52 % 2 ^ 11, x.bits.toNat % 2 ^ 52, Nat.mod_lt _ (by norm_num), ?_,
    rfl, rfl⟩
  rw [unsignedBits]
  omega

theorem significand_lt (x : Double) : x.significand < 2 ^ 53 := by
  obtain ⟨stored, fraction, hfraction, -, hsignificand, -⟩ := exists_fields x
  rw [hsignificand]
  split_ifs <;> omega

theorem scale_le_of_lt (h : x.unsignedBits < y.unsignedBits) : x.scale ≤ y.scale := by
  obtain ⟨stored, fraction, hfraction, hbits, -, hscale⟩ := exists_fields x
  obtain ⟨stored', fraction', hfraction', hbits', -, hscale'⟩ := exists_fields y
  rw [hscale, hscale']
  split_ifs <;> omega

theorem significand_lt_of_lt (h : x.unsignedBits < y.unsignedBits) (hsame : x.scale = y.scale) :
    x.significand < y.significand := by
  obtain ⟨stored, fraction, hfraction, hbits, hsignificand, hscale⟩ := exists_fields x
  obtain ⟨stored', fraction', hfraction', hbits', hsignificand', hscale'⟩ := exists_fields y
  rw [hscale, hscale'] at hsame
  rw [hsignificand, hsignificand']
  split_ifs at hsame ⊢ <;> omega

/-- Of two numbers of different scales, the greater one has all its digits. -/
theorem le_significand_of_lt (h : x.scale < y.scale) : 2 ^ 52 ≤ y.significand := by
  obtain ⟨stored, fraction, hfraction, -, -, hscale⟩ := exists_fields x
  obtain ⟨stored', fraction', hfraction', -, hsignificand', hscale'⟩ := exists_fields y
  rw [hscale, hscale'] at h
  rw [hsignificand']
  split_ifs at h ⊢ <;> omega

theorem low_le_of_lt (h : x.scale < y.scale) :
    (2 ^ 54 - 1 : ℚ) ≤ 4 * y.significand - y.below := by
  obtain ⟨stored, fraction, -, -, -, hscale⟩ := exists_fields x
  have hnormal : y.scale > -1074 := by
    rw [hscale] at h
    split_ifs at h <;> omega
  have hleast := le_significand_of_lt h
  by_cases hedge : y.significand = 2 ^ 52
  · rw [below, if_pos ⟨hedge, hnormal⟩, hedge]
    norm_num
  · have hnext : (2 ^ 52 : ℚ) + 1 ≤ y.significand := by
      have hnext : 2 ^ 52 + 1 ≤ y.significand := by omega
      exact_mod_cast hnext
    have hbelow := y.below_le
    linarith

/-- The interval of one number ends where that of another begins, or before it if both are even. -/
structure Apart (x y : Double) : Prop where
  le : (4 * x.significand + 2 : ℚ) * x.quarter ≤ (4 * y.significand - y.below) * y.quarter
  lt : x.significand % 2 = 0 → y.significand % 2 = 0 →
    (4 * x.significand + 2 : ℚ) * x.quarter < (4 * y.significand - y.below) * y.quarter

theorem apart_of_scale_eq (hscale : x.scale = y.scale) (h : x.significand < y.significand) :
    Apart x y := by
  have hpos := x.quarter_pos
  have hbelow := y.below_le
  have hquarter : y.quarter = x.quarter := by rw [quarter, ← hscale, quarter]
  constructor
  · have hnext : (x.significand : ℚ) + 1 ≤ y.significand := by exact_mod_cast h
    rw [hquarter]
    apply mul_le_mul_of_nonneg_right _ hpos.le
    linarith
  · intro heven heven'
    have hnext : (x.significand : ℚ) + 2 ≤ y.significand := by
      have hnext : x.significand + 2 ≤ y.significand := by omega
      exact_mod_cast hnext
    rw [hquarter]
    apply mul_lt_mul_of_pos_right _ hpos
    linarith

theorem apart_of_scale_lt (h : x.scale < y.scale) : Apart x y := by
  have hpos := x.quarter_pos
  have hbound := x.significand_lt
  have hlow := low_le_of_lt h
  have hdouble : 2 * x.quarter ≤ y.quarter := by
    rw [quarter, quarter, ← zpow_one_add₀ two_ne_zero]
    exact zpow_le_zpow_right₀ one_le_two (by omega)
  -- A number of a smaller scale has digits below 2 ^ 53, each worth at most half as much.
  have hlower : (2 ^ 55 - 2 : ℚ) * x.quarter ≤ (4 * y.significand - y.below) * y.quarter := by
    calc (2 ^ 55 - 2 : ℚ) * x.quarter = (2 ^ 54 - 1) * (2 * x.quarter) := by ring
      _ ≤ (4 * y.significand - y.below) * y.quarter := by
        apply mul_le_mul hlow hdouble (by positivity)
        exact le_trans (by norm_num) hlow
  constructor
  · have hnext : (x.significand : ℚ) + 1 ≤ 2 ^ 53 := by exact_mod_cast hbound
    refine le_trans ?_ hlower
    apply mul_le_mul_of_nonneg_right _ hpos.le
    linarith
  · intro heven _
    have hnext : (x.significand : ℚ) + 2 ≤ 2 ^ 53 := by
      have hnext : x.significand + 2 ≤ 2 ^ 53 := by omega
      exact_mod_cast hnext
    refine lt_of_lt_of_le ?_ hlower
    apply mul_lt_mul_of_pos_right _ hpos
    linarith

theorem apart_of_lt (h : x.unsignedBits < y.unsignedBits) : Apart x y := by
  rcases (scale_le_of_lt h).eq_or_lt with hscale | hscale
  · exact apart_of_scale_eq hscale (significand_lt_of_lt h hscale)
  · exact apart_of_scale_lt hscale

theorem near_of_lt (hlow : (4 * x.significand - x.below : ℚ) * x.quarter < first)
    (hhigh : first < (4 * x.significand + 2) * x.quarter) : x.Near first :=
  ⟨hlow.le, hhigh.le, fun _ => ⟨hlow, hhigh⟩⟩

/-- The decimals that round to a number are less than those that round to a greater one. -/
theorem Near.lt (hx : x.Near first) (hy : y.Near second) (h : x.unsignedBits < y.unsignedBits) :
    first < second := by
  obtain ⟨hle, hlt⟩ := apart_of_lt h
  rcases Nat.mod_two_eq_zero_or_one x.significand with heven | hodd
  · rcases Nat.mod_two_eq_zero_or_one y.significand with heven' | hodd'
    · exact lt_of_le_of_lt hx.high (lt_of_lt_of_le (hlt heven heven') hy.low)
    · exact lt_of_le_of_lt hx.high (lt_of_le_of_lt hle (hy.inside hodd').1)
  · exact lt_of_lt_of_le (hx.inside hodd).2 (le_trans hle hy.low)

/-- A decimal rounds to one magnitude only. -/
theorem Near.unsignedBits_eq (hx : x.Near first) (hy : y.Near first) :
    x.unsignedBits = y.unsignedBits := by
  rcases lt_trichotomy x.unsignedBits y.unsignedBits with hlt | heq | hgt
  · exact absurd (hx.lt hy hlt) (lt_irrefl first)
  · exact heq
  · exact absurd (hy.lt hx hgt) (lt_irrefl first)

/-- The sign and the other bits make up a number. -/
theorem eq_of_unsignedBits (hsign : x.isNegative = y.isNegative)
    (hbits : x.unsignedBits = y.unsignedBits) : x = y := by
  have hx := x.bits.toNat_lt
  have hy := y.bits.toNat_lt
  have hsame : x.bits.toNat = y.bits.toNat := by
    simp only [isNegative, Nat.pow_eq, decide_eq_decide] at hsign
    simp only [unsignedBits] at hbits
    omega
  cases x
  cases y
  exact congrArg Double.mk (UInt64.toNat_inj.mp hsame)

end Order

/-! ## Decimals in an interval -/

theorem powerFraction_pos {base : ℕ} (hbase : 0 < base) (exponent : ℤ) :
    0 < (powerFraction base exponent).1 ∧ 0 < (powerFraction base exponent).2 := by
  rw [powerFraction]
  split_ifs
  · exact ⟨Nat.pow_pos hbase, one_pos⟩
  · exact ⟨one_pos, Nat.pow_pos hbase⟩

/-- A power is the fraction that it is worked with as. -/
theorem zpow_mul_powerFraction {base : ℕ} (hbase : 0 < base) (exponent : ℤ) :
    (base : ℚ) ^ exponent * (powerFraction base exponent).2 = (powerFraction base exponent).1 := by
  have hne : (base : ℚ) ≠ 0 := Nat.cast_ne_zero.mpr hbase.ne'
  rw [powerFraction]
  split_ifs with hsign
  · obtain ⟨power, rfl⟩ := Int.eq_ofNat_of_zero_le hsign
    simp
  · obtain ⟨power, hpower⟩ := Int.eq_ofNat_of_zero_le (show 0 ≤ -exponent by omega)
    have hexponent : exponent = -(power : ℤ) := by omega
    rw [hexponent, neg_neg, zpow_neg, zpow_natCast]
    simp [hne]

section Interval

variable {x : Double} {digits : ℕ} {exponent : ℤ}

/-- A bound of the interval and a decimal, both over one denominator. -/
theorem exists_scaled (x : Double) (bound digits : ℕ) (exponent : ℤ) : ∃ c : ℚ, 0 < c ∧
    ((bound * (powerFraction 2 (x.scale - 2)).1 * (powerFraction 10 exponent).2 : ℕ) : ℚ) =
      bound * x.quarter * c ∧
    ((digits * (powerFraction 10 exponent).1 * (powerFraction 2 (x.scale - 2)).2 : ℕ) : ℚ) =
      digits * 10 ^ exponent * c := by
  have htwo := zpow_mul_powerFraction (show 0 < 2 by norm_num) (x.scale - 2)
  have hten := zpow_mul_powerFraction (show 0 < 10 by norm_num) exponent
  have hpos : 0 < (powerFraction 2 (x.scale - 2)).2 * (powerFraction 10 exponent).2 :=
    Nat.mul_pos (powerFraction_pos (by norm_num) _).2 (powerFraction_pos (by norm_num) _).2
  push_cast at htwo hten
  refine ⟨_, Nat.cast_pos.mpr hpos, ?_, ?_⟩
  · push_cast
    rw [← htwo, quarter]
    ring
  · push_cast
    rw [← hten]
    ring

theorem scaled_le_iff {bound : ℕ} :
    bound * (powerFraction 2 (x.scale - 2)).1 * (powerFraction 10 exponent).2 ≤
        digits * (powerFraction 10 exponent).1 * (powerFraction 2 (x.scale - 2)).2 ↔
      (bound : ℚ) * x.quarter ≤ digits * 10 ^ exponent := by
  obtain ⟨c, hc, hbound, hdigits⟩ := exists_scaled x bound digits exponent
  rw [← Nat.cast_le (α := ℚ), hbound, hdigits, mul_le_mul_iff_left₀ hc]

theorem le_scaled_iff {bound : ℕ} :
    digits * (powerFraction 10 exponent).1 * (powerFraction 2 (x.scale - 2)).2 ≤
        bound * (powerFraction 2 (x.scale - 2)).1 * (powerFraction 10 exponent).2 ↔
      digits * 10 ^ exponent ≤ (bound : ℚ) * x.quarter := by
  obtain ⟨c, hc, hbound, hdigits⟩ := exists_scaled x bound digits exponent
  rw [← Nat.cast_le (α := ℚ), hbound, hdigits, mul_le_mul_iff_left₀ hc]

/-- A decimal lies in the interval that is worked with exactly if it rounds to the number. -/
theorem holds_iff (hx : x.significand ≠ 0) :
    x.interval.holds digits exponent = true ↔ x.Near (digits * 10 ^ exponent) := by
  have hbelow : x.below ≤ 4 * x.significand := by
    rw [below]
    split_ifs <;> omega
  have hlow : ((4 * x.significand - x.below : ℕ) : ℚ) = 4 * x.significand - x.below := by
    rw [Nat.cast_sub hbelow]
    norm_num
  have hhigh : ((4 * x.significand + 2 : ℕ) : ℚ) = 4 * x.significand + 2 := by norm_num
  -- An odd number lies strictly inside, so each bound is needed as it is and negated.
  have hle := @scaled_le_iff x digits exponent (4 * x.significand - x.below)
  have hge := @le_scaled_iff x digits exponent (4 * x.significand + 2)
  have hlt := not_congr (@le_scaled_iff x digits exponent (4 * x.significand - x.below))
  have hgt := not_congr (@scaled_le_iff x digits exponent (4 * x.significand + 2))
  rw [hlow] at hle hlt
  rw [hhigh] at hge hgt
  rw [not_le, not_le] at hlt hgt
  rw [Interval.holds, interval]
  dsimp only
  rw [← below]
  rcases Nat.mod_two_eq_zero_or_one x.significand with heven | hodd
  · rw [if_pos (decide_eq_true heven), Bool.and_eq_true, decide_eq_true_eq, decide_eq_true_eq, hle,
      hge]
    constructor
    · rintro ⟨hlower, hupper⟩
      exact ⟨hlower, hupper, fun hodd => absurd (heven.symm.trans hodd) zero_ne_one⟩
    · intro hnear
      exact ⟨hnear.low, hnear.high⟩
  · rw [if_neg (by simp [hodd]), Bool.and_eq_true, decide_eq_true_eq, decide_eq_true_eq, hlt, hgt]
    constructor
    · rintro ⟨hlower, hupper⟩
      exact ⟨hlower.le, hupper.le, fun _ => ⟨hlower, hupper⟩⟩
    · intro hnear
      exact hnear.inside hodd

theorem roundQuotient_cases (num den : ℕ) :
    roundQuotient num den = num / den ∨ roundQuotient num den = num / den + 1 := by
  rw [roundQuotient]
  split_ifs <;> simp

/-- What is found on a grid lies in the interval. -/
theorem holds_of_nearest {i : Interval} (h : i.nearest exponent = some digits) :
    i.holds digits exponent = true := by
  rw [Interval.nearest] at h
  dsimp only at h
  split at h
  next hfloor hnext =>
    cases h
    rcases roundQuotient_cases (i.num * (powerFraction 10 exponent).2)
      (i.den * (powerFraction 10 exponent).1) with hround | hround
    · rwa [hround]
    · rwa [hround]
  next hfloor _ =>
    cases h
    exact hfloor
  next _ hnext =>
    cases h
    exact hnext
  next => cases h

/-- The number lies between a point of a grid and the next one. -/
theorem floor_le_and_lt (x : Double) (exponent : ℤ) :
    let floor := x.interval.num * (powerFraction 10 exponent).2 /
      (x.interval.den * (powerFraction 10 exponent).1)
    (floor : ℚ) * 10 ^ exponent ≤ 4 * x.significand * x.quarter ∧
      4 * x.significand * x.quarter < (floor + 1) * 10 ^ exponent := by
  intro floor
  have hden : 0 < x.interval.den * (powerFraction 10 exponent).1 :=
    Nat.mul_pos (powerFraction_pos (by norm_num) _).2 (powerFraction_pos (by norm_num) _).1
  have hswap : ∀ digits,
      digits * (powerFraction 10 exponent).1 * (powerFraction 2 (x.scale - 2)).2 =
        digits * (x.interval.den * (powerFraction 10 exponent).1) := by
    intro digits
    rw [mul_assoc, mul_comm (powerFraction 10 exponent).1]
    rfl
  have hlower : (floor : ℚ) * 10 ^ exponent ≤ (4 * x.significand : ℕ) * x.quarter := by
    rw [← le_scaled_iff, hswap]
    exact Nat.div_mul_le_self _ _
  have hupper : ((4 * x.significand : ℕ) : ℚ) * x.quarter <
      ((floor + 1 : ℕ) : ℚ) * 10 ^ exponent := by
    rw [← not_le, ← le_scaled_iff, hswap, not_le]
    exact Nat.lt_mul_of_div_lt (Nat.lt_succ_self floor) hden
  push_cast at hlower hupper
  exact ⟨hlower, hupper⟩

/-- On a grid that is finer than the interval, a point of the interval is found. -/
theorem exists_nearest (hx : x.significand ≠ 0)
    (hgrid : (10 : ℚ) ^ exponent < (2 + x.below) * x.quarter) :
    ∃ digits, x.interval.nearest exponent = some digits := by
  obtain ⟨hlower, hupper⟩ := floor_le_and_lt x exponent
  rw [Interval.nearest]
  dsimp only
  set floor := x.interval.num * (powerFraction 10 exponent).2 /
    (x.interval.den * (powerFraction 10 exponent).1)
  have hpos := x.quarter_pos
  have hpoint : x.interval.holds floor exponent = true ∨
      x.interval.holds (floor + 1) exponent = true := by
    rw [holds_iff hx, holds_iff hx]
    by_cases hinside : (4 * x.significand - x.below : ℚ) * x.quarter < floor * 10 ^ exponent
    · have hhigh : (floor : ℚ) * 10 ^ exponent < (4 * x.significand + 2) * x.quarter := by
        linarith
      exact .inl (near_of_lt hinside hhigh)
    · have hbelow : (0 : ℚ) ≤ x.below * x.quarter := by positivity
      have hlow : (4 * x.significand - x.below : ℚ) * x.quarter <
          ((floor + 1 : ℕ) : ℚ) * 10 ^ exponent := by
        push_cast
        linarith
      have hhigh : ((floor + 1 : ℕ) : ℚ) * 10 ^ exponent < (4 * x.significand + 2) * x.quarter := by
        push_cast
        linarith
      exact .inr (near_of_lt hlow hhigh)
  rcases hpoint with hpoint | hpoint
  · rw [hpoint]
    cases x.interval.holds (floor + 1) exponent <;> exact ⟨_, rfl⟩
  · rw [hpoint]
    cases x.interval.holds floor exponent <;> exact ⟨_, rfl⟩

/-- A number is at least the power of ten that its first digit stands for. -/
theorem pow_decimalLength_le {n : ℕ} (h : n ≠ 0) : 10 ^ (decimalLength n - 1) ≤ n := by
  rw [decimalLength, if_neg h]
  by_cases hone : (Nat.toDigits 10 n).length = 1
  · rw [hone]
    exact Nat.one_le_iff_ne_zero.mpr h
  · have hpos : 0 < (Nat.toDigits 10 n).length := Nat.length_toDigits_pos
    rw [← not_lt, ← Nat.length_toDigits_le_iff (by norm_num) (by omega)]
    omega

/-- Every number but zero has a digit within enough places after the point. -/
theorem den_interval_le (hx : x.significand ≠ 0) {places : ℕ} (hplaces : 1077 ≤ 3 * places) :
    x.interval.den ≤ x.interval.num * Nat.pow 10 places := by
  have hnum : 0 < x.interval.num := by
    refine Nat.mul_pos (Nat.mul_pos (by norm_num) (Nat.pos_of_ne_zero hx)) ?_
    exact (powerFraction_pos (by norm_num) _).1
  have hden : x.interval.den ≤ 2 ^ (3 * places) := by
    obtain ⟨stored, fraction, -, -, -, hscale⟩ := exists_fields x
    change (powerFraction 2 (x.scale - 2)).2 ≤ 2 ^ (3 * places)
    rw [powerFraction]
    split_ifs
    · exact Nat.one_le_two_pow
    · apply Nat.pow_le_pow_right (by norm_num)
      rw [hscale]
      split_ifs <;> omega
  calc x.interval.den ≤ 2 ^ (3 * places) := hden
    _ = (2 ^ 3) ^ places := pow_mul 2 3 places
    _ ≤ 10 ^ places := Nat.pow_le_pow_left (by norm_num) places
    _ ≤ x.interval.num * 10 ^ places := Nat.le_mul_of_pos_left _ hnum

/-- The number is at least the power of ten that its first digit stands for, as long as it is
scaled by enough places for that. -/
theorem pow_firstDigit_le (hx : x.significand ≠ 0) {places : ℕ} (hplaces : 1077 ≤ 3 * places) :
    (10 : ℚ) ^ ((decimalLength (x.interval.num * Nat.pow 10 places / x.interval.den) : ℤ) - places -
      1) ≤ 4 * x.significand * x.quarter := by
  set scaled := x.interval.num * Nat.pow 10 places / x.interval.den with hscaled
  have hvalue : (scaled : ℚ) ≤ 4 * x.significand * x.quarter * 10 ^ places := by
    have hden : (0 : ℚ) < x.interval.den := Nat.cast_pos.mpr (powerFraction_pos (by norm_num) _).2
    have hnum : (x.interval.num : ℚ) = 4 * x.significand * x.quarter * x.interval.den := by
      have htwo := zpow_mul_powerFraction (show 0 < 2 by norm_num) (x.scale - 2)
      push_cast at htwo
      rw [interval]
      dsimp only
      push_cast
      rw [← htwo, quarter]
      ring
    have hfloor : (scaled : ℚ) * x.interval.den ≤ x.interval.num * 10 ^ places := by
      exact_mod_cast Nat.div_mul_le_self (x.interval.num * Nat.pow 10 places) x.interval.den
    rw [hnum] at hfloor
    refine le_of_mul_le_mul_right (le_of_le_of_eq hfloor ?_) hden
    ring
  have hne : scaled ≠ 0 := by
    rw [hscaled]
    exact (Nat.div_pos (den_interval_le hx hplaces) (powerFraction_pos (by norm_num) _).2).ne'
  have hlength : 0 < decimalLength scaled := by
    rw [decimalLength, if_neg hne]
    exact Nat.length_toDigits_pos
  have hsplit : (10 : ℚ) ^ ((decimalLength scaled : ℤ) - places - 1) * 10 ^ places =
      (10 ^ (decimalLength scaled - 1) : ℕ) := by
    rw [← zpow_natCast, ← zpow_add₀ (by norm_num)]
    push_cast
    rw [← zpow_natCast]
    congr 1
    omega
  refine le_of_mul_le_mul_right ?_ (show (0 : ℚ) < 10 ^ places by positivity)
  rw [hsplit]
  exact le_trans (Nat.cast_le.mpr (pow_decimalLength_le hne)) hvalue

/-- Seventeen digits are enough: with as many, the grid is finer than the interval. -/
theorem grid_lt (hx : x.significand ≠ 0) :
    (10 : ℚ) ^ (x.interval.pointPlace - 17) < (2 + x.below) * x.quarter := by
  -- The number of places gets a name, so that no power is computed.
  obtain ⟨places, hplaces⟩ : ∃ places, places = 400 := ⟨_, rfl⟩
  have hplace : x.interval.pointPlace =
      decimalLength (x.interval.num * Nat.pow 10 places / x.interval.den) - places := by
    rw [Interval.pointPlace, ← hplaces]
    omega
  have hfirst : (10 : ℚ) ^ (x.interval.pointPlace - 1) ≤ 4 * x.significand * x.quarter := by
    rw [hplace]
    exact pow_firstDigit_le hx (by omega)
  have hwide : (4 * x.significand : ℚ) < (2 + x.below) * 10 ^ 16 := by
    rw [below]
    split_ifs with hedge
    · rw [hedge.1]
      norm_num
    · have hbound : (x.significand : ℚ) < 2 ^ 53 := by exact_mod_cast x.significand_lt
      push_cast
      linarith
  have hsplit : (10 : ℚ) ^ (x.interval.pointPlace - 17) * 10 ^ 16 =
      10 ^ (x.interval.pointPlace - 1) := by
    rw [← zpow_natCast, ← zpow_add₀ (by norm_num)]
    congr 1
    push_cast
    ring
  refine lt_of_mul_lt_mul_right ?_ (show (0 : ℚ) ≤ 10 ^ 16 by positivity)
  calc (10 : ℚ) ^ (x.interval.pointPlace - 17) * 10 ^ 16
      = 10 ^ (x.interval.pointPlace - 1) := hsplit
    _ ≤ 4 * x.significand * x.quarter := hfirst
    _ < (2 + x.below) * 10 ^ 16 * x.quarter := mul_lt_mul_of_pos_right hwide x.quarter_pos
    _ = (2 + x.below) * x.quarter * 10 ^ 16 := by ring

theorem value_dropZeros (digits : ℕ) (exponent : ℤ) (fuel : ℕ) :
    (dropZeros digits exponent fuel).value = digits * 10 ^ exponent := by
  induction fuel generalizing digits exponent with
  | zero => rfl
  | succ fuel ih =>
      rw [dropZeros]
      by_cases hzero : digits % 10 = 0
      · rw [if_pos hzero, ih, zpow_add_one₀ (by norm_num), mul_comm _ (10 : ℚ), ← mul_assoc]
        congr 1
        have hdigits : digits / 10 * 10 = digits := by omega
        exact_mod_cast hdigits
      · rw [if_neg hzero]
        rfl

/-- The decimal by which a number is written rounds to it. -/
theorem near_shortest (x : Double) : x.Near x.shortest.value := by
  rw [shortest]
  by_cases hx : x.significand = 0
  · rw [if_pos hx, Decimal.value]
    have hpos := x.quarter_pos
    have hbelow : (0 : ℚ) ≤ x.below * x.quarter := by positivity
    refine ⟨?_, ?_, fun hodd => by omega⟩
    · rw [hx]
      push_cast
      linarith
    · rw [hx]
      push_cast
      linarith
  · rw [if_neg hx]
    dsimp only
    split
    next digits exponent hfound =>
      rw [value_dropZeros]
      obtain ⟨grid, -, hgrid⟩ := List.exists_of_findSome?_eq_some hfound
      obtain ⟨found, hnearest, heq⟩ := Option.map_eq_some_iff.mp hgrid
      cases heq
      exact (holds_iff hx).mp (holds_of_nearest hnearest)
    next hnone =>
      -- The finest grid is the one of seventeen digits.
      obtain ⟨digits, hdigits⟩ := exists_nearest hx (grid_lt hx)
      have hgrid := List.findSome?_eq_none_iff.mp hnone _
        (List.mem_map_of_mem (List.mem_range.mpr (show 16 < 17 by norm_num)))
      have hfinest : x.interval.pointPlace - 17 = x.interval.pointPlace - Int.ofNat 16 - 1 := by
        rw [Int.ofNat_eq_natCast]
        omega
      rw [hfinest] at hdigits
      rw [hdigits] at hgrid
      cases hgrid

end Interval

end Double

end EventSchema
